import MetricHistory.Log.Entry
import MetricHistory.Proofs.Text.Order
import MetricHistory.Proofs.Text.Quoted
import MetricHistory.Proofs.Text.Split

/-!
# Reading the fields of a log line

A line shows the fields of an entry one behind the other, `key=value` behind a space each.  A value
that holds a space, a tab, a quote or an equals sign is quoted, all others stand as they are.

* `LogValue.lineText_append_inj` : a value on a line can be told, and so can what follows it;
* `LogEntry.fieldsText_inj` : so can all fields, the first by its key up to the equals sign;
* `LogEntry.console_eq_iff` : **two lines with one level and message are the same exactly when every
  key has the same value in both entries.**

Nothing is asked of the values, which may be any bytes, and nothing of the keys but that they hold
no equals sign.
-/

namespace MetricHistory

open Text

/-- Nothing follows, or a space. -/
def Text.AtGap (s : Text) : Prop := s = [] ∨ ∃ r, s = byte ' ' :: r

theorem Text.append_gap_inj {t u s r : Text} (ht : byte ' ' ∉ t) (hu : byte ' ' ∉ u) (hs : s.AtGap)
    (hr : r.AtGap) (h : t ++ s = u ++ r) : t = u ∧ s = r := by
  -- a space behind the line stands for the gap where nothing follows
  have hspace : ∀ {s : Text}, s.AtGap → ∃ s', s ++ [byte ' '] = byte ' ' :: s' := by
    rintro s (rfl | ⟨s', rfl⟩)
    · exact ⟨[], rfl⟩
    · exact ⟨s' ++ [byte ' '], rfl⟩
  obtain ⟨s', hs'⟩ := hspace hs
  obtain ⟨r', hr'⟩ := hspace hr
  have hlong : t ++ byte ' ' :: s' = u ++ byte ' ' :: r' := by
    rw [← hs', ← hr', ← List.append_assoc, ← List.append_assoc, h]
  obtain ⟨rfl, -⟩ := append_sep_inj ht hu hlong
  exact ⟨rfl, List.append_cancel_left h⟩

namespace LogValue

theorem not_mem_of_not_needsQuotes {t : Text} (h : ¬t.any needsQuotes = true) :
    byte ' ' ∉ t ∧ byte '"' ∉ t := by
  rw [List.any_eq_true, not_exists] at h
  constructor
  · exact fun hmem => h _ ⟨hmem, by decide⟩
  · exact fun hmem => h _ ⟨hmem, by decide⟩

theorem append_ne_quoted_append {t u s r : Text} (ht : byte '"' ∉ t) (hs : s.AtGap) :
    t ++ s ≠ quoted u ++ r := by
  rw [quoted_append]
  intro h
  cases t with
  | nil =>
    rcases hs with rfl | ⟨s', rfl⟩
    · cases h
    · exact absurd (List.cons.inj h).1 (by decide)
  | cons b t => exact ht (List.mem_cons.2 (.inl (List.cons.inj h).1.symm))

/-- **A value on a line can be told, and so can what follows it.** -/
theorem lineText_append_inj {t u s r : Text} (hs : s.AtGap) (hr : r.AtGap)
    (h : lineText t ++ s = lineText u ++ r) : t = u ∧ s = r := by
  unfold lineText at h
  -- the first byte tells a quoted value from one that stands as it is
  split at h <;> split at h
  · exact quoted_append_inj h
  · rename_i hu
    exact absurd h.symm (append_ne_quoted_append (not_mem_of_not_needsQuotes hu).2 hr)
  · rename_i ht _
    exact absurd h (append_ne_quoted_append (not_mem_of_not_needsQuotes ht).2 hs)
  · rename_i ht hu
    exact append_gap_inj (not_mem_of_not_needsQuotes ht).1 (not_mem_of_not_needsQuotes hu).1 hs hr h

theorem lineText_injective : Function.Injective lineText := fun t u h => by
  have hline : lineText t ++ [] = lineText u ++ [] := congrArg (· ++ []) h
  exact (lineText_append_inj (.inl rfl) (.inl rfl) hline).1

end LogValue

namespace LogEntry

/-! ### Fields that hold texts -/

/-- Texts as the values of fields. -/
def textFields (fs : List (Text × Text)) : List (Text × LogValue) :=
  fs.map fun f => (f.1, LogValue.text f.2)

/-- An entry whose fields hold texts. -/
def ofTexts (level : LogLevel) (message : Text) (fs : List (Text × Text)) (time : Time) : LogEntry :=
  { level := level, message := message, fields := textFields fs, time := time }

theorem fieldsText_cons (f : Text × Text) (fs : List (Text × Text)) :
    fieldsText (textFields (f :: fs)) =
      byte ' ' :: (f.1 ++ byte '=' :: (LogValue.lineText f.2 ++ fieldsText (textFields fs))) := by
  change byte ' ' :: f.1 ++ [byte '='] ++ LogValue.lineText f.2 ++ fieldsText (textFields fs) = _
  simp only [List.append_assoc, List.cons_append, List.nil_append]

theorem atGap_fieldsText (fs : List (Text × Text)) : (fieldsText (textFields fs)).AtGap := by
  cases fs with
  | nil => exact .inl rfl
  | cons f fs => exact .inr ⟨_, fieldsText_cons f fs⟩

/-- Fields on a line can be told. -/
theorem fieldsText_inj {fs gs : List (Text × Text)} (hfs : ∀ f ∈ fs, byte '=' ∉ f.1)
    (hgs : ∀ g ∈ gs, byte '=' ∉ g.1)
    (h : fieldsText (textFields fs) = fieldsText (textFields gs)) : fs = gs := by
  induction fs generalizing gs with
  | nil =>
    cases gs with
    | nil => rfl
    | cons g gs =>
      rw [fieldsText_cons] at h
      cases h
  | cons f fs ih =>
    cases gs with
    | nil =>
      rw [fieldsText_cons] at h
      cases h
    | cons g gs =>
      rw [fieldsText_cons, fieldsText_cons, List.cons.injEq] at h
      rw [List.forall_mem_cons] at hfs hgs
      obtain ⟨hkey, hrest⟩ := append_sep_inj hfs.1 hgs.1 h.2
      obtain ⟨hvalue, hfields⟩ :=
        LogValue.lineText_append_inj (atGap_fieldsText fs) (atGap_fieldsText gs) hrest
      rw [ih hfs.2 hgs.2 hfields, Prod.ext hkey hvalue]

/-! ### Lines -/

theorem sortedFields_ofTexts (level : LogLevel) (message : Text) (fs : List (Text × Text))
    (time : Time) : (ofTexts level message fs time).sortedFields = textFields (byKey fs) :=
  (List.map_mergeSort (s := fun a b : Text × LogValue => le a.1 b.1) fun _ _ _ _ => rfl).symm

theorem console_ofTexts_eq_iff {level : LogLevel} {message : Text} {fs gs : List (Text × Text)}
    {s t : Time} : console false (ofTexts level message fs s) =
        console false (ofTexts level message gs t) ↔
      fieldsText (textFields (byKey fs)) = fieldsText (textFields (byKey gs)) := by
  rw [console, console, sortedFields_ofTexts, sortedFields_ofTexts, List.append_left_inj]
  exact List.append_right_inj _

/-- **Two lines with one level and message are the same exactly when every key has the same value in
both entries.**  A value alone is told by its text on the line. -/
theorem console_eq_iff {fs gs : List (Text × Text)} (hfs : (fs.map (·.1)).Nodup)
    (hgs : (gs.map (·.1)).Nodup) (hf : ∀ f ∈ fs, byte '=' ∉ f.1) (hg : ∀ g ∈ gs, byte '=' ∉ g.1)
    (level : LogLevel) (message : Text) (s t : Time) :
    (console false (ofTexts level message fs s) = console false (ofTexts level message gs t) ↔
        ∀ key, fs.lookup key = gs.lookup key) ∧
      Function.Injective LogValue.lineText := by
  refine ⟨?_, LogValue.lineText_injective⟩
  rw [console_ofTexts_eq_iff, ← perm_iff_lookup hfs hgs, ← byKey_eq_iff hfs hgs]
  constructor
  · refine fieldsText_inj (fun f hmem => hf f ?_) (fun g hmem => hg g ?_)
    · exact (byKey_perm fs).subset hmem
    · exact (byKey_perm gs).subset hmem
  · exact fun h => congrArg (fieldsText ∘ textFields) h

/-- A value between quotes of its own is told from one that the line quotes. -/
theorem console_quoted_value :
    console false (ofTexts .warn "Analyzer failed"
        [("framework", "drupal"), ("error", "exit status 1")] Time.zero) ≠
      console false (ofTexts .warn "Analyzer failed"
        [("error", "\"exit status 1\""), ("framework", "drupal")] Time.zero) := by
  intro h
  have hlookup := (console_eq_iff (by decide +kernel) (by decide +kernel) (by decide +kernel)
    (by decide +kernel) _ _ _ _).1.1 h "error"
  exact absurd hlookup (by decide +kernel)

end LogEntry

end MetricHistory
