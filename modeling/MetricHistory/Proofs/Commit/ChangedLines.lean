import MetricHistory.Commit.Log
import MetricHistory.Git.Log
import MetricHistory.Proofs.Decimal.Notation
import MetricHistory.Proofs.Text.Split

/-!
# The size of a change is read back

The line that says how large a change is lists counts, each with what is counted
(`Git.DiffSize.phrases`).

* `CommitLog.digitsBefore?_join` : among such counts the first one is found that has a given word
  behind it;
* `CommitLog.changedLines_summary` : **from the line the number of changed lines is read back.**
-/

namespace MetricHistory

open Literal (Digits)

namespace CommitLog

variable {word : Text}

/-! ### Counts in front of a word -/

/-- A count, and what is counted with the blank before it. -/
structure Phrase where
  count : ℕ
  noun : Text

namespace Phrase

def text (p : Phrase) : Text := Text.ofNat p.count ++ p.noun

/-- A count of things, whose name has another form for more than one. -/
def counted (n : ℕ) (one many : Text) : Phrase := ⟨n, " " ++ if n = 1 then one else many⟩

theorem text_counted (n : ℕ) (one many : Text) :
    (counted n one many).text = Git.counted n one many := by
  rw [text, counted, Git.counted, List.append_assoc]

theorem noun_counted {f : Text → Bool} {b : Bool} (n : ℕ) {one many : Text}
    (hone : f (" " ++ one) = b) (hmany : f (" " ++ many) = b) : f (counted n one many).noun = b := by
  unfold counted
  dsimp only
  split
  · exact hone
  · exact hmany

end Phrase

/-- The name stands on one line of a record, has no digits, and is long enough to be told from
`word`. -/
def isNoun (word noun : Text) : Bool :=
  word.length ≤ noun.length && !noun.any Text.isDigit && !noun.any fun b => b == 10 || b == recordMark

theorem digitsBefore?_digits {ds : Text} (h : Digits ds) (run t : Text) :
    digitsBefore? word run (ds ++ t) = digitsBefore? word (run ++ ds) t := by
  induction ds generalizing run with
  | nil => simp
  | cons b ds ih =>
    rw [List.cons_append, digitsBefore?, if_pos (h b (by simp)), ih fun c hc => h c (by simp [hc])]
    simp

theorem digitsBefore?_plain {s : Text} (h : s.any Text.isDigit = false) (t : Text) :
    digitsBefore? word [] (s ++ t) = digitsBefore? word [] t := by
  induction s with
  | nil => rfl
  | cons b s ih =>
    rw [List.any_cons, Bool.or_eq_false_iff] at h
    rw [List.cons_append, digitsBefore?, if_neg (by simp [h.1]), if_neg (by simp), ih h.2]

theorem isPrefixOf_append {s : Text} (h : word.length ≤ s.length) (t : Text) :
    word.isPrefixOf (s ++ t) = word.isPrefixOf s := by
  rw [Bool.eq_iff_iff, List.isPrefixOf_iff_prefix, List.isPrefixOf_iff_prefix]
  exact ⟨fun hp => List.prefix_of_prefix_length_le hp (List.prefix_append s t) h,
    fun hp => hp.trans (List.prefix_append s t)⟩

theorem digitsBefore?_phrase (hword : word ≠ []) {p : Phrase} (hp : isNoun word p.noun = true)
    (t : Text) :
    digitsBefore? word [] (p.text ++ t) =
      if word.isPrefixOf p.noun then some (Text.ofNat p.count) else digitsBefore? word [] t := by
  simp only [isNoun, Bool.and_eq_true, decide_eq_true_eq, Bool.not_eq_true'] at hp
  obtain ⟨⟨hlength, hdigits⟩, -⟩ := hp
  rw [Phrase.text, List.append_assoc, digitsBefore?_digits (Text.digits_ofNat _), List.nil_append,
    ← isPrefixOf_append hlength t]
  obtain ⟨b, s, hnoun⟩ : ∃ b s, p.noun = b :: s :=
    List.exists_cons_of_ne_nil fun hnil => hword (by simpa [hnil] using hlength)
  rw [hnoun, List.any_cons, Bool.or_eq_false_iff] at hdigits
  have hrun : (Text.ofNat p.count).isEmpty = false := by simpa using Text.ofNat_ne_nil p.count
  rw [hnoun, List.cons_append, digitsBefore?, if_neg (by simp [hdigits.1]), hrun, Bool.not_false,
    Bool.true_and]
  -- behind the first byte of the name there is no run of digits any more
  split
  · rfl
  · exact digitsBefore?_plain hdigits.2 t

/-- The first count that is found has the word behind it. -/
theorem digitsBefore?_join (hword : word ≠ []) {ps : List Phrase}
    (h : ∀ p ∈ ps, isNoun word p.noun = true) :
    digitsBefore? word [] (Text.join ", " (ps.map Phrase.text)) =
      (ps.find? fun p => word.isPrefixOf p.noun).map fun p => Text.ofNat p.count := by
  induction ps with
  | nil => rfl
  | cons p ps ih =>
    obtain ⟨hp, hps⟩ := List.forall_mem_cons.1 h
    have hrest : digitsBefore? word [] (Text.join ", " ((p :: ps).map Phrase.text)) =
        if word.isPrefixOf p.noun then some (Text.ofNat p.count)
        else digitsBefore? word [] (Text.join ", " (ps.map Phrase.text)) := by
      cases ps with
      | nil =>
        rw [← digitsBefore?_phrase hword hp]
        simp [Text.join]
      | cons q qs =>
        rw [List.map_cons, List.map_cons, Text.join_cons_cons, List.append_assoc,
          digitsBefore?_phrase hword hp, digitsBefore?_plain (by decide)]
    rw [hrest, ih hps, List.find?_cons]
    cases word.isPrefixOf p.noun <;> rfl

theorem countBefore_join (hword : word ≠ []) {ps : List Phrase}
    (h : ∀ p ∈ ps, isNoun word p.noun = true) :
    countBefore word (" " ++ Text.join ", " (ps.map Phrase.text)) =
      match ps.find? fun p => word.isPrefixOf p.noun with
      | some p => min maxInt64 p.count
      | none => 0 := by
  have hread : ∀ n, Text.nat? (Text.ofNat n) = some n := fun n => by
    rw [Text.nat?_of_digits (Text.digits_ofNat n) (Text.ofNat_ne_nil n), Text.numeral_ofNat]
  rw [countBefore, digitsBefore?_plain (by decide), digitsBefore?_join hword h]
  cases ps.find? fun p => word.isPrefixOf p.noun with
  | none => rfl
  | some p => simp only [Option.map_some, hread, Option.getD_some]

end CommitLog

namespace Git.DiffSize

open CommitLog (Phrase)

/-- How many files are changed. -/
def changed (d : DiffSize) : Phrase := .counted d.files "file changed" "files changed"

/-- How many lines are inserted. -/
def plus (d : DiffSize) : Phrase := .counted d.insertions "insertion(+)" "insertions(+)"

/-- How many lines are deleted. -/
def minus (d : DiffSize) : Phrase := .counted d.deletions "deletion(-)" "deletions(-)"

@[simp] theorem count_plus (d : DiffSize) : d.plus.count = d.insertions := rfl

@[simp] theorem count_minus (d : DiffSize) : d.minus.count = d.deletions := rfl

/-- The counts of a change that are written.  Of no file and no line nothing more is said. -/
def phrases (d : DiffSize) : List Phrase :=
  d.changed ::
    if d.files = 0 ∧ d.insertions = 0 ∧ d.deletions = 0 then []
    else if d.insertions = 0 ∧ d.deletions = 0 then [d.plus, d.minus]
    else if d.deletions = 0 then [d.plus]
    else if d.insertions = 0 then [d.minus]
    else [d.plus, d.minus]

/-- The counts of a change on a line. -/
def counts (d : DiffSize) : Text := " " ++ Text.join ", " (d.phrases.map Phrase.text)

/-- The line that says how large a change is, also one of no file. -/
def summary (d : DiffSize) : Text := d.counts ++ "\n"

theorem summary_of_files {d : DiffSize} (h : d.files ≠ 0) : d.summary = d.line := by
  unfold summary counts line phrases changed plus minus
  simp only [h, false_and, if_false, List.map_cons, Phrase.text_counted, Bool.and_eq_true,
    decide_eq_true_eq]
  split_ifs <;> simp only [List.map_cons, List.map_nil, Phrase.text_counted]

theorem mem_phrases {d : DiffSize} {p : Phrase} (h : p ∈ d.phrases) :
    p = d.changed ∨ p = d.plus ∨ p = d.minus := by
  unfold phrases at h
  split_ifs at h <;> simp at h <;> tauto

theorem isNoun_phrases {word : Text} (hword : word = " insertion" ∨ word = " deletion")
    {d : DiffSize} : ∀ p ∈ d.phrases, CommitLog.isNoun word p.noun = true := by
  intro p hp
  rcases mem_phrases hp with rfl | rfl | rfl <;>
    refine Phrase.noun_counted (f := CommitLog.isNoun word) _ ?_ ?_ <;>
      rcases hword with rfl | rfl <;> decide

theorem counts_oneLine {b : UInt8} (hb : b = 10 ∨ b = CommitLog.recordMark) (d : DiffSize) :
    b ∉ d.counts := by
  intro h
  have hmarks : ∀ t ∈ [" ", ", "], b ∉ Text.ofString t := by rcases hb with rfl | rfl <;> decide
  rcases List.mem_append.1 h with h | h
  · exact hmarks _ (by simp) h
  rcases Text.mem_join h with h | ⟨t, ht, h⟩
  · exact hmarks _ (by simp) h
  obtain ⟨p, hp, rfl⟩ := List.mem_map.1 ht
  rcases List.mem_append.1 h with h | h
  · have hdigit := Text.digits_ofNat _ _ h
    rcases hb with rfl | rfl <;> exact absurd hdigit (by decide)
  · have hnoun := isNoun_phrases (.inl rfl) p hp
    simp only [CommitLog.isNoun, Bool.and_eq_true, Bool.not_eq_true', List.any_eq_false] at hnoun
    exact hnoun.2 b h (by simpa using hb)

theorem mark_not_mem_summary (d : DiffSize) : CommitLog.recordMark ∉ d.summary := by
  rw [summary, List.mem_append, not_or]
  exact ⟨d.counts_oneLine (.inr rfl), by decide⟩

theorem hasPart_counts (d : DiffSize) : Text.hasPart "changed" d.counts = true := by
  have hnoun : Text.hasPart "changed" d.changed.noun = true :=
    Phrase.noun_counted (f := Text.hasPart "changed") _ (by decide) (by decide)
  have htext : d.changed.noun <:+: d.changed.text := (List.suffix_append _ _).isInfix
  have hline : d.changed.text <:+: d.counts := by
    rw [counts, phrases, List.map_cons]
    exact (Text.prefix_join _ _ _).isInfix.trans (List.suffix_append _ _).isInfix
  rw [Text.hasPart_iff] at hnoun ⊢
  exact hnoun.trans (htext.trans hline)

end Git.DiffSize

namespace CommitLog

open Git (DiffSize)

/-- One of the two counts of lines is found, or it is zero and not written. -/
theorem countBefore_counts (d : DiffSize) (word : Text) (plus : Bool)
    (hword : word = " insertion" ∨ word = " deletion")
    (hchanged : word.isPrefixOf d.changed.noun = false)
    (hplus : word.isPrefixOf d.plus.noun = plus) (hminus : word.isPrefixOf d.minus.noun = !plus) :
    countBefore word d.counts = min maxInt64 (if plus then d.insertions else d.deletions) := by
  have hne : word ≠ [] := by rcases hword with rfl | rfl <;> decide
  have hzero : min maxInt64 0 = 0 := by decide
  rw [DiffSize.counts, countBefore_join hne (DiffSize.isNoun_phrases hword), DiffSize.phrases]
  -- by what the word is and by which counts are written
  cases plus <;> split_ifs <;> simp_all

/-- **The number of changed lines is read back from the line that says how large a change is.** -/
theorem changedLines_summary {d : DiffSize} (hfit : d.insertions + d.deletions < 2 ^ 63) :
    changedLines ("\n" ++ d.summary) = (d.insertions + d.deletions : ℕ) := by
  have hins := countBefore_counts d " insertion" true (.inl rfl)
    (Phrase.noun_counted _ (by decide) (by decide)) (Phrase.noun_counted _ (by decide) (by decide))
    (Phrase.noun_counted _ (by decide) (by decide))
  have hdel := countBefore_counts d " deletion" false (.inr rfl)
    (Phrase.noun_counted _ (by decide) (by decide)) (Phrase.noun_counted _ (by decide) (by decide))
    (Phrase.noun_counted _ (by decide) (by decide))
  have hlines : Text.lines ("\n" ++ d.summary) = [[], d.counts, []] := by
    change Text.splitOn 10 ([] ++ 10 :: (d.counts ++ 10 :: [])) = _
    rw [Text.splitOn_append_sep, Text.splitOn_append_sep,
      Text.splitOn_of_not_mem (d.counts_oneLine (.inl rfl))]
    rfl
  rw [changedLines, hlines, List.find?_cons_of_neg (by decide),
    List.find?_cons_of_pos d.hasPart_counts]
  dsimp only
  rw [hins, hdel, if_pos rfl, if_neg Bool.false_ne_true, maxInt64, wrap64]
  rw [Int.bmod_eq_of_le] <;> push_cast <;> omega

end CommitLog

end MetricHistory
