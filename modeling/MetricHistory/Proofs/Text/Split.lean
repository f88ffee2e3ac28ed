import Mathlib
import MetricHistory.Text.Basic

/-!
# Cutting and joining texts

`Text.splitOn` undoes `Text.join`: parts without the separator come back as they were joined
(`Text.splitOn_join`), and a text is what its parts join to (`Text.join_splitOn`).  A text that is
cut at a separator is cut on both sides of it (`Text.splitOn_append_sep`).  `Text.cut?` and
`Text.cutLast?` find one separator, and `Text.hasPart` a part (`Text.hasPart_iff`).
-/

namespace MetricHistory

namespace Text

theorem splitOn_ne_nil (sep : UInt8) (t : Text) : splitOn sep t ≠ [] := by
  cases t with
  | nil => simp [splitOn]
  | cons b t =>
    unfold splitOn
    split
    · simp
    · split <;> simp

theorem splitOn_of_not_mem {sep : UInt8} {t : Text} (h : sep ∉ t) : splitOn sep t = [t] := by
  induction t with
  | nil => rfl
  | cons b t ih =>
    simp only [List.mem_cons, not_or] at h
    rw [splitOn, if_neg (Ne.symm h.1), ih h.2]

theorem splitOn_append_sep (sep : UInt8) (a b : Text) :
    splitOn sep (a ++ sep :: b) = splitOn sep a ++ splitOn sep b := by
  induction a with
  | nil => simp [splitOn]
  | cons c a ih =>
    simp only [List.cons_append, splitOn]
    by_cases h : c = sep
    · simp [h, ih]
    · simp only [h, if_false, ih]
      cases hs : splitOn sep a with
      | nil => exact absurd hs (splitOn_ne_nil sep a)
      | cons p ps => rfl

theorem append_sep_inj {sep : UInt8} {a a' b b' : Text} (ha : sep ∉ a) (ha' : sep ∉ a')
    (h : a ++ sep :: b = a' ++ sep :: b') : a = a' ∧ b = b' := by
  have hsplit := congrArg (splitOn sep) h
  rw [splitOn_append_sep, splitOn_append_sep, splitOn_of_not_mem ha, splitOn_of_not_mem ha'] at hsplit
  obtain rfl : a = a' := (List.cons.inj hsplit).1
  exact ⟨rfl, (List.cons.inj (List.append_cancel_left h)).2⟩

theorem join_cons_cons (sep a b : Text) (ps : List Text) :
    join sep (a :: b :: ps) = a ++ sep ++ join sep (b :: ps) := by
  simp [join, List.intercalate_cons_cons]

theorem splitOn_join {sep : UInt8} {ps : List Text} (hne : ps ≠ []) (h : ∀ p ∈ ps, sep ∉ p) :
    splitOn sep (join [sep] ps) = ps := by
  induction ps with
  | nil => exact absurd rfl hne
  | cons p ps ih =>
    cases ps with
    | nil => simpa [join] using splitOn_of_not_mem (h p (by simp))
    | cons q qs =>
      rw [join_cons_cons, List.append_assoc, List.singleton_append, splitOn_append_sep,
        splitOn_of_not_mem (h p (by simp)), ih (by simp) fun r hr => h r (by simp [hr])]
      rfl

theorem join_splitOn (sep : UInt8) (t : Text) : join [sep] (splitOn sep t) = t := by
  induction t with
  | nil => rfl
  | cons b t ih =>
    obtain ⟨p, ps, hsplit⟩ := List.exists_cons_of_ne_nil (splitOn_ne_nil sep t)
    rw [hsplit] at ih
    unfold splitOn
    rw [hsplit]
    split
    · rename_i hb
      rw [join_cons_cons, ih, hb]
      rfl
    · rw [← ih]
      cases ps <;> simp [join, List.intercalate]

theorem not_mem_of_mem_splitOn {sep : UInt8} {t p : Text} (h : p ∈ splitOn sep t) : sep ∉ p := by
  induction t generalizing p with
  | nil =>
    simp only [splitOn, List.mem_singleton] at h
    simp [h]
  | cons b t ih =>
    unfold splitOn at h
    split at h
    · rcases List.mem_cons.1 h with rfl | h
      · simp
      · exact ih h
    · rename_i hb
      split at h
      · rename_i hs
        exact absurd hs (splitOn_ne_nil sep t)
      · rename_i q qs hs
        rcases List.mem_cons.1 h with rfl | h
        · have := ih (p := q) (by simp [hs])
          simp [this, Ne.symm hb]
        · exact ih (by simp [hs, h])

theorem join_append_singleton {sep : Text} {ps : List Text} (h : ps ≠ []) (a : Text) :
    join sep (ps ++ [a]) = join sep ps ++ sep ++ a := by
  induction ps with
  | nil => exact absurd rfl h
  | cons p ps ih =>
    cases ps with
    | nil => simp [join]
    | cons q qs =>
      rw [List.cons_append, List.cons_append, join_cons_cons, ← List.cons_append, ih (by simp),
        join_cons_cons]
      simp only [List.append_assoc]

theorem mem_join {sep : Text} {ps : List Text} {b : UInt8} (h : b ∈ join sep ps) :
    b ∈ sep ∨ ∃ p ∈ ps, b ∈ p := by
  induction ps with
  | nil => simp [join] at h
  | cons p ps ih =>
    cases ps with
    | nil => exact .inr ⟨p, by simp, by simpa [join] using h⟩
    | cons q qs =>
      rw [join_cons_cons, List.mem_append, List.mem_append] at h
      rcases h with (h | h) | h
      · exact .inr ⟨p, by simp, h⟩
      · exact .inl h
      · exact (ih h).imp_right fun ⟨r, hr, hb⟩ => ⟨r, List.mem_cons_of_mem p hr, hb⟩

theorem prefix_join (sep p : Text) (ps : List Text) : p <+: join sep (p :: ps) := by
  cases ps with
  | nil => simp [join]
  | cons q qs =>
    rw [join_cons_cons, List.append_assoc]
    exact List.prefix_append _ _

theorem splitOn_flatMap {sep : UInt8} {a : Text} {ps : List Text} (ha : sep ∉ a)
    (h : ∀ p ∈ ps, sep ∉ p) : splitOn sep (a ++ ps.flatMap fun p => sep :: p) = a :: ps := by
  induction ps generalizing a with
  | nil => rw [List.flatMap_nil, List.append_nil, splitOn_of_not_mem ha]
  | cons p ps ih =>
    obtain ⟨hp, hps⟩ := List.forall_mem_cons.1 h
    rw [List.flatMap_cons, List.cons_append, splitOn_append_sep, splitOn_of_not_mem ha, ih hp hps]
    rfl

/-! ### One separator -/

theorem cut?_append {sep : UInt8} {a : Text} (h : sep ∉ a) (b : Text) :
    cut? sep (a ++ sep :: b) = some (a, b) := by
  have ha : ∀ c ∈ a, (c != sep) = true := by
    intro c hc
    rw [bne_iff_ne]
    rintro rfl
    exact h hc
  rw [cut?, List.dropWhile_append_of_pos ha, List.takeWhile_append_of_pos ha]
  simp

theorem cut?_of_not_mem {sep : UInt8} {t : Text} (h : sep ∉ t) : cut? sep t = none := by
  have ht : t.dropWhile (· != sep) = [] := by
    rw [List.dropWhile_eq_nil_iff]
    intro c hc
    rw [bne_iff_ne]
    rintro rfl
    exact h hc
  rw [cut?, ht]

theorem cutLast?_append {sep : UInt8} {c : Text} (h : sep ∉ c) (a : Text) :
    cutLast? sep (a ++ sep :: c) = some (a, c) := by
  have hr : (a ++ sep :: c).reverse = c.reverse ++ sep :: a.reverse := by simp
  rw [cutLast?, hr, cut?_append (by simpa using h)]
  simp

theorem cutLast?_of_not_mem {sep : UInt8} {t : Text} (h : sep ∉ t) : cutLast? sep t = none := by
  rw [cutLast?, cut?_of_not_mem (by simpa using h)]
  rfl

/-! ### Parts -/

theorem hasPart_iff (u t : Text) : hasPart u t = true ↔ u <:+: t := by
  induction t with
  | nil => simp [hasPart]
  | cons b t ih =>
    rw [hasPart, Bool.or_eq_true, ih, List.isPrefixOf_iff_prefix, List.infix_cons_iff]

end Text

end MetricHistory
