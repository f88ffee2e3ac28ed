import Mathlib
import MetricHistory.Text.Basic

/-!
# Sorted texts

Distinct texts have one ascending list, and so do entries with distinct keys, whose order tells
nothing then.

* `Text.le_iff_lt_or_eq` : texts are sorted by the lexicographic order of their bytes.
* `Text.sort_eq_sort` : sorting distinct texts gives the one ascending list of them.
* `perm_iff_lookup` : entries with distinct keys are told by what is found for each key.
* `Text.byKey_eq_iff` : entries with distinct keys are the same in any order exactly when they are
  the same sorted.
-/

namespace MetricHistory

/-! ### Sorting distinct values -/

theorem pairwise_mergeSort_of_nodup {α : Type} {le : α → α → Bool} {lt : α → α → Prop}
    (hle : ∀ a b, le a b = true ↔ lt a b ∨ a = b) (htrans : ∀ {a b c}, lt a b → lt b c → lt a c)
    (htotal : ∀ a b, lt a b ∨ a = b ∨ lt b a) {l : List α} (h : l.Nodup) :
    (l.mergeSort le).Pairwise lt := by
  have hsorted : (l.mergeSort le).Pairwise fun a b => le a b = true := by
    refine List.pairwise_mergeSort (fun a b c hab hbc => ?_) (fun a b => ?_) l
    · rw [hle] at hab hbc ⊢
      rcases hab with hab | rfl
      · rcases hbc with hbc | rfl
        · exact .inl (htrans hab hbc)
        · exact .inl hab
      · exact hbc
    · rw [Bool.or_eq_true, hle, hle]
      rcases htotal a b with hab | hab | hab
      · exact .inl (.inl hab)
      · exact .inl (.inr hab)
      · exact .inr (.inl hab)
  have hne : (l.mergeSort le).Pairwise (· ≠ ·) := (List.mergeSort_perm l le).nodup_iff.2 h
  refine (hsorted.and hne).imp fun hab => ?_
  exact ((hle _ _).1 hab.1).resolve_right hab.2

namespace Text

/-- Texts are sorted by the lexicographic order of their bytes. -/
theorem le_iff_lt_or_eq (a b : Text) : le a b = true ↔ a < b ∨ a = b := by
  induction a generalizing b with
  | nil => cases b <;> simp [le]
  | cons x a ih =>
    cases b with
    | nil => simp [le]
    | cons y b =>
      rw [le, Bool.or_eq_true, Bool.and_eq_true, decide_eq_true_eq, beq_iff_eq, ih,
        List.cons_lt_cons_iff, List.cons.injEq]
      tauto

theorem lt_or_eq_or_lt (a b : Text) : a < b ∨ a = b ∨ b < a := by
  induction a generalizing b with
  | nil => cases b <;> simp
  | cons x a ih =>
    cases b with
    | nil => simp
    | cons y b =>
      rw [List.cons_lt_cons_iff, List.cons_lt_cons_iff, List.cons.injEq]
      rcases Nat.lt_trichotomy x.toNat y.toNat with hxy | hxy | hxy
      · exact .inl (.inl (UInt8.lt_iff_toNat_lt.2 hxy))
      · obtain rfl := UInt8.toNat_inj.1 hxy
        rcases ih b with h | h | h <;> simp [h]
      · exact .inr (.inr (.inl (UInt8.lt_iff_toNat_lt.2 hxy)))

theorem pairwise_sort {ts : List Text} (h : ts.Nodup) : (sort ts).Pairwise (· < ·) :=
  pairwise_mergeSort_of_nodup le_iff_lt_or_eq List.lt_trans lt_or_eq_or_lt h

theorem mem_sort {t : Text} {ts : List Text} : t ∈ sort ts ↔ t ∈ ts := List.mem_mergeSort

/-- Sorting distinct texts gives the one ascending list of them. -/
theorem sort_eq_sort {ts us : List Text} (hts : ts.Nodup) (hus : us.Nodup)
    (h : ∀ t, t ∈ ts ↔ t ∈ us) : sort ts = sort us :=
  (pairwise_sort hts).eq_of_mem_iff (pairwise_sort hus) fun t => by rw [mem_sort, mem_sort, h]

end Text

/-! ### Entries by key -/

section Entries

variable {α β : Type} [BEq α] [LawfulBEq α] {l m : List (α × β)}

theorem lookup_eq_some_iff_mem (h : (l.map (·.1)).Nodup) {a : α} {b : β} :
    l.lookup a = some b ↔ (a, b) ∈ l := by
  constructor
  · intro hlookup
    obtain ⟨before, after, rfl, -⟩ := List.lookup_eq_some_iff.1 hlookup
    exact List.mem_append_cons_self
  · intro hmem
    have hfound : ∃ c, l.lookup a = some c := by
      rw [← Option.ne_none_iff_exists', ne_eq, List.lookup_eq_none_iff]
      intro hnone
      simpa using hnone (a, b) hmem
    obtain ⟨c, hc⟩ := hfound
    obtain ⟨before, after, hl, -⟩ := List.lookup_eq_some_iff.1 hc
    have hother : (a, c) ∈ l := hl ▸ List.mem_append_cons_self
    have hsame : (a, b) = (a, c) := List.inj_on_of_nodup_map h hmem hother rfl
    rw [hc, (Prod.mk.inj hsame).2]

/-- Entries with distinct keys are told by what is found for each key. -/
theorem perm_iff_lookup (hl : (l.map (·.1)).Nodup) (hm : (m.map (·.1)).Nodup) :
    l.Perm m ↔ ∀ a, l.lookup a = m.lookup a := by
  rw [List.perm_ext_iff_of_nodup hl.of_map hm.of_map]
  constructor
  · intro h a
    refine Option.ext fun b => ?_
    rw [lookup_eq_some_iff_mem hl, lookup_eq_some_iff_mem hm, h]
  · rintro h ⟨a, b⟩
    rw [← lookup_eq_some_iff_mem hl, ← lookup_eq_some_iff_mem hm, h]

end Entries

namespace Text

variable {β : Type} {l m : List (Text × β)}

/-- Entries by their keys. -/
def byKey (l : List (Text × β)) : List (Text × β) := l.mergeSort fun a b => le a.1 b.1

theorem byKey_perm (l : List (Text × β)) : (byKey l).Perm l := List.mergeSort_perm _ _

theorem map_byKey (l : List (Text × β)) : (byKey l).map (·.1) = sort (l.map (·.1)) :=
  List.map_mergeSort fun _ _ _ _ => rfl

theorem pairwise_byKey (h : (l.map (·.1)).Nodup) : (byKey l).Pairwise fun a b => a.1 < b.1 := by
  have hkeys := pairwise_sort h
  rwa [← map_byKey, List.pairwise_map] at hkeys

theorem eq_of_perm_of_ascending (hl : l.Pairwise fun a b => a.1 < b.1)
    (hm : m.Pairwise fun a b => a.1 < b.1) (h : l.Perm m) : l = m :=
  h.eq_of_pairwise (fun _ _ _ _ hab hba => absurd hba (List.lt_asymm hab)) hl hm

/-- Entries with distinct keys are the same in any order exactly when they are the same sorted. -/
theorem byKey_eq_iff (hl : (l.map (·.1)).Nodup) (hm : (m.map (·.1)).Nodup) :
    byKey l = byKey m ↔ l.Perm m := by
  constructor
  · intro h
    exact (byKey_perm l).symm.trans (h ▸ byKey_perm m)
  · intro h
    exact eq_of_perm_of_ascending (pairwise_byKey hl) (pairwise_byKey hm)
      ((byKey_perm l).trans (h.trans (byKey_perm m).symm))

end Text

end MetricHistory
