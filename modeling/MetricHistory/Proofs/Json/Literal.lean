import Mathlib
import MetricHistory.Json.Literal

/-!
# The spelling of literals

What number and string literals look like, apart from how they are read.

* `Literal.NumberParts.Valid` : the parts a number literal can have.  Reading gives valid parts
  (`Literal.numberParts?_eq_some`), and valid parts are read back (`Literal.numberParts?_spelling`).
* `Literal.IsBody` : the bodies of string literals.  Reading finds them (`Literal.body?_eq_some`), and
  they are read back up to their closing quote (`Literal.IsBody.body?_append`).
-/

namespace MetricHistory

namespace Literal

variable {t u r ds : Text} {p : NumberParts}

/-! ### Numbers -/

/-- All bytes are digits. -/
def Digits (t : Text) : Prop := ∀ b ∈ t, Text.isDigit b = true

/-- No digit comes next. -/
def NoDigit (t : Text) : Prop := ∀ b, t.head? = some b → Text.isDigit b = false

/-- Nothing comes next that could belong to a number. -/
structure Stops (t : Text) : Prop where
  digit : NoDigit t
  point : t.head? ≠ some (Text.byte '.')
  mark : ∀ b, t.head? = some b → b ≠ Text.byte 'e' ∧ b ≠ Text.byte 'E'

theorem stops_nil : Stops [] := ⟨by simp [NoDigit], by simp, by simp⟩

theorem digitRun_append (hd : Digits ds) (hr : NoDigit r) : digitRun (ds ++ r) = (ds, r) := by
  unfold digitRun
  rw [List.takeWhile_append_of_pos hd, List.dropWhile_append_of_pos hd]
  cases r with
  | nil => simp
  | cons b r => simp [hr b rfl]

theorem digits_fst_digitRun (t : Text) : Digits (digitRun t).1 :=
  fun _ hb => List.mem_takeWhile_imp hb

theorem append_digitRun (t : Text) : (digitRun t).1 ++ (digitRun t).2 = t :=
  List.takeWhile_append_dropWhile

/-- The digits before the point. -/
def IsWholePart (w : Text) : Prop :=
  w = [Text.byte '0'] ∨ ∃ b ds, w = b :: ds ∧ b ≠ Text.byte '0' ∧ Digits w

/-- The ways an exponent starts. -/
def marks : List Text := ["e", "E", "e+", "E+", "e-", "E-"]

/-- The parts of a number literal are those of one. -/
structure NumberParts.Valid (p : NumberParts) : Prop where
  whole : IsWholePart p.whole
  fraction : Digits p.fraction
  exponent : (p.exponentMark = [] ∧ p.exponent = []) ∨
    (p.exponentMark ∈ marks ∧ p.exponent ≠ [] ∧ Digits p.exponent)

theorem IsWholePart.digits {w : Text} (h : IsWholePart w) : Digits w := by
  rcases h with rfl | ⟨b, ds, rfl, -, hd⟩
  · intro b hb
    rw [List.mem_singleton] at hb
    subst hb
    decide
  · exact hd

theorem IsWholePart.exists_cons {w : Text} (h : IsWholePart w) : ∃ b ds, w = b :: ds := by
  rcases h with rfl | ⟨b, ds, rfl, -⟩
  · exact ⟨_, _, rfl⟩
  · exact ⟨b, ds, rfl⟩

theorem whole?_append {w : Text} (h : IsWholePart w) (hr : NoDigit r) :
    whole? (w ++ r) = some (w, r) := by
  rcases h with rfl | ⟨b, ds, rfl, hb, hd⟩
  · rfl
  · have hdigit : Text.isDigit b = true := hd b (by simp)
    rw [List.cons_append, whole?]
    simp only [hb, if_false, hdigit, if_true]
    rw [← List.cons_append, digitRun_append hd hr]

theorem whole?_eq_some {w : Text} (h : whole? t = some (w, r)) : IsWholePart w ∧ t = w ++ r := by
  cases t with
  | nil => simp [whole?] at h
  | cons b t =>
    rw [whole?] at h
    split at h
    · rename_i hb
      simp only [Option.some.injEq, Prod.mk.injEq] at h
      obtain ⟨rfl, rfl⟩ := h
      exact ⟨.inl (by rw [hb]), rfl⟩
    · rename_i hb
      split at h
      · rename_i hdigit
        simp only [Option.some.injEq] at h
        have hall := append_digitRun (b :: t)
        have hd := digits_fst_digitRun (b :: t)
        have hcons : (digitRun (b :: t)).1 = b :: t.takeWhile Text.isDigit := by
          simp [digitRun, hdigit]
        rw [h] at hall hd hcons
        exact ⟨.inr ⟨b, _, hcons, hb, hd⟩, hall.symm⟩
      · simp at h

/-- The spelling of a fraction. -/
def fractionText (ds : Text) : Text := if ds.isEmpty then "" else "." ++ ds

theorem fraction?_append (hd : Digits ds) (hr : NoDigit r)
    (hp : r.head? ≠ some (Text.byte '.')) : fraction? (fractionText ds ++ r) = some (ds, r) := by
  cases ds with
  | nil =>
    change fraction? r = some ([], r)
    cases r with
    | nil => rfl
    | cons b r =>
      have hb : b ≠ Text.byte '.' := by simpa using hp
      simp only [fraction?, hb, if_false]
  | cons d ds =>
    change fraction? (Text.byte '.' :: ((d :: ds) ++ r)) = _
    simp only [fraction?, if_true, digitRun_append hd hr]
    simp

theorem fraction?_eq_some (h : fraction? t = some (ds, r)) : Digits ds ∧ t = fractionText ds ++ r := by
  cases t with
  | nil =>
    simp only [fraction?, Option.some.injEq, Prod.mk.injEq] at h
    obtain ⟨rfl, rfl⟩ := h
    exact ⟨by simp [Digits], rfl⟩
  | cons b t =>
    rw [fraction?] at h
    simp only at h
    split at h
    · rename_i hb
      have hd := digits_fst_digitRun t
      have hall := append_digitRun t
      split at h
      · simp at h
      · rename_i hne
        simp only [Option.some.injEq, Prod.mk.injEq] at h
        obtain ⟨rfl, rfl⟩ := h
        refine ⟨hd, ?_⟩
        rw [fractionText, if_neg hne, hb]
        simp only [List.append_assoc, hall]
        rfl
    · simp only [Option.some.injEq, Prod.mk.injEq] at h
      obtain ⟨rfl, rfl⟩ := h
      exact ⟨by simp [Digits], rfl⟩

theorem exponent?_nil (hr : Stops r) : exponent? r = some ([], [], r) := by
  cases r with
  | nil => rfl
  | cons b r =>
    obtain ⟨h₁, h₂⟩ := hr.mark b rfl
    simp only [exponent?, h₁, h₂, or_self, if_false]

theorem exponent?_append {m : Text} (hm : m ∈ marks) (hd : Digits ds) (hne : ds ≠ [])
    (hr : NoDigit r) : exponent? (m ++ (ds ++ r)) = some (m, ds, r) := by
  obtain ⟨d, ds, rfl⟩ := List.exists_cons_of_ne_nil hne
  have hrun := digitRun_append hd hr
  -- a digit is no sign
  have hsign : ¬ (d = Text.byte '+' ∨ d = Text.byte '-') := by
    rintro (rfl | rfl)
    · exact absurd (hd _ List.mem_cons_self) (by decide)
    · exact absurd (hd _ List.mem_cons_self) (by decide)
  have hbare : ∀ b, b = Text.byte 'e' ∨ b = Text.byte 'E' →
      exponent? (b :: ((d :: ds) ++ r)) = some ([b], d :: ds, r) := by
    intro b hb
    simp only [exponent?, hb, if_true, List.cons_append, hsign, if_false]
    rw [← List.cons_append, hrun]
    simp
  have hsigned : ∀ b s, b = Text.byte 'e' ∨ b = Text.byte 'E' →
      s = Text.byte '+' ∨ s = Text.byte '-' →
      exponent? (b :: s :: ((d :: ds) ++ r)) = some ([b, s], d :: ds, r) := by
    intro b s hb hs
    simp only [exponent?, hb, hs, if_true, hrun]
    simp
  simp only [marks, List.mem_cons, List.not_mem_nil, or_false] at hm
  rcases hm with rfl | rfl | rfl | rfl | rfl | rfl
  · exact hbare _ (.inl rfl)
  · exact hbare _ (.inr rfl)
  · exact hsigned _ _ (.inl rfl) (.inl rfl)
  · exact hsigned _ _ (.inr rfl) (.inl rfl)
  · exact hsigned _ _ (.inl rfl) (.inr rfl)
  · exact hsigned _ _ (.inr rfl) (.inr rfl)

theorem exponent?_eq_some {m : Text} (h : exponent? t = some (m, ds, r)) :
    ((m = [] ∧ ds = []) ∨ (m ∈ marks ∧ ds ≠ [] ∧ Digits ds)) ∧ t = m ++ (ds ++ r) := by
  cases t with
  | nil =>
    simp only [exponent?, Option.some.injEq, Prod.mk.injEq] at h
    obtain ⟨rfl, rfl, rfl⟩ := h
    exact ⟨.inl ⟨rfl, rfl⟩, rfl⟩
  | cons b t =>
    by_cases hb : b = Text.byte 'e' ∨ b = Text.byte 'E'
    · -- what is left is the same whether or not there is a sign
      have read : ∀ m' u, b :: t = m' ++ u → m' ∈ marks →
          (if (digitRun u).1.isEmpty then none else some (m', (digitRun u).1, (digitRun u).2)) =
            some (m, ds, r) →
          ((m = [] ∧ ds = []) ∨ (m ∈ marks ∧ ds ≠ [] ∧ Digits ds)) ∧ b :: t = m ++ (ds ++ r) := by
        intro m' u hsplit hm hread
        split at hread
        · simp at hread
        · rename_i hne
          simp only [Option.some.injEq, Prod.mk.injEq] at hread
          obtain ⟨rfl, rfl, rfl⟩ := hread
          refine ⟨.inr ⟨hm, by simpa using hne, digits_fst_digitRun u⟩, ?_⟩
          rw [append_digitRun, hsplit]
      have hbare : [b] ∈ marks := by
        rcases hb with rfl | rfl <;> decide
      cases t with
      | nil =>
        simp only [exponent?, hb, if_true] at h
        exact read [b] [] rfl hbare h
      | cons s t =>
        by_cases hs : s = Text.byte '+' ∨ s = Text.byte '-'
        · simp only [exponent?, hb, hs, if_true] at h
          refine read [b, s] t rfl ?_ h
          rcases hb with rfl | rfl <;> rcases hs with rfl | rfl <;> decide
        · simp only [exponent?, hb, hs, if_true, if_false] at h
          exact read [b] (s :: t) rfl hbare h
    · simp only [exponent?, hb, if_false, Option.some.injEq, Prod.mk.injEq] at h
      obtain ⟨rfl, rfl, rfl⟩ := h
      exact ⟨.inl ⟨rfl, rfl⟩, rfl⟩

theorem spelling_eq (p : NumberParts) :
    p.spelling = (if p.negative then [Text.byte '-'] else []) ++ (p.whole ++
      (fractionText p.fraction ++ (p.exponentMark ++ p.exponent))) := by
  unfold NumberParts.spelling fractionText
  cases p.negative <;> simp only [List.append_assoc] <;> rfl

theorem NumberParts.Valid.noDigit_exponent (h : p.Valid) (hr : Stops r) :
    NoDigit (p.exponentMark ++ (p.exponent ++ r)) ∧
      (p.exponentMark ++ (p.exponent ++ r)).head? ≠ some (Text.byte '.') := by
  rcases h.exponent with ⟨hm, he⟩ | ⟨hm, -, -⟩
  · rw [hm, he]
    exact ⟨hr.digit, hr.point⟩
  · simp only [marks, List.mem_cons, List.not_mem_nil, or_false] at hm
    unfold NoDigit
    rcases hm with hm | hm | hm | hm | hm | hm <;> rw [hm] <;>
      exact ⟨by rintro b hb; cases hb; decide, by intro hb; cases hb⟩

theorem NumberParts.Valid.noDigit_fraction (h : p.Valid) (hr : Stops r) :
    NoDigit (fractionText p.fraction ++ (p.exponentMark ++ (p.exponent ++ r))) := by
  unfold fractionText
  split
  · exact (h.noDigit_exponent hr).1
  · rintro b hb
    cases hb
    decide

/-- Valid parts are read back from their spelling. -/
theorem numberParts?_spelling (h : p.Valid) (hr : Stops r) :
    numberParts? (p.spelling ++ r) = some (p, r) := by
  obtain ⟨b, ds, hw⟩ := h.whole.exists_cons
  have hb : b ≠ Text.byte '-' := by
    rintro rfl
    exact absurd (h.whole.digits _ (by rw [hw]; exact List.mem_cons_self)) (by decide)
  obtain ⟨hnoDigit, hpoint⟩ := h.noDigit_exponent hr
  have hwhole := whole?_append h.whole (h.noDigit_fraction hr)
  have hfraction := fraction?_append h.fraction hnoDigit hpoint
  have hexponent : exponent? (p.exponentMark ++ (p.exponent ++ r)) =
      some (p.exponentMark, p.exponent, r) := by
    rcases h.exponent with ⟨hm, he⟩ | ⟨hm, hne, hd⟩
    · rw [hm, he]
      exact exponent?_nil hr
    · exact exponent?_append hm hd hne hr.digit
  rw [spelling_eq, numberParts?]
  simp only [List.append_assoc]
  cases hneg : p.negative with
  | true =>
    simp only [if_true, List.cons_append, List.nil_append, List.head?_cons, beq_self_eq_true,
      List.drop_succ_cons, List.drop_zero, hwhole, hfraction, hexponent, Option.bind_eq_bind,
      Option.bind_some]
    rw [← hneg]
  | false =>
    have hhead : ∀ t, ((p.whole ++ t).head? == some (Text.byte '-')) = false := by
      intro t
      simp [hw, hb]
    simp only [Bool.false_eq_true, if_false, List.nil_append, hhead, hwhole, hfraction, hexponent,
      Option.bind_eq_bind, Option.bind_some]
    rw [← hneg]

/-- What is read as a number is the spelling of valid parts. -/
theorem numberParts?_eq_some (h : numberParts? t = some (p, r)) :
    p.Valid ∧ t = p.spelling ++ r := by
  simp only [numberParts?, Option.bind_eq_bind, Option.bind_eq_some_iff, Option.some.injEq,
    Prod.mk.injEq, Prod.exists] at h
  obtain ⟨w, t₁, hw, ds, t₂, hf, m, ex, t₃, he, rfl, rfl⟩ := h
  obtain ⟨hwhole, htext⟩ := whole?_eq_some hw
  obtain ⟨hfraction, rfl⟩ := fraction?_eq_some hf
  obtain ⟨hexponent, rfl⟩ := exponent?_eq_some he
  refine ⟨⟨hwhole, hfraction, hexponent⟩, ?_⟩
  rw [spelling_eq]
  simp only [List.append_assoc]
  by_cases hneg : t.head? = some (Text.byte '-')
  · simp only [hneg, beq_self_eq_true, if_true] at htext ⊢
    cases t with
    | nil => simp at hneg
    | cons b t =>
      simp only [List.head?_cons, Option.some.injEq] at hneg
      rw [List.drop_succ_cons, List.drop_zero] at htext
      rw [hneg, htext]
      rfl
  · have hbeq : (t.head? == some (Text.byte '-')) = false := by simpa using hneg
    simp only [hbeq, Bool.false_eq_true, if_false, List.nil_append] at htext ⊢
    exact htext

/-! ### Strings -/

/-- The bodies of string literals. -/
inductive IsBody : Text → Prop
  | nil : IsBody []
  | plain {b : UInt8} {t : Text} (h₁ : b ≠ Text.byte '"') (h₂ : ¬ b < 32)
      (h₃ : b ≠ Text.byte '\\') (h : IsBody t) : IsBody (b :: t)
  | short {e : UInt8} {t : Text} (he : (shortEscape? e).isSome = true) (h : IsBody t) :
      IsBody (Text.byte '\\' :: e :: t)
  | unit {w x y z : UInt8} {t : Text} (hd : (Text.digits? 16 [w, x, y, z]).isSome = true)
      (h : IsBody t) : IsBody (Text.byte '\\' :: Text.byte 'u' :: w :: x :: y :: z :: t)

theorem body?_plain {b : UInt8} (h₁ : b ≠ Text.byte '"') (h₂ : ¬ b < 32)
    (h₃ : b ≠ Text.byte '\\') (t : Text) :
    body? (b :: t) = (body? t).map fun (s, r) => (b :: s, r) := by
  rw [body?.eq_def]
  simp only [h₁, h₂, h₃, if_false]

theorem body?_short {e : UInt8} (he : (shortEscape? e).isSome = true) (t : Text) :
    body? (Text.byte '\\' :: e :: t) =
      (body? t).map fun (s, r) => (Text.byte '\\' :: e :: s, r) := by
  have hu : e ≠ Text.byte 'u' := by
    rintro rfl
    exact absurd he (by decide)
  rw [body?.eq_def]
  simp only [hu, he, if_false, if_true]
  rw [if_neg (by decide), if_neg (by decide)]

theorem body?_unit {w x y z : UInt8} (hd : (Text.digits? 16 [w, x, y, z]).isSome = true)
    (t : Text) :
    body? (Text.byte '\\' :: Text.byte 'u' :: w :: x :: y :: z :: t) =
      (body? t).map fun (s, r) =>
        (Text.byte '\\' :: Text.byte 'u' :: w :: x :: y :: z :: s, r) := by
  rw [body?.eq_def]
  simp only [hd, if_true]
  rw [if_neg (by decide), if_neg (by decide)]

theorem IsBody.body?_append (h : IsBody t) (r : Text) :
    body? (t ++ Text.byte '"' :: r) = some (t, r) := by
  induction h with
  | nil =>
    rw [List.nil_append, body?.eq_def]
    rfl
  | plain h₁ h₂ h₃ _ ih =>
    rw [List.cons_append, body?_plain h₁ h₂ h₃, ih]
    rfl
  | short he _ ih =>
    rw [List.cons_append, List.cons_append, body?_short he, ih]
    rfl
  | unit hd _ ih =>
    simp only [List.cons_append]
    rw [body?_unit hd, ih]
    rfl

theorem isBody_of_map {b : Text} (front : Text) (hfront : ∀ s, IsBody s → IsBody (front ++ s))
    (ih : ∀ {b : Text}, body? t = some (b, r) → IsBody b ∧ t = b ++ Text.byte '"' :: r)
    (h : (body? t).map (fun (s, r) => (front ++ s, r)) = some (b, r)) :
    IsBody b ∧ front ++ t = b ++ Text.byte '"' :: r := by
  simp only [Option.map_eq_some_iff, Prod.mk.injEq, Prod.exists] at h
  obtain ⟨s, r', hs, rfl, rfl⟩ := h
  obtain ⟨hbody, ht⟩ := ih hs
  exact ⟨hfront s hbody, by rw [ht, List.append_assoc]⟩

/-- What is read as the body of a string literal is one, and the rest follows its closing quote. -/
theorem body?_eq_some {b : Text} (h : body? t = some (b, r)) :
    IsBody b ∧ t = b ++ Text.byte '"' :: r := by
  induction t using body?.induct generalizing b with
  | case1 => simp [body?.eq_def] at h
  | case2 t =>
    rw [body?.eq_def] at h
    simp only [if_true, Option.some.injEq, Prod.mk.injEq] at h
    obtain ⟨rfl, rfl⟩ := h
    exact ⟨.nil, rfl⟩
  | case3 b t h₁ h₂ =>
    rw [body?.eq_def] at h
    simp [h₁, h₂] at h
  | case4 h₁ h₂ =>
    rw [body?.eq_def] at h
    simp [h₁, h₂] at h
  | case5 w x y z t hd h₁ h₂ ih =>
    rw [body?_unit hd] at h
    exact isBody_of_map [Text.byte '\\', Text.byte 'u', w, x, y, z] (fun s hs => .unit hd hs) ih h
  | case6 w x y z t hd h₁ h₂ =>
    rw [body?.eq_def] at h
    simp [h₁, h₂, hd] at h
  | case7 t hshort h₁ h₂ =>
    rw [body?.eq_def] at h
    simp [h₁, h₂] at h
  | case8 e t hu he h₁ h₂ ih =>
    rw [body?_short he] at h
    exact isBody_of_map [Text.byte '\\', e] (fun s hs => .short he hs) ih h
  | case9 e t hu he h₁ h₂ =>
    rw [body?.eq_def] at h
    simp [h₁, h₂, hu, he] at h
  | case10 c t h₁ h₂ h₃ ih =>
    rw [body?_plain h₁ h₂ h₃] at h
    exact isBody_of_map [c] (fun s hs => .plain h₁ h₂ h₃ hs) ih h

end Literal

end MetricHistory
