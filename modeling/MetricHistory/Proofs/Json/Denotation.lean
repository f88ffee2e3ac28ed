import MetricHistory.Json.Decode
import MetricHistory.Proofs.Decimal.Range
import MetricHistory.Proofs.Json.Grammar

/-!
# What a JSON text says

A number has a value apart from its notation (`Json.Denotes`), which is read as a double when the
notation is of moderate length (`Json.Moderate`).  A member that is given at most once, and in no
other spelling (`Json.Once`), has the same value however it is looked for.

* `Json.Denotes.float?_isSome_iff` : the numbers of moderate length that are read as doubles are those
  below `Binary64.limit`;
* `Json.Denotes.truncate_float?` : the natural numbers that are doubles are read without a loss;
* `Json.Once.lookup_eq_some_iff`, `Json.Once.field_eq_some_iff` and `Json.Once.rawField_eq` : the
  value of a member that is given at most once.
-/

namespace MetricHistory

namespace Decimal

theorem value_nonneg (d : Decimal) : 0 ≤ d.value := by
  unfold value
  positivity

theorem isWhole_iff {c : ℕ} {k : ℤ} :
    Literal.isWhole c k = true ↔ ∃ n : ℕ, value ⟨c, k⟩ = n := by
  simp only [Literal.isWhole, Bool.or_eq_true, Bool.and_eq_true, decide_eq_true_eq, beq_iff_eq,
    gt_iff_lt, Nat.pow_eq]
  rcases le_or_gt 0 k with hk | hk
  · obtain ⟨j, rfl⟩ := Int.eq_ofNat_of_zero_le hk
    refine iff_of_true (.inl (.inl hk)) ⟨c * 10 ^ j, ?_⟩
    rw [value, zpow_natCast]
    push_cast
    rfl
  · obtain ⟨j, rfl, hj⟩ : ∃ j : ℕ, k = -j ∧ 0 < j := ⟨(-k).toNat, by omega, by omega⟩
    have hten : (10 : ℚ) ^ j ≠ 0 := by positivity
    -- the number is the coefficient divided by a power of ten
    have hvalue : ∀ n : ℕ, value ⟨c, -j⟩ = n ↔ c = n * 10 ^ j := by
      intro n
      rw [value, zpow_neg, zpow_natCast, ← div_eq_mul_inv, div_eq_iff hten]
      exact_mod_cast Iff.rfl
    simp only [hvalue, neg_neg, Int.toNat_natCast]
    constructor
    · rintro ((hneg | rfl) | ⟨-, hdvd⟩)
      · omega
      · exact ⟨0, by simp⟩
      · exact ⟨c / 10 ^ j, (Nat.div_mul_cancel (Nat.dvd_of_mod_eq_zero hdvd)).symm⟩
    · rintro ⟨n, rfl⟩
      rcases Nat.eq_zero_or_pos n with rfl | hn
      · exact .inl (.inr (Nat.zero_mul _))
      · refine .inr ⟨?_, Nat.mul_mod_left n _⟩
        by_contra hlength
        have hlt := (Nat.length_toDigits_le_iff (by norm_num : 1 < 10) hj).1 (not_lt.1 hlength)
        exact absurd (Nat.le_mul_of_pos_left (10 ^ j) hn) (not_le.2 hlt)

end Decimal

namespace Literal

namespace NumberParts

variable {p : NumberParts}

/-- The number that a literal stands for. -/
def value (p : NumberParts) : ℚ :=
  if p.negative then -Decimal.value ⟨p.coefficient, p.power⟩
  else Decimal.value ⟨p.coefficient, p.power⟩

theorem abs_value (p : NumberParts) : |p.value| = Decimal.value ⟨p.coefficient, p.power⟩ := by
  unfold value
  split
  · rw [abs_neg, abs_of_nonneg (Decimal.value_nonneg _)]
  · exact abs_of_nonneg (Decimal.value_nonneg _)

theorem value_neg_iff : p.value < 0 ↔ p.negative = true ∧ p.coefficient ≠ 0 := by
  have hnonneg := Decimal.value_nonneg ⟨p.coefficient, p.power⟩
  have hzero : Decimal.value ⟨p.coefficient, p.power⟩ = 0 ↔ p.coefficient = 0 :=
    Decimal.value_eq_zero
  unfold value
  cases p.negative with
  | true =>
    simp only [if_true, neg_lt_zero, true_and]
    rw [hnonneg.lt_iff_ne', ne_eq, hzero]
  | false => simpa using hnonneg

theorem value_isInt_iff :
    (∃ i : ℤ, p.value = i) ↔ ∃ n : ℕ, Decimal.value ⟨p.coefficient, p.power⟩ = n := by
  rw [← abs_value]
  constructor
  · rintro ⟨i, hi⟩
    exact ⟨i.natAbs, by rw [hi, Nat.cast_natAbs, Int.cast_abs]⟩
  · rintro ⟨n, hn⟩
    rcases (abs_eq (Nat.cast_nonneg n)).1 hn with h | h
    · exact ⟨n, by rw [h, Int.cast_natCast]⟩
    · exact ⟨-n, by rw [h, Int.cast_neg, Int.cast_natCast]⟩

/-- All digits of the exponent are read, and the digits before the point can be kept. -/
structure Moderate (p : NumberParts) : Prop where
  exponent : Text.numeral p.exponent < 100000
  whole : p.whole.length ≤ Binary64.digitLimit

instance (p : NumberParts) : Decidable p.Moderate :=
  decidable_of_iff (Text.numeral p.exponent < 100000 ∧ p.whole.length ≤ Binary64.digitLimit)
    ⟨fun h => ⟨h.1, h.2⟩, fun h => ⟨h.exponent, h.whole⟩⟩

theorem Moderate.float?_spelling (hm : p.Moderate) (h : p.Valid) :
    float? p.spelling = Binary64.ofDecimal? p.negative p.coefficient p.power :=
  Literal.float?_spelling h hm.exponent hm.whole

end NumberParts

end Literal

namespace Json

open Literal (NumberParts)

/-! ### Numbers -/

variable {j : Json} {literal : Text} {x y : ℚ}

/-- The value is a literal of the number. -/
def Denotes (j : Json) (x : ℚ) : Prop :=
  ∃ p : NumberParts, p.Valid ∧ j = .number p.spelling ∧ p.value = x

theorem Spelled.denotes (h : Spelled (.number literal)) : ∃ x, Denotes (.number literal) x := by
  obtain ⟨p, hp, rfl⟩ := h
  exact ⟨p.value, p, hp, rfl, rfl⟩

theorem denotes_ofNat (n : ℕ) : Denotes (.number (Text.ofNat n)) n := by
  have hwhole : Literal.IsWholePart (Text.ofNat n) := by
    rcases Nat.eq_zero_or_pos n with rfl | hpos
    · exact .inl rfl
    · obtain ⟨b, ds, hcons, hb⟩ := Text.exists_ofNat_eq_cons hpos
      exact .inr ⟨b, ds, hcons, hb, Text.digits_ofNat n⟩
  have hspelling : (⟨false, Text.ofNat n, [], [], []⟩ : NumberParts).spelling = Text.ofNat n := by
    rw [Literal.spelling_eq]
    simp only [Bool.false_eq_true, if_false, List.nil_append, List.append_nil]
    exact List.append_nil _
  have hcoefficient : (⟨false, Text.ofNat n, [], [], []⟩ : NumberParts).coefficient = n := by
    rw [NumberParts.coefficient, List.append_nil, Text.numeral_ofNat]
  have hpower : (⟨false, Text.ofNat n, [], [], []⟩ : NumberParts).power = 0 := rfl
  refine ⟨⟨false, Text.ofNat n, [], [], []⟩, ⟨hwhole, by simp [Literal.Digits], .inl ⟨rfl, rfl⟩⟩,
    by rw [hspelling], ?_⟩
  rw [NumberParts.value, hcoefficient, hpower, Decimal.value]
  simp

/-- The value is not a number that is spelled at more than moderate length. -/
def Moderate : Json → Prop
  | .number literal => ∀ parts ∈ Literal.numberParts? literal, parts.1.Moderate
  | _ => True

instance : (j : Json) → Decidable j.Moderate
  | .number literal =>
    inferInstanceAs (Decidable (∀ parts ∈ Literal.numberParts? literal, parts.1.Moderate))
  | .null => .isTrue trivial
  | .bool _ => .isTrue trivial
  | .string _ => .isTrue trivial
  | .array .. => .isTrue trivial
  | .object .. => .isTrue trivial

theorem Moderate.parts {p : NumberParts} (h : (Json.number p.spelling).Moderate) (hp : p.Valid) :
    p.Moderate := by
  have hparts := Literal.numberParts?_spelling hp Literal.stops_nil
  rw [List.append_nil] at hparts
  exact h (p, []) hparts

theorem Denotes.eq_number (h : Denotes j x) : ∃ literal, j = .number literal := by
  obtain ⟨p, -, hj, -⟩ := h
  exact ⟨_, hj⟩

theorem Denotes.unique (h : Denotes j x) (h' : Denotes j y) : x = y := by
  obtain ⟨p, hp, rfl, rfl⟩ := h
  obtain ⟨q, hq, hspelling, rfl⟩ := h'
  have hread := Literal.decimal?_spelling hp
  rw [Json.number.inj hspelling, Literal.decimal?_spelling hq] at hread
  simp only [Option.some.injEq, Prod.mk.injEq] at hread
  obtain ⟨hnegative, hcoefficient, hpower⟩ := hread
  rw [NumberParts.value, NumberParts.value, hnegative, hcoefficient, hpower]

theorem denotes_spelling_iff {p : NumberParts} (h : p.Valid) :
    Denotes (.number p.spelling) x ↔ p.value = x := by
  have hself : Denotes (.number p.spelling) p.value := ⟨p, h, rfl, rfl⟩
  constructor
  · exact hself.unique
  · rintro rfl
    exact hself

/-- **A number of moderate length is read as a double when it lies within the limit.** -/
theorem Denotes.float?_isSome_iff (h : Denotes (.number literal) x)
    (hm : (Json.number literal).Moderate) :
    (Literal.float? literal).isSome = true ↔ |x| < Binary64.limit := by
  obtain ⟨p, hp, hj, rfl⟩ := h
  obtain rfl := Json.number.inj hj
  rw [(hm.parts hp).float?_spelling hp, Binary64.ofDecimal?_isSome_iff, p.abs_value]

/-- **A natural number that is a double is read and truncated without a loss.** -/
theorem Denotes.truncate_float? {n : ℕ} (h : Denotes (.number literal) n)
    (hm : (Json.number literal).Moderate) (hdouble : Binary64.IsDouble n) (hn : n < 2 ^ 63) :
    ∃ f, Literal.float? literal = some f ∧ Binary64.truncate f = n := by
  obtain ⟨p, hp, hj, hvalue⟩ := h
  obtain rfl := Json.number.inj hj
  have habs : Decimal.value ⟨p.coefficient, p.power⟩ = n := by
    rw [← p.abs_value, hvalue, Nat.abs_cast]
  obtain ⟨f, hf, htruncate⟩ := Binary64.truncate_ofDecimal? p.negative hdouble hn habs
  refine ⟨f, ((hm.parts hp).float?_spelling hp).trans hf, ?_⟩
  rw [htruncate]
  split
  · rename_i hnegative
    -- a natural number with a sign is zero
    have hzero : ¬ p.value < 0 := by
      rw [hvalue, not_lt]
      exact Nat.cast_nonneg n
    rw [NumberParts.value_neg_iff, not_and, not_not] at hzero
    have hcast : (n : ℚ) = 0 := habs.symm.trans (Decimal.value_eq_zero.2 (hzero hnegative))
    rw [Nat.cast_eq_zero.1 hcast]
    rfl
  · rfl

/-- A number that is not below zero is read as one that is not, however long its notation is: a sign
is left on zero only. -/
theorem Denotes.nonNegative_float? {f : Float} (h : Denotes (.number literal) x) (hx : 0 ≤ x)
    (hf : Literal.float? literal = some f) : Binary64.NonNegative f := by
  obtain ⟨p, hp, hj, rfl⟩ := h
  rw [Json.number.inj hj, Literal.float?_eq hp, Binary64.ofDigits?_eq] at hf
  obtain ⟨m, e, hdecode, hzero⟩ := Binary64.decode_of_ofDecimal? hf
  rw [← not_lt, NumberParts.value_neg_iff, not_and, not_not] at hx
  refine ⟨p.negative, m, e, hdecode, fun hnegative => hzero ?_⟩
  rw [hx hnegative, Binary64.asRead_zero]

/-! ### Members -/

theorem mem_of_lookup_eq_some {name : Text} {members : List (Text × Json)} {v : Json}
    (h : lookup name members = some v) : (name, v) ∈ members := by
  obtain ⟨⟨key, w⟩, hlast, rfl⟩ := Option.map_eq_some_iff.1 h
  obtain ⟨hmem, hkey⟩ := List.mem_filter.1 (List.mem_of_getLast? hlast)
  rwa [← eq_of_beq hkey]

/-- At most one member has the name, and none a name that differs from it in letter case only. -/
structure Once (name : Text) (members : List (Text × Json)) : Prop where
  spelled : ∀ key v, (key, v) ∈ members → key.equalFold name = true → key = name
  single : (members.map Prod.fst).count name ≤ 1

instance (name : Text) (members : List (Text × Json)) : Decidable (Once name members) :=
  decidable_of_iff
    ((∀ m ∈ members, m.1.equalFold name = true → m.1 = name) ∧
      (members.map Prod.fst).count name ≤ 1)
    ⟨fun h => ⟨fun key v hv => h.1 (key, v) hv, h.2⟩,
      fun h => ⟨fun m hm => h.spelled m.1 m.2 hm, h.single⟩⟩

section Once

variable {name : Text} {members : List (Text × Json)} (h : Once name members)
include h

theorem Once.filter_eq : (members.filter fun (key, _) => key == name) =
    (lookup name members).toList.map (name, ·) := by
  have hsingle := h.single
  rw [List.count, List.countP_map, List.countP_eq_length_filter] at hsingle
  change (members.filter fun (key, _) => key == name).length ≤ 1 at hsingle
  have hkey : ∀ m ∈ members.filter fun (key, _) => key == name, m.1 = name := by
    intro m hm
    exact eq_of_beq (List.mem_filter.1 hm).2
  unfold lookup
  generalize (members.filter fun (key, _) => key == name) = found at hsingle hkey ⊢
  match found with
  | [] => rfl
  | [(key, v)] =>
    obtain rfl : key = name := hkey (key, v) (List.mem_singleton_self _)
    rfl
  | _ :: _ :: _ => simp at hsingle

theorem Once.lookup_eq_some_iff {v : Json} : lookup name members = some v ↔ (name, v) ∈ members := by
  have hmem : (name, v) ∈ members ↔ (name, v) ∈ members.filter fun (key, _) => key == name := by
    simp
  rw [hmem, h.filter_eq]
  simp

theorem Once.matching_eq : matching name members = (lookup name members).toList := by
  have hfilter : (members.filter fun (key, _) => key.equalFold name) =
      members.filter fun (key, _) => key == name := by
    refine List.filter_congr fun m hm => ?_
    rw [Bool.eq_iff_iff, beq_iff_eq]
    constructor
    · exact h.spelled m.1 m.2 hm
    · rintro rfl
      exact beq_self_eq_true _
  rw [matching, hfilter, h.filter_eq, List.map_map]
  exact List.map_id _

theorem Once.eq_of_mem {v w : Json} (hv : (name, v) ∈ members) (hw : (name, w) ∈ members) :
    v = w := by
  rw [← h.lookup_eq_some_iff] at hv hw
  exact Option.some.inj (hv.symm.trans hw)

theorem Once.lookup_eq_none_iff : lookup name members = none ↔ ∀ v, (name, v) ∉ members := by
  simp only [Option.eq_none_iff_forall_ne_some, ne_eq, h.lookup_eq_some_iff]

/-- A field is read from its member, and keeps what it holds without one. -/
theorem Once.field_eq_some_iff {α : Type} {decode : α → Json → Option α} {start a : α} :
    field name decode start members = some a ↔
      ((∀ v, (name, v) ∉ members) ∧ a = start) ∨
        ∃ v, (name, v) ∈ members ∧ decode start v = some a := by
  rw [field, h.matching_eq, ← h.lookup_eq_none_iff]
  simp only [← h.lookup_eq_some_iff]
  cases lookup name members with
  | none => simp [decodeAll, eq_comm]
  | some v => simp [decodeAll]

theorem Once.rawField_eq (start : Text) :
    rawField name start members = ((lookup name members).map source).getD start := by
  rw [rawField, h.matching_eq]
  cases lookup name members <;> rfl

end Once

end Json

end MetricHistory
