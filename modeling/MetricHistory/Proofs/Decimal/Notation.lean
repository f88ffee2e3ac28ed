import MetricHistory.Decimal.Layout
import MetricHistory.Proofs.Decimal.Shortest
import MetricHistory.Proofs.Json.Literal

/-!
# Number texts are read back

* `Text.nat?_of_digits` : a run of digits is read as the number it spells (`Text.numeral`);
* `Decimal.plain_spells` and `Decimal.scientific_spells` : both notations of a decimal are number
  literals that stand for it (`Literal.NumberParts.Spells`);
* `Literal.float?_render` : a finite double is read back from its text.
-/

namespace MetricHistory

open Literal (Digits IsWholePart NumberParts)

namespace Text

/-- The number that decimal digits spell. -/
def numeral (ds : Text) : ℕ := ds.foldl (fun n b => n * 10 + (b.toNat - 48)) 0

theorem numeral_concat (ds : Text) (b : UInt8) :
    numeral (ds ++ [b]) = numeral ds * 10 + (b.toNat - 48) :=
  List.foldl_append

theorem foldl_numeral (ds : Text) (n : ℕ) :
    ds.foldl (fun n b => n * 10 + (b.toNat - 48)) n = n * 10 ^ ds.length + numeral ds := by
  induction ds using List.reverseRecOn with
  | nil => simp [numeral]
  | append_singleton ds b ih =>
    rw [List.foldl_append, ih, numeral_concat, List.length_append]
    simp only [List.foldl_cons, List.foldl_nil, List.length_cons, List.length_nil]
    ring

theorem numeral_append (a b : Text) : numeral (a ++ b) = numeral a * 10 ^ b.length + numeral b := by
  rw [numeral, List.foldl_append, ← numeral, foldl_numeral]

theorem numeral_zeros (k : ℕ) : numeral (List.replicate k (byte '0')) = 0 := by
  induction k with
  | zero => rfl
  | succ k ih =>
    rw [List.replicate_succ', numeral_append, ih]
    decide

theorem numeral_lt {ds : Text} (h : Digits ds) : numeral ds < 10 ^ ds.length := by
  induction ds using List.reverseRecOn with
  | nil => simp [numeral]
  | append_singleton ds b ih =>
    have hb := h b (by simp)
    simp only [isDigit, Bool.and_eq_true, decide_eq_true_eq] at hb
    have hle : b.toNat ≤ 57 := UInt8.le_iff_toNat_le.1 hb.2
    have hds := ih fun c hc => h c (by simp [hc])
    have hlast : numeral [b] = b.toNat - 48 := by simp [numeral]
    rw [numeral_append, List.length_append, hlast, List.length_singleton, pow_one, pow_succ]
    omega

theorem digitValue?_of_isDigit {b : UInt8} (h : isDigit b = true) :
    digitValue? 10 b = some (b.toNat - 48) := by
  have hle : b.toNat ≤ 57 := by
    simp only [isDigit, Bool.and_eq_true, decide_eq_true_eq] at h
    exact UInt8.le_iff_toNat_le.1 h.2
  have hlt : b.toNat - 48 < 10 := by omega
  simp only [digitValue?, h, if_true, hlt]

/-- A run of digits is read as the number it spells. -/
theorem nat?_of_digits {ds : Text} (hd : Digits ds) (hne : ds ≠ []) :
    nat? ds = some (numeral ds) := by
  have hrun : ∀ (ds : Text) (n : ℕ), Digits ds →
      ds.foldl (fun acc b => do return (← acc) * 10 + (← digitValue? 10 b)) (some n) =
        some (ds.foldl (fun n b => n * 10 + (b.toNat - 48)) n) := by
    intro ds
    induction ds with
    | nil => intro n _; rfl
    | cons b ds ih =>
      intro n hd
      have hb := digitValue?_of_isDigit (hd b List.mem_cons_self)
      simp only [List.foldl_cons, hb, Option.pure_def, Option.bind_eq_bind, Option.bind_some]
      exact ih _ fun c hc => hd c (List.mem_cons_of_mem b hc)
  have he : ds.isEmpty = false := by simpa using hne
  rw [nat?, digits?, he]
  exact hrun ds 0 hd

theorem ofNat_of_lt {n : ℕ} (h : n < 10) : ofNat n = [byte n.digitChar] := by
  rw [ofNat, Nat.toDigits_of_lt_base h]
  rfl

theorem ofNat_of_le {n : ℕ} (h : 10 ≤ n) : ofNat n = ofNat (n / 10) ++ ofNat (n % 10) := by
  rw [ofNat, Nat.toDigits_of_base_le (by norm_num) h, List.map_append,
    ofNat_of_lt (Nat.mod_lt n (by norm_num))]
  rfl

theorem ofNat_ne_nil (n : ℕ) : ofNat n ≠ [] := by
  simp [ofNat, Nat.toDigits_ne_nil]

theorem digitChar_facts {n : ℕ} (h : n < 10) :
    (byte n.digitChar).toNat = 48 + n ∧ isDigit (byte n.digitChar) = true := by
  have hall : ∀ n < 10, (byte n.digitChar).toNat = 48 + n ∧ isDigit (byte n.digitChar) = true := by
    decide
  exact hall n h

theorem digits_ofNat (n : ℕ) : Digits (ofNat n) := by
  induction n using Nat.strongRecOn with
  | ind n ih =>
    rcases Nat.lt_or_ge n 10 with h | h
    · rw [ofNat_of_lt h]
      intro b hb
      rw [List.mem_singleton.1 hb]
      exact (digitChar_facts h).2
    · rw [ofNat_of_le h]
      intro b hb
      rcases List.mem_append.1 hb with hb | hb
      · exact ih (n / 10) (by omega) b hb
      · exact ih (n % 10) (by omega) b hb

theorem numeral_ofNat (n : ℕ) : numeral (ofNat n) = n := by
  induction n using Nat.strongRecOn with
  | ind n ih =>
    rcases Nat.lt_or_ge n 10 with h | h
    · rw [ofNat_of_lt h, numeral]
      simp [(digitChar_facts h).1]
    · have hlast : (ofNat (n % 10)).length = 1 := by
        rw [ofNat_of_lt (Nat.mod_lt n (by norm_num))]
        rfl
      rw [ofNat_of_le h, numeral_append, ih (n / 10) (by omega), ih (n % 10) (by omega), hlast]
      omega

theorem exists_ofNat_eq_cons {n : ℕ} (h : 0 < n) : ∃ b ds, ofNat n = b :: ds ∧ b ≠ byte '0' := by
  induction n using Nat.strongRecOn with
  | ind n ih =>
    rcases Nat.lt_or_ge n 10 with hlt | hge
    · refine ⟨_, [], ofNat_of_lt hlt, fun hb => ?_⟩
      have := (digitChar_facts hlt).1
      rw [hb] at this
      change 48 = 48 + n at this
      omega
    · obtain ⟨b, ds, hds, hb⟩ := ih (n / 10) (by omega) (by omega)
      exact ⟨b, ds ++ ofNat (n % 10), by rw [ofNat_of_le hge, hds]; rfl, hb⟩

theorem digits_zeros (k : ℕ) : Digits (List.replicate k (byte '0')) := by
  intro b hb
  rw [List.eq_of_mem_replicate hb]
  decide

end Text

namespace Binary64

theorem exponentSize_eq {ds : Text} (h : Text.numeral ds < 100000) :
    exponentSize ds = Text.numeral ds := by
  induction ds using List.reverseRecOn with
  | nil => rfl
  | append_singleton ds b ih =>
    have hsize : exponentSize (ds ++ [b]) =
        if exponentSize ds < 10000 then exponentSize ds * 10 + (b.toNat - 48)
        else exponentSize ds := List.foldl_append
    rw [Text.numeral_concat] at h ⊢
    rw [hsize, ih (by omega), if_pos (by omega)]

/-- With a sixth digit the rest is cut. -/
example : exponentSize "100000" = 10000 := by decide

theorem asRead_eq {behind c : ℕ} (h : (Nat.toDigits 10 c).length ≤ digitLimit + behind) (k : ℤ) :
    asRead behind c k = (c, k) := by
  rw [asRead]
  exact if_pos (by simp [h])

/-- With more digits before the point its place is lost, here that of a one. -/
example : asRead 0 (10 ^ 1000) (-1000) = (10 ^ 799, -1000) := by decide +kernel

theorem asRead_zero (behind : ℕ) (k : ℤ) : asRead behind 0 k = (0, k) :=
  asRead_eq (Nat.le_add_right_of_le (by decide)) k

theorem ofDigits?_eq (negative : Bool) (behind c : ℕ) (k : ℤ) :
    ofDigits? negative behind c k =
      ofDecimal? negative (asRead behind c k).1 (asRead behind c k).2 :=
  rfl

end Binary64

namespace Literal

namespace NumberParts

/-- The digits of a literal without its point. -/
def coefficient (p : NumberParts) : ℕ := Text.numeral (p.whole ++ p.fraction)

/-- The power of ten that the last digit of a literal counts for. -/
def power (p : NumberParts) : ℤ := p.powerFor (Text.numeral p.exponent)

/-- The literal is unsigned, and spells a decimal in a given way. -/
structure Spells (p : NumberParts) (d : Decimal) (text : Text) : Prop where
  valid : p.Valid
  unsigned : p.negative = false
  spelling : p.spelling = text
  value : Decimal.value ⟨p.coefficient, p.power⟩ = d.value
  exponent_le : Text.numeral p.exponent ≤ d.magnitude.natAbs
  whole_le : p.whole.length ≤ d.magnitude.natAbs + 1

theorem Valid.digits {p : NumberParts} (h : p.Valid) : Digits (p.whole ++ p.fraction) := by
  intro b hb
  rcases List.mem_append.1 hb with hb | hb
  · exact h.whole.digits b hb
  · exact h.fraction b hb

theorem Valid.length_coefficient_le {p : NumberParts} (h : p.Valid) :
    (Nat.toDigits 10 p.coefficient).length ≤ p.whole.length + p.fraction.length := by
  obtain ⟨b, ds, hw⟩ := h.whole.exists_cons
  have hpos : 0 < p.whole.length + p.fraction.length := by
    rw [hw, List.length_cons]
    omega
  rw [Nat.length_toDigits_le_iff (by norm_num) hpos, ← List.length_append]
  exact Text.numeral_lt h.digits

end NumberParts

theorem decimalWith?_spelling {p : NumberParts} (h : p.Valid) (size : Text → ℕ) :
    decimalWith? size p.spelling =
      some (p.negative, p.coefficient, p.powerFor (size p.exponent)) := by
  have hparts := numberParts?_spelling h stops_nil
  rw [List.append_nil] at hparts
  obtain ⟨b, ds, hw⟩ := h.whole.exists_cons
  have hnat : Text.nat? (p.whole ++ p.fraction) = some p.coefficient :=
    Text.nat?_of_digits h.digits (by simp [hw])
  rw [decimalWith?, hparts]
  simp only [Option.bind_eq_bind, Option.bind_some, List.isEmpty_nil, Bool.not_true,
    Bool.false_eq_true, if_false, hnat]

theorem decimal?_spelling {p : NumberParts} (h : p.Valid) :
    decimal? p.spelling = some (p.negative, p.coefficient, p.power) := by
  have hsize : (Text.nat? p.exponent).getD 0 = Text.numeral p.exponent := by
    rcases h.exponent with ⟨-, he⟩ | ⟨-, hne, hd⟩
    · rw [he]
      rfl
    · rw [Text.nat?_of_digits hd hne]
      rfl
  rw [decimal?, decimalWith?_spelling h, hsize]
  rfl

theorem float?_eq {p : NumberParts} (h : p.Valid) :
    float? p.spelling = Binary64.ofDigits? p.negative p.fraction.length p.coefficient
      (p.powerFor (Binary64.exponentSize p.exponent)) := by
  have hparts := numberParts?_spelling h stops_nil
  rw [List.append_nil] at hparts
  rw [float?, hparts, decimalWith?_spelling h]
  rfl

theorem float?_spelling {p : NumberParts} (h : p.Valid) (hsize : Text.numeral p.exponent < 100000)
    (hwhole : p.whole.length ≤ Binary64.digitLimit) :
    float? p.spelling = Binary64.ofDecimal? p.negative p.coefficient p.power := by
  have hplaces := h.length_coefficient_le.trans (Nat.add_le_add_right hwhole _)
  rw [float?_eq h, Binary64.exponentSize_eq hsize, Binary64.ofDigits?_eq,
    Binary64.asRead_eq hplaces]
  rfl

theorem float?_signed {p : NumberParts} {d : Decimal} {text : Text} (h : p.Spells d text)
    (hd : d.magnitude.natAbs < Binary64.digitLimit) (negative : Bool) :
    float? (if negative then "-" ++ text else text) =
      Binary64.ofDecimal? negative p.coefficient p.power := by
  have hs : ({ p with negative := negative } : NumberParts).spelling =
      if negative then "-" ++ text else text := by
    rw [← h.spelling, spelling_eq, spelling_eq, h.unsigned]
    cases negative <;> rfl
  have hsize : Text.numeral p.exponent < 100000 :=
    (h.exponent_le.trans_lt hd).trans (by decide)
  rw [← hs, float?_spelling (p := { p with negative := negative })
    ⟨h.valid.whole, h.valid.fraction, h.valid.exponent⟩ hsize (h.whole_le.trans hd)]
  rfl

end Literal

namespace Decimal

variable {d : Decimal}

theorem value_shift (c : ℕ) (k : ℤ) (j : ℕ) : value ⟨c * 10 ^ j, k - j⟩ = value ⟨c, k⟩ := by
  rw [value, value, zpow_sub₀ (by norm_num), zpow_natCast]
  push_cast
  field_simp

theorem isWholePart_of_cons {b : UInt8} {ds : Text} (hb : b ≠ Text.byte '0')
    (hd : Digits (b :: ds)) : IsWholePart (b :: ds) :=
  .inr ⟨b, ds, rfl, hb, hd⟩

theorem spells_of_digits {w f text : Text} (hw : IsWholePart w) (hf : Digits f)
    (htext : w ++ Literal.fractionText f = text)
    (hv : value ⟨Text.numeral (w ++ f), -f.length⟩ = d.value)
    (hlen : w.length ≤ d.magnitude.natAbs + 1) :
    ∃ p : NumberParts, p.Spells d text := by
  refine ⟨⟨false, w, f, [], []⟩, ⟨⟨hw, hf, .inl ⟨rfl, rfl⟩⟩, rfl, ?_, ?_, Nat.zero_le _, hlen⟩⟩
  · rw [Literal.spelling_eq, ← htext]
    simp
  · rw [← hv, NumberParts.coefficient, NumberParts.power, NumberParts.powerFor]
    simp [Text.numeral]

theorem digits_digits (d : Decimal) : Digits d.digits := Text.digits_ofNat _

theorem numeral_digits (d : Decimal) : Text.numeral d.digits = d.coefficient :=
  Text.numeral_ofNat _

theorem exists_digits_eq_cons (hc : 0 < d.coefficient) :
    ∃ b ds, d.digits = b :: ds ∧ b ≠ Text.byte '0' :=
  Text.exists_ofNat_eq_cons hc

theorem spells_filled (hc : 0 < d.coefficient) (he : 0 ≤ d.exponent) : ∃ p : NumberParts,
    p.Spells d (d.digits ++ List.replicate d.exponent.toNat (Text.byte '0')) := by
  obtain ⟨b, ds, hds, hb⟩ := exists_digits_eq_cons hc
  have hwhole : IsWholePart (d.digits ++ List.replicate d.exponent.toNat (Text.byte '0')) := by
    have hall : Digits (d.digits ++ List.replicate d.exponent.toNat (Text.byte '0')) := by
      intro c hc
      rcases List.mem_append.1 hc with hc | hc
      · exact digits_digits d c hc
      · exact Text.digits_zeros _ c hc
    rw [hds] at hall ⊢
    exact isWholePart_of_cons hb hall
  have hv := value_shift d.coefficient d.exponent d.exponent.toNat
  have hp : d.exponent - (d.exponent.toNat : ℤ) = 0 := by omega
  rw [hp] at hv
  refine spells_of_digits (f := []) hwhole (by simp [Digits]) (List.append_nil _) ?_ ?_
  · rw [List.append_nil, Text.numeral_append, Text.numeral_zeros, numeral_digits,
      List.length_replicate]
    simpa using hv
  · rw [List.length_append, List.length_replicate, magnitude]
    omega

section Places

variable {places : ℕ} (hexp : d.exponent = -(places : ℤ))
include hexp

theorem spells_split (hc : 0 < d.coefficient) (hpos : 0 < places) (hlt : places < d.digits.length) :
    ∃ p : NumberParts, p.Spells d (d.digits.take (d.digits.length - places) ++ "." ++
      d.digits.drop (d.digits.length - places)) := by
  obtain ⟨b, ds, hds, hb⟩ := exists_digits_eq_cons hc
  have hsplit := List.take_append_drop (d.digits.length - places) d.digits
  have hlen : (d.digits.drop (d.digits.length - places)).length = places := by
    rw [List.length_drop]
    omega
  have hwhole : IsWholePart (d.digits.take (d.digits.length - places)) := by
    have hall : Digits (d.digits.take (d.digits.length - places)) :=
      fun c hc => digits_digits d c (List.mem_of_mem_take hc)
    obtain ⟨k, hk⟩ : ∃ k, d.digits.length - places = k + 1 :=
      ⟨d.digits.length - places - 1, by omega⟩
    rw [hk, hds, List.take_succ_cons] at hall ⊢
    exact isWholePart_of_cons hb hall
  have hne : (d.digits.drop (d.digits.length - places)).isEmpty = false := by
    rw [List.isEmpty_eq_false_iff, ← List.length_pos_iff, hlen]
    exact hpos
  refine spells_of_digits hwhole (fun c hc => digits_digits d c (List.mem_of_mem_drop hc)) ?_
    (by rw [hsplit, numeral_digits, hlen, ← hexp]) ?_
  · rw [Literal.fractionText, hne, List.append_assoc]
    rfl
  · rw [List.length_take, magnitude, hexp]
    omega

theorem spells_shifted (hc : 0 < d.coefficient) (hle : d.digits.length ≤ places) :
    ∃ p : NumberParts, p.Spells d
      ("0." ++ List.replicate (places - d.digits.length) (Text.byte '0') ++ d.digits) := by
  obtain ⟨b, ds, hds, -⟩ := exists_digits_eq_cons hc
  have hlen : (List.replicate (places - d.digits.length) (Text.byte '0') ++ d.digits).length =
      places := by
    rw [List.length_append, List.length_replicate]
    omega
  have hfraction : Digits (List.replicate (places - d.digits.length) (Text.byte '0') ++
      d.digits) := by
    intro c hc
    rcases List.mem_append.1 hc with hc | hc
    · exact Text.digits_zeros _ c hc
    · exact digits_digits d c hc
  have hzero : Text.numeral [Text.byte '0'] = 0 := rfl
  have hne : (List.replicate (places - d.digits.length) (Text.byte '0') ++ d.digits).isEmpty =
      false := by
    rw [hds]
    simp
  refine spells_of_digits (.inl rfl) hfraction ?_ ?_ (Nat.le_add_left 1 _)
  · rw [Literal.fractionText, hne, List.append_assoc]
    rfl
  · rw [Text.numeral_append, hlen, Text.numeral_append, Text.numeral_zeros, numeral_digits, hzero,
      Nat.zero_mul, Nat.zero_mul, Nat.zero_add, Nat.zero_add, ← hexp]

end Places

/-- **Positional notation spells the decimal.** -/
theorem plain_spells (hc : 0 < d.coefficient) : ∃ p : NumberParts, p.Spells d d.plain := by
  unfold plain
  simp only
  split
  · rename_i he
    rw [if_neg hc.ne']
    exact spells_filled hc he
  · rename_i he
    have hexp : d.exponent = -((-d.exponent).toNat : ℤ) := by omega
    split
    · rename_i hlt
      exact spells_split hexp hc (by omega) hlt
    · rename_i hge
      exact spells_shifted hexp hc (Nat.le_of_not_lt hge)

theorem exists_mark (k : ℤ) : ∃ mark : Text,
    "e" ++ (if k < 0 then Text.ofString "-" else "+") = mark ∧ mark ∈ Literal.marks ∧
      (if mark.contains (Text.byte '-') then -(k.natAbs : ℤ) else k.natAbs) = k := by
  by_cases hneg : k < 0
  · refine ⟨"e-", ?_, by decide, ?_⟩
    · rw [if_pos hneg]
      rfl
    · rw [if_pos (by decide)]
      omega
  · refine ⟨"e+", ?_, by decide, ?_⟩
    · rw [if_neg hneg]
      rfl
    · rw [if_neg (by decide)]
      omega

/-- **Scientific notation spells the decimal.** -/
theorem scientific_spells (width : ℕ) (hc : 0 < d.coefficient) :
    ∃ p : NumberParts, p.Spells d (d.scientific width) := by
  obtain ⟨b, ds, hds, hb⟩ := exists_digits_eq_cons hc
  have hdigits : Digits (b :: ds) := hds ▸ digits_digits d
  have hone : IsWholePart [b] := by
    refine isWholePart_of_cons hb fun c hc => hdigits c ?_
    rw [List.mem_singleton.1 hc]
    exact List.mem_cons_self
  have htail : Digits ds := fun c hc => hdigits c (List.mem_cons_of_mem b hc)
  have hmag : d.magnitude = d.exponent + ds.length := by
    rw [magnitude, hds, List.length_cons]
    push_cast
    ring
  -- the exponent is filled up with zeros, which spells the same number
  have hexp : Digits (Text.ofNatPadded width d.magnitude.natAbs) := by
    intro c hc
    rcases List.mem_append.1 hc with hc | hc
    · exact Text.digits_zeros _ c hc
    · exact Text.digits_ofNat _ c hc
  have hexpne : Text.ofNatPadded width d.magnitude.natAbs ≠ [] :=
    List.append_ne_nil_of_right_ne_nil _ (Text.ofNat_ne_nil _)
  have hexpnum : Text.numeral (Text.ofNatPadded width d.magnitude.natAbs) = d.magnitude.natAbs := by
    rw [Text.ofNatPadded, Text.numeral_append, Text.numeral_zeros, Text.numeral_ofNat, Nat.zero_mul,
      Nat.zero_add]
  obtain ⟨mark, hmark, hmarks, hsigned⟩ := exists_mark d.magnitude
  refine ⟨⟨false, [b], ds, mark, Text.ofNatPadded width d.magnitude.natAbs⟩,
    ⟨⟨hone, htail, .inr ⟨hmarks, hexpne, hexp⟩⟩, rfl, ?_, ?_, hexpnum.le, Nat.le_add_left 1 _⟩⟩
  · have hdrop : d.digits.drop 1 = ds := by rw [hds]; rfl
    have htake : d.digits.take 1 = [b] := by rw [hds]; rfl
    rw [Literal.spelling_eq]
    simp only [scientific, hc.ne', if_false, hdrop, htake, Literal.fractionText, Bool.false_eq_true,
      ← hmark, List.append_assoc, List.nil_append]
  · have hcoef : NumberParts.coefficient ⟨false, [b], ds, mark,
        Text.ofNatPadded width d.magnitude.natAbs⟩ = d.coefficient := by
      rw [NumberParts.coefficient, ← numeral_digits, hds]
      rfl
    have hpower : NumberParts.power ⟨false, [b], ds, mark,
        Text.ofNatPadded width d.magnitude.natAbs⟩ = d.exponent := by
      rw [NumberParts.power, NumberParts.powerFor]
      simp only
      rw [hexpnum, hsigned, hmag]
      ring
    rw [hcoef, hpower]

theorem value_bounds {c : ℕ} (hc : 0 < c) (k : ℤ) :
    (10 : ℚ) ^ (((Nat.toDigits 10 c).length : ℤ) - 1 + k) ≤ value ⟨c, k⟩ ∧
      value ⟨c, k⟩ < (10 : ℚ) ^ (((Nat.toDigits 10 c).length : ℤ) + k) := by
  generalize hL : (Nat.toDigits 10 c).length = L
  have hLpos : 0 < L := by
    rw [← hL]
    exact List.length_pos_iff.2 Nat.toDigits_ne_nil
  have hcL : c < 10 ^ L := (Nat.length_toDigits_le_iff (by norm_num) hLpos).1 (by omega)
  have hcL' : 10 ^ (L - 1) ≤ c := by
    rcases Nat.lt_or_ge 1 L with h1 | h1
    · by_contra hlt
      have := (Nat.length_toDigits_le_iff (by norm_num : 1 < 10) (by omega : 0 < L - 1)).2
        (Nat.lt_of_not_le hlt)
      omega
    · rw [Nat.sub_eq_zero_of_le h1]
      exact hc
  have hten : (0 : ℚ) < (10 : ℚ) ^ k := by positivity
  constructor
  · calc (10 : ℚ) ^ ((L : ℤ) - 1 + k) = ((10 ^ (L - 1) : ℕ) : ℚ) * (10 : ℚ) ^ k := by
          rw [zpow_add₀ (by norm_num), ← Nat.cast_pred hLpos, zpow_natCast]
          push_cast
          rfl
      _ ≤ c * (10 : ℚ) ^ k := by gcongr
  · calc c * (10 : ℚ) ^ k < ((10 ^ L : ℕ) : ℚ) * (10 : ℚ) ^ k := by gcongr
      _ = (10 : ℚ) ^ ((L : ℤ) + k) := by
        rw [zpow_add₀ (by norm_num), zpow_natCast]
        push_cast
        rfl

end Decimal

namespace Binary64

section RoundsTo

variable {m c : ℕ} {e k : ℤ} (h : RoundsTo m e (Decimal.value ⟨c, k⟩)) (hm : 0 < m)
include h hm

theorem RoundsTo.coefficient_pos : 0 < c := by
  refine Nat.pos_of_ne_zero fun hc => (h.pos hm).ne' ?_
  exact Decimal.value_eq_zero.2 hc

/-- A decimal that rounds to a double has its first digit within 400 places of the point. -/
theorem RoundsTo.places_bounds (hf : Fits m e) :
    -400 < (((Nat.toDigits 10 c).length : ℕ) : ℤ) + k ∧
      (((Nat.toDigits 10 c).length : ℕ) : ℤ) + k ≤ 400 := by
  have hlow : (2 : ℚ) ^ (-1075 : ℤ) ≤ c * (10 : ℚ) ^ k := h.smallest_le hf hm
  have hhigh : c * (10 : ℚ) ^ k < (2 : ℚ) ^ (1025 : ℤ) := h.lt_largest hf
  obtain ⟨hbelow, habove⟩ := Decimal.value_bounds (h.coefficient_pos hm) k
  generalize (Nat.toDigits 10 c).length = L at hbelow habove ⊢
  have hpowers : (2 : ℚ) ^ (1200 : ℤ) ≤ (10 : ℚ) ^ (400 : ℤ) := by
    rw [(by norm_num : (1200 : ℤ) = 3 * 400), zpow_mul]
    exact zpow_le_zpow_left₀ (by norm_num) (by positivity) (by norm_num)
  have htop : (L - 1 : ℤ) + k < 400 := by
    rw [← zpow_lt_zpow_iff_right₀ (by norm_num : (1 : ℚ) < 10)]
    calc (10 : ℚ) ^ ((L - 1 : ℤ) + k) ≤ c * (10 : ℚ) ^ k := hbelow
      _ < (2 : ℚ) ^ (1025 : ℤ) := hhigh
      _ ≤ (2 : ℚ) ^ (1200 : ℤ) := zpow_le_zpow_right₀ (by norm_num) (by norm_num)
      _ ≤ (10 : ℚ) ^ (400 : ℤ) := hpowers
  have hbottom : -400 < (L : ℤ) + k := by
    rw [← zpow_lt_zpow_iff_right₀ (by norm_num : (1 : ℚ) < 10)]
    calc (10 : ℚ) ^ (-400 : ℤ) = ((10 : ℚ) ^ (400 : ℤ))⁻¹ := zpow_neg _ _
      _ ≤ ((2 : ℚ) ^ (1200 : ℤ))⁻¹ := by gcongr
      _ = (2 : ℚ) ^ (-1200 : ℤ) := (zpow_neg _ _).symm
      _ ≤ (2 : ℚ) ^ (-1075 : ℤ) := zpow_le_zpow_right₀ (by norm_num) (by norm_num)
      _ ≤ c * (10 : ℚ) ^ k := hlow
      _ < (10 : ℚ) ^ ((L : ℤ) + k) := habove
  omega

end RoundsTo

/-- A decimal that rounds to a double is read as it. -/
theorem ofDecimal?_of_roundsTo {x : Float} {negative : Bool} {m c : ℕ} {e k : ℤ}
    (hx : decode x = .finite negative m e) (hm : 0 < m)
    (h : RoundsTo m e (Decimal.value ⟨c, k⟩)) : ofDecimal? negative c k = some x := by
  obtain ⟨hf, -⟩ := fits_of_decode hx
  have hc := h.coefficient_pos hm
  obtain ⟨hbottom, htop⟩ := h.places_bounds hm hf
  rw [← Decimal.scaled_value] at h
  rw [ofDecimal?]
  simp only
  rw [if_neg hc.ne', if_neg (by omega), if_neg (by omega)]
  exact ofRatio?_of_roundsTo hx hm (scaled_pos c (-k) (by norm_num) one_pos) h

end Binary64

/-- The magnitude of a double is far from where digits or exponents are cut. -/
theorem Decimal.magnitude_shortest_lt {m : ℕ} {e : ℤ} (hf : Binary64.Fits m e) :
    (Decimal.shortest m e).magnitude.natAbs < Binary64.digitLimit := by
  rcases Nat.eq_zero_or_pos m with rfl | hm
  · rw [show Decimal.shortest 0 e = ⟨0, 0⟩ by simp [Decimal.shortest]]
    decide
  · have hrounds := Decimal.shortest_roundsTo hm hf
    generalize Decimal.shortest m e = d at hrounds ⊢
    obtain ⟨c, k⟩ := d
    obtain ⟨hbottom, htop⟩ := hrounds.places_bounds hm hf
    have hmagnitude : Decimal.magnitude ⟨c, k⟩ = k + (Nat.toDigits 10 c).length - 1 := by
      rw [Decimal.magnitude, Decimal.digits, Text.ofNat, List.length_map]
    rw [hmagnitude, Binary64.digitLimit]
    omega

namespace Literal

/-- The text of a finite double spells its shortest decimal. -/
theorem render_spells (s : NumberStyle) {x : Float} {negative : Bool} {m : ℕ} {e : ℤ}
    (hx : Binary64.decode x = .finite negative m e)
    (hc : m ≠ 0 → 0 < (Decimal.shortest m e).coefficient) :
    ∃ (p : NumberParts) (text : Text), p.Spells (Decimal.shortest m e) text ∧
      s.render x = if negative then "-" ++ text else text := by
  by_cases hm : m = 0
  · subst hm
    obtain ⟨p, hp⟩ := Decimal.spells_of_digits (d := ⟨0, 0⟩) (w := "0") (f := []) (.inl rfl)
      (by simp [Digits]) (List.append_nil _) (by rw [List.append_nil]; simp [Decimal.value]; rfl)
      (Nat.le_add_left 1 _)
    refine ⟨p, "0", hp, ?_⟩
    simp only [NumberStyle.render, hx]
    rfl
  · obtain ⟨p, hp⟩ : ∃ p : NumberParts, p.Spells (Decimal.shortest m e)
        (if m ≠ 0 ∧ ((Decimal.shortest m e).magnitude < s.least ∨
            s.limit ≤ (Decimal.shortest m e).magnitude) then
          (Decimal.shortest m e).scientific s.exponentWidth
        else (Decimal.shortest m e).plain) := by
      split
      · exact Decimal.scientific_spells s.exponentWidth (hc hm)
      · exact Decimal.plain_spells (hc hm)
    refine ⟨p, _, hp, ?_⟩
    simp only [NumberStyle.render, hx]

/-- **A finite double is read back from its text.** -/
theorem float?_render (s : NumberStyle) {x : Float} {negative : Bool} {m : ℕ} {e : ℤ}
    (hx : Binary64.decode x = .finite negative m e) : float? (s.render x) = some x := by
  obtain ⟨hf, -⟩ := Binary64.fits_of_decode hx
  have hrounds : m ≠ 0 → Binary64.RoundsTo m e (Decimal.shortest m e).value :=
    fun hm => Decimal.shortest_roundsTo (Nat.pos_of_ne_zero hm) hf
  have hc : m ≠ 0 → 0 < (Decimal.shortest m e).coefficient :=
    fun hm => (hrounds hm).coefficient_pos (Nat.pos_of_ne_zero hm)
  obtain ⟨p, text, hp, htext⟩ := render_spells s hx hc
  rw [htext, float?_signed hp (Decimal.magnitude_shortest_lt hf)]
  by_cases hm : m = 0
  · subst hm
    have hzero : p.coefficient = 0 := by
      rw [← Decimal.value_eq_zero (d := ⟨p.coefficient, p.power⟩), hp.value]
      simp [Decimal.shortest, Decimal.value]
    rw [hzero, Binary64.ofDecimal?]
    simp only [if_true]
    exact Binary64.ofRatio?_zero hx
  · exact Binary64.ofDecimal?_of_roundsTo hx (Nat.pos_of_ne_zero hm) (hp.value ▸ hrounds hm)

end Literal

end MetricHistory
