import MetricHistory.Proofs.Decimal.Rounding

/-!
# Integers as doubles

An integer below `2 ^ 53` is a double, and the difference of two of them is computed without an
error if it is below `2 ^ 53`, too.

* `Binary64.Unpacks` : how a double that is an integer is put together;
* `Binary64.unpacks_ofInt` : this is how `Binary64.ofInt` puts it together;
* `Binary64.ofInt_sub` : **the difference of two doubles that are integers is the difference of the
  integers.**
-/

namespace MetricHistory

namespace Binary64

open Float.Model (Format UnpackedFloat totalExponent)
open Float.Model.UnpackedFloat (Sign ExtendedMantissa Accuracy shiftToTargetExponent shiftToExponent
  decreaseExponent roundWithAccuracy)

/-- The sign of a number that is not zero. -/
def signOf (negative : Bool) : Sign := if negative then .negative else .positive

/-- The places by which a number is shifted to fill the mantissa. -/
def fill (n : ℕ) : ℕ := 52 - n.log2

/-- The double in parts is the integer `i`. -/
def Unpacks (u : UnpackedFloat) (i : ℤ) : Prop :=
  (i = 0 ∧ u = .zero .positive) ∨
    (i ≠ 0 ∧ ∃ h,
      u = .finite (signOf (i < 0)) (i.natAbs * 2 ^ fill i.natAbs) (-(fill i.natAbs : ℤ)) h)

theorem Unpacks.unique {u v : UnpackedFloat} {i : ℤ} (hu : Unpacks u i) (hv : Unpacks v i) :
    u = v := by
  rcases hu with ⟨hi, rfl⟩ | ⟨hi, _, rfl⟩
  · rcases hv with ⟨-, rfl⟩ | ⟨hi', -⟩
    · rfl
    · exact absurd hi hi'
  · rcases hv with ⟨hi', -⟩ | ⟨-, _, rfl⟩
    · exact absurd hi' hi
    · rfl

section Fill

variable {n : ℕ} (hpos : 0 < n) (hlt : n < 2 ^ 53)
include hpos hlt

theorem log2_add_fill : n.log2 + fill n = 52 := by
  have := (Nat.log2_lt hpos.ne').2 hlt
  rw [fill]
  omega

theorem fill_bounds : 2 ^ 52 ≤ n * 2 ^ fill n ∧ n * 2 ^ fill n < 2 ^ 53 := by
  have hlog := log2_add_fill hpos hlt
  have hlow := Nat.log2_self_le hpos.ne'
  have hhigh : n < 2 ^ (n.log2 + 1) := Nat.lt_log2_self
  constructor
  · calc 2 ^ 52 = 2 ^ n.log2 * 2 ^ fill n := by rw [← pow_add, hlog]
      _ ≤ n * 2 ^ fill n := Nat.mul_le_mul_right _ hlow
  · calc n * 2 ^ fill n < 2 ^ (n.log2 + 1) * 2 ^ fill n :=
          Nat.mul_lt_mul_of_pos_right hhigh (Nat.two_pow_pos _)
      _ = 2 ^ 53 := by rw [← pow_add, Nat.add_right_comm, hlog]

theorem targetExponent_scaled (k : ℕ) :
    Format.binary64.targetExponent (totalExponent (n * 2 ^ k) (-(k : ℤ))) = -(fill n : ℤ) := by
  have hlog : (n * 2 ^ k).log2 = n.log2 + k := by
    have hne : n * 2 ^ k ≠ 0 := (Nat.mul_pos hpos (Nat.two_pow_pos k)).ne'
    rw [Nat.log2_eq_iff hne, pow_add, Nat.add_right_comm, pow_add]
    exact ⟨Nat.mul_le_mul_right _ (Nat.log2_self_le hpos.ne'),
      Nat.mul_lt_mul_of_pos_right Nat.lt_log2_self (Nat.two_pow_pos k)⟩
  have hfill := log2_add_fill hpos hlt
  have htarget : ∀ t, Format.binary64.targetExponent t = max (t - 53) (-1074) := fun t => rfl
  rw [htarget, totalExponent, hlog]
  omega

end Fill

/-! ### Rounding what needs no rounding -/

/-- Zeros that are shifted out leave no trace. -/
theorem shiftRight_scaled (m k : ℕ) :
    ExtendedMantissa.mk (m * 2 ^ k) false false >>> k = ExtendedMantissa.mk m false false := by
  change k.repeat ExtendedMantissa.shiftRightOne _ = _
  induction k generalizing m with
  | zero => simp [Nat.repeat]
  | succ k ih =>
    have hstep : m * 2 ^ (k + 1) = m * 2 * 2 ^ k := by ring
    rw [Nat.repeat, hstep, ih]
    simp [ExtendedMantissa.shiftRightOne]

theorem shiftToTargetExponent_scaled {n : ℕ} (hpos : 0 < n) (hlt : n < 2 ^ 53) {k : ℕ}
    (hk : fill n ≤ k) :
    shiftToTargetExponent Format.binary64 (n * 2 ^ k) (-(k : ℤ)) .exact =
      (⟨n * 2 ^ fill n, false, false⟩, -(fill n : ℤ)) := by
  have hshift : (-(fill n : ℤ) - -(k : ℤ)).toNat = k - fill n := by omega
  have hsplit : n * 2 ^ k = n * 2 ^ fill n * 2 ^ (k - fill n) := by
    rw [mul_assoc, ← pow_add, Nat.add_sub_cancel' hk]
  rw [shiftToTargetExponent, targetExponent_scaled hpos hlt, shiftToExponent]
  simp only [hshift]
  refine Prod.ext ?_ ?_
  · rw [hsplit]
    exact shiftRight_scaled _ _
  · simp only
    omega

theorem round_scaled {n : ℕ} (hpos : 0 < n) (hlt : n < 2 ^ 53) (s : Sign) (k : ℕ) :
    ∃ h, UnpackedFloat.round Format.binary64 s (n * 2 ^ k) (-(k : ℤ)) =
      .finite s (n * 2 ^ fill n) (-(fill n : ℤ)) h := by
  have hne : n * 2 ^ fill n ≠ 0 := (Nat.mul_pos hpos (Nat.two_pow_pos _)).ne'
  -- first the number is given as many zeros as fill the mantissa, if it has fewer
  have hdecrease : decreaseExponent (n * 2 ^ k) (-(k : ℤ)) (-(fill n : ℤ)) =
      (n * 2 ^ max k (fill n), -((max k (fill n) : ℕ) : ℤ)) := by
    have hshift : (-(k : ℤ) - -(fill n : ℤ)).toNat = fill n - k := by omega
    rw [decreaseExponent]
    simp only [hshift, Nat.shiftLeft_eq]
    refine Prod.ext ?_ ?_
    · simp only
      rw [mul_assoc, ← pow_add]
      congr 2
      omega
    · simp only
      omega
  refine ⟨Nat.pos_of_ne_zero hne, ?_⟩
  rw [UnpackedFloat.round, targetExponent_scaled hpos hlt, hdecrease]
  simp only [roundWithAccuracy, shiftToTargetExponent_scaled hpos hlt (le_max_right k (fill n)),
    ExtendedMantissa.roundedMantissa, ExtendedMantissa.accuracy, Accuracy.roundToNearestEven,
    shiftToTargetExponent_scaled hpos hlt le_rfl, hne, dite_false]

theorem unpacks_normalize {i : ℤ} (hi : i.natAbs < 2 ^ 53) (k : ℕ) :
    Unpacks (.normalize Format.binary64 (i * 2 ^ k) (-(k : ℤ)) .positive) i := by
  have hpow : (0 : ℤ) < 2 ^ k := by positivity
  rcases lt_trichotomy i 0 with h | rfl | h
  · have hneg : i * 2 ^ k < 0 := mul_neg_of_neg_of_pos h hpow
    have hnat : (-(i * 2 ^ k)).toNat = i.natAbs * 2 ^ k := by
      zify
      rw [Int.toNat_of_nonneg (by omega), abs_of_neg h]
      ring
    refine .inr ⟨h.ne, ?_⟩
    rw [UnpackedFloat.normalize, Int.compare_eq_lt.2 hneg]
    simp only [hnat, signOf, h, decide_true, if_true]
    exact round_scaled (by omega) hi .negative k
  · refine .inl ⟨rfl, ?_⟩
    rw [zero_mul]
    rfl
  · have hgt : 0 < i * 2 ^ k := mul_pos h hpow
    have hnat : (i * 2 ^ k).toNat = i.natAbs * 2 ^ k := by
      zify
      rw [Int.toNat_of_nonneg hgt.le, abs_of_pos h]
    refine .inr ⟨h.ne', ?_⟩
    rw [UnpackedFloat.normalize, Int.compare_eq_gt.2 hgt]
    simp only [hnat, signOf, h.not_gt, decide_false, Bool.false_eq_true, if_false]
    exact round_scaled (by omega) hi .positive k

/-! ### Differences -/

theorem apply_signOf (i : ℤ) (k : ℕ) :
    (signOf (i < 0)).apply ((i.natAbs * 2 ^ k : ℕ) : ℤ) = i * 2 ^ k := by
  by_cases h : i < 0
  · simp only [signOf, h, decide_true, if_true, Sign.apply]
    push_cast
    rw [abs_of_neg h]
    ring
  · simp only [signOf, h, decide_false, Bool.false_eq_true, if_false, Sign.apply]
    push_cast
    rw [abs_of_nonneg (by omega)]

theorem decreaseExponent_fill (n k l : ℕ) :
    (decreaseExponent (n * 2 ^ k) (-(k : ℤ)) (-((max k l : ℕ) : ℤ))).1 = n * 2 ^ max k l := by
  have hshift : (-(k : ℤ) - -((max k l : ℕ) : ℤ)).toNat = max k l - k := by omega
  rw [decreaseExponent]
  simp only [hshift, Nat.shiftLeft_eq]
  rw [mul_assoc, ← pow_add, Nat.add_sub_cancel' (le_max_left k l)]

theorem neg_signOf {i : ℤ} (hi : i ≠ 0) : -signOf (i < 0) = signOf (-i < 0) := by
  rcases lt_or_gt_of_ne hi with h | h
  · have hneg : ¬ -i < 0 := by omega
    rw [decide_eq_true h, decide_eq_false hneg]
    rfl
  · have hneg : -i < 0 := by omega
    rw [decide_eq_false h.not_gt, decide_eq_true hneg]
    rfl

theorem Unpacks.sub {u v : UnpackedFloat} {i j : ℤ} (hu : Unpacks u i) (hv : Unpacks v j)
    (hij : (i - j).natAbs < 2 ^ 53) : Unpacks (.sub Format.binary64 u v) (i - j) := by
  rcases hu with ⟨rfl, rfl⟩ | ⟨hi, hm, rfl⟩
  · rcases hv with ⟨rfl, rfl⟩ | ⟨hj, hm, rfl⟩
    · exact .inl ⟨rfl, rfl⟩
    · refine .inr ⟨by omega, ?_⟩
      rw [zero_sub, Int.natAbs_neg, ← neg_signOf hj]
      exact ⟨hm, rfl⟩
  · rcases hv with ⟨rfl, rfl⟩ | ⟨hj, hm', rfl⟩
    · rw [sub_zero]
      exact .inr ⟨hi, hm, rfl⟩
    · have hmin : min (-(fill i.natAbs : ℤ)) (-(fill j.natAbs : ℤ)) =
          -((max (fill i.natAbs) (fill j.natAbs) : ℕ) : ℤ) := by omega
      have hnormal := unpacks_normalize hij (max (fill i.natAbs) (fill j.natAbs))
      rw [sub_mul, ← apply_signOf i, ← apply_signOf j] at hnormal
      rw [UnpackedFloat.sub]
      simp only [hmin]
      rw [decreaseExponent_fill, max_comm, decreaseExponent_fill, max_comm]
      exact hnormal

/-! ### Bits -/

open Float.Model.UnpackedFloat (unpackSign unpackExponent unpackMantissa) in
/-- The parts of a double with the given bits, whose exponent is neither the least nor the
greatest. -/
theorem unpack_of_toNat {u : UInt64} {negative : Bool} {exponent fraction : ℕ}
    (hbits : u.toNat = (if negative then 2 ^ 63 else 0) + (exponent * 2 ^ 52 + fraction))
    (hexponent : 0 < exponent ∧ exponent < 2047) (hfraction : fraction < 2 ^ 52) :
    ∃ h, UnpackedFloat.unpack Format.binary64 u.toBitVec =
      .finite (signOf negative) (2 ^ 52 + fraction) ((exponent : ℤ) - 1075) h := by
  have hexp : (@unpackExponent Format.binary64 u.toBitVec).toNat = exponent := by
    rw [toNat_unpackExponent]
    split at hbits <;> omega
  have hman : (@unpackMantissa Format.binary64 u.toBitVec).toNat = fraction := by
    simp only [unpackMantissa, BitVec.toNat_cast, BitVec.extractLsb_toNat,
      Nat.shiftRight_eq_div_pow]
    change u.toNat / 2 ^ 0 % 2 ^ 52 = fraction
    split at hbits <;> omega
  have hsign : Sign.ofBitVec (@unpackSign Format.binary64 u.toBitVec) = signOf negative := by
    have hnat : (@unpackSign Format.binary64 u.toBitVec).toNat = if negative then 1 else 0 := by
      simp only [unpackSign, BitVec.toNat_cast, BitVec.extractLsb_toNat, Nat.shiftRight_eq_div_pow]
      change u.toNat / 2 ^ 63 % 2 = _
      split at hbits <;> simp only [*, if_true, if_false, Bool.false_eq_true] <;> omega
    have hvec : @unpackSign Format.binary64 u.toBitVec = if negative then 1#1 else 0#1 :=
      BitVec.eq_of_toNat_eq (by rw [hnat]; cases negative <;> rfl)
    rw [hvec]
    cases negative <;> rfl
  have hwhole : (1#1 ++ @unpackMantissa Format.binary64 u.toBitVec).toNat = 2 ^ 52 + fraction := by
    rw [BitVec.toNat_append, hman, ← Nat.shiftLeft_add_eq_or_of_lt hfraction]
    rfl
  refine ⟨by omega, ?_⟩
  -- the number is neither infinite nor subnormal
  have hinf : @unpackExponent Format.binary64 u.toBitVec ≠ -1#11 := by
    intro h
    have := congrArg BitVec.toNat h
    rw [hexp] at this
    simp at this
    omega
  have hsub : @unpackExponent Format.binary64 u.toBitVec ≠ 0#11 := by
    intro h
    have := congrArg BitVec.toNat h
    rw [hexp] at this
    simp at this
    omega
  rw [UnpackedFloat.unpack]
  simp only [hsign, hexp, hwhole]
  rw [if_neg hinf, if_neg hsub]
  rfl

theorem ofModel_pack_unpack (x : Float) : Float.ofModel (.pack x.toModel.unpack) = x :=
  Float.ofBits_toBits x

theorem roundsTo_self (m : ℕ) (e : ℤ) : RoundsTo m e (m * (2 : ℚ) ^ e) := by
  have hunit : (0 : ℚ) < (2 : ℚ) ^ e := by positivity
  have hgap : 0 < gapBelow m e := by
    unfold gapBelow
    split <;> norm_num
  refine ⟨?_, ?_, fun _ => ⟨?_, ?_⟩⟩
  · exact mul_le_mul_of_nonneg_right (by linarith) hunit.le
  · exact mul_le_mul_of_nonneg_right (by linarith) hunit.le
  · exact mul_lt_mul_of_pos_right (by linarith) hunit
  · exact mul_lt_mul_of_pos_right (by linarith) hunit

/-- The bits of an integer: its sign, the places it is shifted by, and what follows its first
digit. -/
theorem exists_bits_ofInt {i : ℤ} (hzero : i ≠ 0) (hi : i.natAbs < 2 ^ 53) :
    ∃ u : UInt64, ofInt i = Float.ofBits u ∧ u.toNat = (if decide (i < 0) then 2 ^ 63 else 0) +
      ((1075 - fill i.natAbs) * 2 ^ 52 + (i.natAbs * 2 ^ fill i.natAbs - 2 ^ 52)) := by
  have hlog := log2_add_fill (by omega) hi
  have hbounds := fill_bounds (by omega) hi
  have hvalue : (i.natAbs : ℚ) / (1 : ℕ) =
      (i.natAbs * 2 ^ fill i.natAbs : ℕ) * (2 : ℚ) ^ (-(fill i.natAbs : ℤ)) := by
    rw [zpow_neg, zpow_natCast]
    push_cast
    field_simp
  generalize i.natAbs * 2 ^ fill i.natAbs = m at hbounds hvalue ⊢
  -- the number is `m` units of the last digit
  have hfits : Fits m (-(fill i.natAbs : ℤ)) := ⟨hbounds.2, by omega, by omega, .inl hbounds.1⟩
  have hmagnitude := magnitude?_of_roundsTo hfits (by omega) one_pos (hvalue ▸ roundsTo_self m _)
  rw [bitsOf, if_neg (by omega)] at hmagnitude
  refine ⟨_, by rw [ofInt, ofRatio?, hmagnitude]; rfl, ?_⟩
  rw [UInt64.toNat_ofNat']
  simp only [Nat.pow_eq]
  split <;> omega

/-- **An integer below `2 ^ 53` is a double.** -/
theorem unpacks_ofInt {i : ℤ} (hi : i.natAbs < 2 ^ 53) :
    Unpacks (ofInt i).toModel.unpack i := by
  by_cases hzero : i = 0
  · subst hzero
    exact .inl ⟨rfl, rfl⟩
  have hlog := log2_add_fill (by omega) hi
  have hbounds := fill_bounds (by omega) hi
  obtain ⟨u, hofInt, hbits⟩ := exists_bits_ofInt hzero hi
  obtain ⟨_, hunpack⟩ := unpack_of_toNat hbits (by omega) (by omega)
  have hsame : (Float.ofBits u).toBits = u := toBits_ofBits (by split at hbits <;> omega)
  have hparts : (ofInt i).toModel.unpack = UnpackedFloat.unpack Format.binary64 u.toBitVec := by
    rw [hofInt]
    exact congrArg (fun v : UInt64 => UnpackedFloat.unpack Format.binary64 v.toBitVec) hsame
  have hmantissa : 2 ^ 52 + (i.natAbs * 2 ^ fill i.natAbs - 2 ^ 52) =
      i.natAbs * 2 ^ fill i.natAbs := by omega
  have hexponent : ((1075 - fill i.natAbs : ℕ) : ℤ) - 1075 = -(fill i.natAbs : ℤ) := by omega
  refine .inr ⟨hzero, by omega, ?_⟩
  rw [hparts, hunpack]
  simp only [hmantissa, hexponent]

/-- **The difference of two integers as doubles is the difference of the integers.** -/
theorem ofInt_sub {i j : ℤ} (hi : i.natAbs < 2 ^ 53) (hj : j.natAbs < 2 ^ 53)
    (hij : (i - j).natAbs < 2 ^ 53) : ofInt i - ofInt j = ofInt (i - j) := by
  have hsub := (unpacks_ofInt hi).sub (unpacks_ofInt hj) hij
  have hdiff : ofInt i - ofInt j = Float.ofModel (.pack (.sub Format.binary64
      (ofInt i).toModel.unpack (ofInt j).toModel.unpack)) := rfl
  rw [hdiff, hsub.unique (unpacks_ofInt hij), ofModel_pack_unpack]

end Binary64

end MetricHistory
