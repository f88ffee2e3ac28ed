import MetricHistory.Proofs.Decimal.Integers
import MetricHistory.Proofs.Decimal.Notation

/-!
# The range of doubles

A decimal is read as a double as long as it does not round to `2 ^ 1024`, the first power of two that
doubles do not reach.

* `Binary64.magnitude?_isSome_iff` and `Binary64.ofDecimal?_isSome_iff` : **the numbers that are read
  are those below `Binary64.limit`**;
* `Binary64.truncate_ofDecimal?` : the integers that are doubles (`Binary64.IsDouble`) are read and
  truncated without a loss;
* `Binary64.isDouble_of_truncate` : nothing else is what truncating a double gives;
* `Binary64.truncate_of_isWhole` : a double that is an integer is truncated to it.
-/

namespace MetricHistory

theorem wrap64_eq_self_iff {i : Int} : wrap64 i = i ↔ minInt64 ≤ i ∧ i ≤ maxInt64 := by
  have hpow : ((Nat.pow 2 64 : Nat) : Int) = 18446744073709551616 := rfl
  rw [wrap64, Int.bmod_def, hpow, minInt64, maxInt64]
  split <;> omega

/-! ### Bounds of rounded quotients -/

section RoundDiv

variable {n d k : ℕ} (hd : 0 < d)
include hd

theorem roundDiv_le (h : (n : ℚ) / d ≤ k) : roundDiv n d ≤ k := by
  rw [div_le_iff₀ (by exact_mod_cast hd)] at h
  replace h : n ≤ k * d := by exact_mod_cast h
  have hn : d * (n / d) + n % d = n := Nat.div_add_mod n d
  have hr : n % d < d := Nat.mod_lt n hd
  unfold roundDiv
  dsimp only
  generalize n / d = q at *
  generalize n % d = r at *
  have hq : q ≤ k := by
    by_contra hlt
    have : d * (k + 1) ≤ d * q := Nat.mul_le_mul_left d (by omega)
    nlinarith
  -- a quotient that is rounded up is no whole number
  have hup : 0 < r → q + 1 ≤ k := by
    intro hpos
    by_contra hlt
    obtain rfl : q = k := by omega
    nlinarith
  split_ifs with h₁ h₂
  · exact hq
  · exact hup (by omega)
  · exact hq
  · exact hup (by omega)

theorem le_roundDiv (h : (k : ℚ) ≤ n / d) : k ≤ roundDiv n d := by
  rw [le_div_iff₀ (by exact_mod_cast hd)] at h
  replace h : k * d ≤ n := by exact_mod_cast h
  have hq : k ≤ n / d := (Nat.le_div_iff_mul_le hd).2 h
  unfold roundDiv
  dsimp only
  split_ifs <;> omega

theorem roundDiv_lt_iff (hk : k % 2 = 0) : roundDiv n d < k ↔ 2 * n + d < 2 * k * d := by
  have hn : d * (n / d) + n % d = n := Nat.div_add_mod n d
  have hr : n % d < d := Nat.mod_lt n hd
  unfold roundDiv
  dsimp only
  generalize n / d = q at *
  generalize n % d = r at *
  rcases Nat.lt_trichotomy (q + 1) k with hlt | rfl | hgt
  · have hmul : d * (q + 2) ≤ d * k := Nat.mul_le_mul_left d (by omega)
    refine ⟨fun _ => by nlinarith, fun _ => ?_⟩
    split_ifs <;> omega
  · have hhalf : 2 * n + d < 2 * (q + 1) * d ↔ 2 * r < d := by
      constructor <;> intro h <;> nlinarith
    rw [hhalf]
    split_ifs <;> omega
  · have hmul : d * k ≤ d * q := Nat.mul_le_mul_left d (by omega)
    refine ⟨fun h => ?_, fun h => absurd h (by nlinarith)⟩
    split_ifs at h <;> omega

end RoundDiv

namespace Binary64

/-! ### What is read -/

/-- Half a unit of the last digit below `2 ^ 1024`. -/
def limit : ℚ := 2 ^ 1024 - 2 ^ 970

theorem limit_eq : limit = (2 ^ 54 - 1) * (2 : ℚ) ^ (970 : ℤ) := by
  rw [limit, show (1024 : ℕ) = 54 + 970 from rfl, pow_add, sub_mul, one_mul]
  rfl

theorem lt_limit {k : ℤ} (hk : k ≤ 1023) : (2 : ℚ) ^ k < limit := by
  calc (2 : ℚ) ^ k ≤ (2 : ℚ) ^ ((53 : ℕ) + (970 : ℤ)) := zpow_le_zpow_right₀ one_le_two (by omega)
    _ = 2 ^ 53 * (2 : ℚ) ^ (970 : ℤ) := two_zpow_add 53 970
    _ < limit := by
      rw [limit_eq]
      gcongr
      norm_num

theorem limit_le {k : ℤ} (hk : 1024 ≤ k) : limit ≤ (2 : ℚ) ^ k := by
  calc limit ≤ 2 ^ 54 * (2 : ℚ) ^ (970 : ℤ) := by
        rw [limit_eq]
        gcongr
        norm_num
    _ = (2 : ℚ) ^ ((54 : ℕ) + (970 : ℤ)) := (two_zpow_add 54 970).symm
    _ ≤ (2 : ℚ) ^ k := zpow_le_zpow_right₀ one_le_two (by omega)

theorem limit_pos : 0 < limit := lt_trans (by norm_num) (lt_limit (show (0 : ℤ) ≤ 1023 by norm_num))

/-- A quotient is read when the bits of its mantissa and exponent stay below those of infinity. -/
theorem magnitude?_isSome_iff_bits {num den : ℕ} (hn : num ≠ 0) {e : ℤ}
    (he : max (log2Ratio num den - 52) (-1074) = e) :
    (magnitude? num den).isSome = true ↔
      (if roundDiv (scaled 2 num den e).1 (scaled 2 num den e).2 < 2 ^ 52 then
        roundDiv (scaled 2 num den e).1 (scaled 2 num den e).2
      else (e + 1074).toNat * 2 ^ 52 +
        roundDiv (scaled 2 num den e).1 (scaled 2 num den e).2) < 2047 * 2 ^ 52 := by
  unfold magnitude?
  rw [if_neg hn]
  simp only [he, Nat.pow_eq]
  split <;> simp [*]

theorem roundDiv_le_of_lt {n d : ℕ} {e t : ℤ} (hd : 0 < d) (hte : t ≤ 53 + e)
    (h : (n : ℚ) / d * (2 : ℚ) ^ e < (2 : ℚ) ^ t) : roundDiv n d ≤ 2 ^ 53 := by
  have hpow : (0 : ℚ) < (2 : ℚ) ^ e := by positivity
  refine roundDiv_le hd ?_
  rw [← mul_le_mul_iff_left₀ hpow]
  calc (n : ℚ) / d * (2 : ℚ) ^ e ≤ (2 : ℚ) ^ t := h.le
    _ ≤ (2 : ℚ) ^ (53 + e) := zpow_le_zpow_right₀ one_le_two hte
    _ = (2 ^ 53 : ℕ) * (2 : ℚ) ^ e := mod_cast two_zpow_add 53 e

theorem le_roundDiv_of_le {n d : ℕ} {e t : ℤ} (hd : 0 < d) (hte : 52 + e ≤ t)
    (h : (2 : ℚ) ^ t ≤ (n : ℚ) / d * (2 : ℚ) ^ e) : 2 ^ 52 ≤ roundDiv n d := by
  have hpow : (0 : ℚ) < (2 : ℚ) ^ e := by positivity
  refine le_roundDiv hd ?_
  rw [← mul_le_mul_iff_left₀ hpow]
  calc (2 ^ 52 : ℕ) * (2 : ℚ) ^ e = (2 : ℚ) ^ (52 + e) := mod_cast (two_zpow_add 52 e).symm
    _ ≤ (2 : ℚ) ^ t := zpow_le_zpow_right₀ one_le_two hte
    _ ≤ (n : ℚ) / d * (2 : ℚ) ^ e := h

theorem lt_limit_iff {n d : ℕ} (hd : 0 < d) :
    (n : ℚ) / d * (2 : ℚ) ^ (971 : ℤ) < limit ↔ 2 * n + d < 2 * 2 ^ 53 * d := by
  have hsplit : limit = (2 ^ 53 - 1 / 2) * (2 : ℚ) ^ (971 : ℤ) := by
    rw [limit_eq, show (971 : ℤ) = 1 + 970 from rfl, zpow_add₀ (by norm_num)]
    ring
  rw [hsplit, mul_lt_mul_iff_left₀ (by positivity), div_lt_iff₀ (by exact_mod_cast hd),
    ← @Nat.cast_lt ℚ]
  push_cast
  constructor <;> intro h <;> linarith

/-- **A quotient is read when it lies below the limit.** -/
theorem magnitude?_isSome_iff {num den : ℕ} (hd : 0 < den) :
    (magnitude? num den).isSome = true ↔ (num : ℚ) / den < limit := by
  rcases Nat.eq_zero_or_pos num with rfl | hn
  · simpa [magnitude?] using limit_pos
  obtain ⟨hlow, hhigh⟩ := log2Ratio_bounds hn hd
  obtain ⟨e, he⟩ : ∃ e, max (log2Ratio num den - 52) (-1074) = e := ⟨_, rfl⟩
  rw [magnitude?_isSome_iff_bits hn.ne' he]
  generalize log2Ratio num den = t at hlow hhigh he
  -- the quotient in units of `2 ^ e`, whose rounding is the mantissa
  have hdpos := scaled_pos num e two_pos hd
  have hratio := scaled_ratio num den e two_pos
  rw [Nat.cast_ofNat] at hratio
  generalize scaled 2 num den e = s at hdpos hratio ⊢
  obtain ⟨n, d⟩ := s
  dsimp only at hdpos hratio ⊢
  have hvalue : (num : ℚ) / den = n / d * (2 : ℚ) ^ e := by
    rw [hratio]
    field_simp
  rw [hvalue] at hlow hhigh ⊢
  rcases lt_trichotomy t 1023 with hsmall | rfl | hlarge
  · -- too small to come near the limit
    have hq := roundDiv_le_of_lt hdpos (by omega) hhigh
    refine iff_of_true ?_ (hhigh.trans (lt_limit (by omega)))
    split <;> omega
  · -- the last power of two: the mantissa must not become too large
    obtain rfl : e = 971 := by omega
    rw [lt_limit_iff hdpos, ← roundDiv_lt_iff hdpos (show 2 ^ 53 % 2 = 0 by norm_num)]
    split <;> omega
  · -- at the limit or above it
    have hq := le_roundDiv_of_le hdpos (by omega) hlow
    refine iff_of_false ?_ (not_lt.2 ((limit_le (by omega)).trans hlow))
    split <;> omega

theorem ofRatio?_isSome_iff (negative : Bool) {num den : ℕ} (hd : 0 < den) :
    (ofRatio? negative num den).isSome = true ↔ (num : ℚ) / den < limit := by
  rw [ofRatio?, Option.isSome_map, magnitude?_isSome_iff hd]

/-- **A decimal is read when it lies below the limit.** -/
theorem ofDecimal?_isSome_iff (negative : Bool) (c : ℕ) (k : ℤ) :
    (ofDecimal? negative c k).isSome = true ↔ Decimal.value ⟨c, k⟩ < limit := by
  have hzero : (ofRatio? negative 0 1).isSome = true := by
    rw [ofRatio?_isSome_iff negative one_pos]
    simpa using limit_pos
  rcases Nat.eq_zero_or_pos c with rfl | hc
  · simp only [ofDecimal?, if_true, hzero, true_iff]
    simpa [Decimal.value] using limit_pos
  obtain ⟨hlow, hhigh⟩ := Decimal.value_bounds hc k
  rw [ofDecimal?]
  dsimp only
  rw [if_neg hc.ne']
  generalize (Nat.toDigits 10 c).length = L at hlow hhigh ⊢
  split
  · -- a number of more than 400 places
    have habove : ¬ Decimal.value ⟨c, k⟩ < limit := by
      rw [not_lt]
      calc limit ≤ (2 : ℚ) ^ ((3 : ℤ) * 400) := limit_le (by norm_num)
        _ ≤ (10 : ℚ) ^ (400 : ℤ) := by
          rw [zpow_mul]
          exact zpow_le_zpow_left₀ (by norm_num) (by positivity) (by norm_num)
        _ ≤ (10 : ℚ) ^ ((L : ℤ) - 1 + k) := zpow_le_zpow_right₀ (by norm_num) (by omega)
        _ ≤ Decimal.value ⟨c, k⟩ := hlow
    simp [habove]
  · split
    · have hbelow : Decimal.value ⟨c, k⟩ < limit := by
        calc Decimal.value ⟨c, k⟩ < (10 : ℚ) ^ ((L : ℤ) + k) := hhigh
          _ ≤ (10 : ℚ) ^ (0 : ℤ) := zpow_le_zpow_right₀ (by norm_num) (by omega)
          _ = (2 : ℚ) ^ (0 : ℤ) := by simp
          _ < limit := lt_limit (by norm_num)
      simp [hzero, hbelow]
    · rw [ofRatio?_isSome_iff negative (scaled_pos c (-k) (by norm_num) one_pos),
        Decimal.scaled_value]

/-! ### Integers -/

/-- The double is a number that is not below zero; negative zero is none of those below. -/
def NonNegative (x : Float) : Prop :=
  ∃ negative m e, decode x = .finite negative m e ∧ (negative = true → m = 0)

theorem nonNegative_zero : NonNegative 0 := ⟨false, 0, -1074, by decide +kernel, by simp⟩

/-- The integer is a double, as far as its digits go. -/
def IsDouble (n : ℕ) : Prop := ∃ m e : ℕ, m < 2 ^ 53 ∧ n = m * 2 ^ e

theorem isDouble_of_lt {n : ℕ} (h : n < 2 ^ 53) : IsDouble n := ⟨n, 0, h, by simp⟩

theorem exists_decode (negative : Bool) {m : ℕ} {e : ℤ} (hf : Fits m e) :
    ∃ x, decode x = .finite negative m e := by
  have hm := hf.mantissa
  have hleast := hf.least
  have hgreatest := hf.greatest
  obtain ⟨bits, hbits⟩ : ∃ bits, bits = bitsOf m e := ⟨_, rfl⟩
  unfold bitsOf at hbits
  refine ⟨_, (decode_ofBits negative (?_ : bits < 2047 * 2 ^ 52)).trans ?_⟩
  · split at hbits <;> omega
  · split at hbits
    · have hsmall : e = -1074 := by
        have := hf.normal
        omega
      rw [if_pos (by omega), show bits % 2 ^ 52 = m by omega, hsmall]
    · rw [if_neg (by omega), show 2 ^ 52 + bits % 2 ^ 52 = m by omega,
        show ((bits / 2 ^ 52 : ℕ) : ℤ) - 1075 = e by omega]

theorem wholePart_eq {m n : ℕ} {e : ℤ} (h : m * (2 : ℚ) ^ e = n) : wholePart m e = n := by
  unfold wholePart
  simp only [Nat.pow_eq]
  split
  · rename_i he
    obtain ⟨k, rfl⟩ := Int.eq_ofNat_of_zero_le he
    rw [zpow_natCast] at h
    exact_mod_cast h
  · obtain ⟨k, rfl⟩ : ∃ k : ℕ, e = -k := ⟨(-e).toNat, by omega⟩
    rw [zpow_neg, zpow_natCast, ← div_eq_mul_inv, div_eq_iff (by positivity)] at h
    rw [neg_neg, Int.toNat_natCast]
    have hm : m = n * 2 ^ k := by exact_mod_cast h
    rw [hm, Nat.mul_div_cancel n (by positivity)]

theorem IsDouble.exists_fits {n : ℕ} (h : IsDouble n) (hpos : 0 < n) (hn : n < 2 ^ 63) :
    ∃ m : ℕ, ∃ e : ℤ, 0 < m ∧ Fits m e ∧ m * (2 : ℚ) ^ e = n := by
  obtain ⟨m, e, hm, rfl⟩ := h
  have hmpos : 0 < m := Nat.pos_of_mul_pos_right hpos
  have he : e < 63 := by
    have hle : 2 ^ e ≤ m * 2 ^ e := Nat.le_mul_of_pos_left _ hmpos
    exact (Nat.pow_lt_pow_iff_right (by norm_num)).1 (hle.trans_lt hn)
  have hlog := log2_add_fill hmpos hm
  have hbounds := fill_bounds hmpos hm
  refine ⟨m * 2 ^ fill m, e - fill m, by positivity, ⟨hbounds.2, by omega, by omega, .inl hbounds.1⟩,
    ?_⟩
  rw [zpow_sub₀ (by norm_num), zpow_natCast, zpow_natCast]
  push_cast
  field_simp

/-- **An integer that is a double is read and truncated without a loss.** -/
theorem truncate_ofDecimal? {n c : ℕ} {k : ℤ} (negative : Bool) (hdouble : IsDouble n)
    (hn : n < 2 ^ 63) (h : Decimal.value ⟨c, k⟩ = n) :
    ∃ x, ofDecimal? negative c k = some x ∧ truncate x = if negative then -(n : ℤ) else n := by
  obtain ⟨x, m, e, hx, hread, hm⟩ : ∃ x m e, decode x = .finite negative m e ∧
      ofDecimal? negative c k = some x ∧ m * (2 : ℚ) ^ e = n := by
    rcases Nat.eq_zero_or_pos n with rfl | hpos
    · obtain ⟨x, hx⟩ := exists_decode negative
        (⟨by norm_num, le_rfl, by norm_num, .inr rfl⟩ : Fits 0 (-1074))
      obtain rfl : c = 0 := Decimal.value_eq_zero.1 (h.trans Nat.cast_zero)
      refine ⟨x, 0, -1074, hx, ?_, by simp⟩
      rw [ofDecimal?]
      exact ofRatio?_zero hx
    · obtain ⟨m, e, hmpos, hf, hvalue⟩ := hdouble.exists_fits hpos hn
      obtain ⟨x, hx⟩ := exists_decode negative hf
      refine ⟨x, m, e, hx, ofDecimal?_of_roundsTo hx hmpos ?_, hvalue⟩
      rw [h, ← hvalue]
      exact roundsTo_self m e
  refine ⟨x, hread, ?_⟩
  have hrange : minInt64 ≤ (if negative then -(n : ℤ) else n) ∧
      (if negative then -(n : ℤ) else n) ≤ maxInt64 := by
    unfold minInt64 maxInt64
    split <;> omega
  rw [truncate, hx]
  simp only [wholePart_eq hm]
  exact if_pos hrange

/-- **What truncating a double gives, and is not negative, is a double.** -/
theorem isDouble_of_truncate {x : Float} {n : ℕ} (h : truncate x = n) :
    IsDouble n ∧ n < 2 ^ 63 := by
  have hleast : ¬ minInt64 = n := by
    unfold minInt64
    omega
  unfold truncate at h
  cases hx : decode x with
  | finite negative m e =>
    have hm := (fits_of_decode hx).1.mantissa
    rw [hx] at h
    dsimp only at h
    by_cases hrange : minInt64 ≤ (if negative then -(wholePart m e : ℤ) else wholePart m e) ∧
        (if negative then -(wholePart m e : ℤ) else wholePart m e) ≤ maxInt64
    · rw [if_pos hrange] at h
      rw [h] at hrange
      refine ⟨?_, by unfold maxInt64 at hrange; omega⟩
      cases negative with
      | true =>
        obtain rfl : n = 0 := by
          simp only [if_true] at h
          omega
        exact isDouble_of_lt (by norm_num)
      | false =>
        obtain rfl : wholePart m e = n := by simpa using h
        unfold wholePart
        split
        · exact ⟨m, e.toNat, hm, rfl⟩
        · exact isDouble_of_lt ((Nat.div_le_self _ _).trans_lt hm)
    · rw [if_neg hrange] at h
      exact absurd h hleast
  | infinite negative =>
    rw [hx] at h
    exact absurd h hleast
  | nan =>
    rw [hx] at h
    exact absurd h hleast

/-- The double is an integer. -/
def IsWhole (x : Float) (i : ℤ) : Prop :=
  ∃ negative m e, decode x = .finite negative m e ∧
    (if negative then -(m * (2 : ℚ) ^ e) else m * (2 : ℚ) ^ e) = i

/-- A double that is an integer of 64 bits is truncated without a loss. -/
theorem truncate_of_isWhole {x : Float} {i : ℤ} (h : IsWhole x i) (hmin : minInt64 ≤ i)
    (hmax : i ≤ maxInt64) : truncate x = i := by
  obtain ⟨negative, m, e, hx, hi⟩ := h
  have hwhole : m * (2 : ℚ) ^ e = i.natAbs := by
    have hnonneg : 0 ≤ m * (2 : ℚ) ^ e := by positivity
    rw [Nat.cast_natAbs, Int.cast_abs, ← hi]
    split
    · rw [abs_neg, abs_of_nonneg hnonneg]
    · rw [abs_of_nonneg hnonneg]
  have hsign : (if negative then -(i.natAbs : ℤ) else (i.natAbs : ℤ)) = i := by
    have hcast : ((if negative then -(i.natAbs : ℤ) else (i.natAbs : ℤ) : ℤ) : ℚ) = i := by
      rw [← hi, hwhole]
      split <;> simp
    exact_mod_cast hcast
  rw [truncate, hx]
  simp only [wholePart_eq hwhole, hsign]
  exact if_pos ⟨hmin, hmax⟩

end Binary64

end MetricHistory
