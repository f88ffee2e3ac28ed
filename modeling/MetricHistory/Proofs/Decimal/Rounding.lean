import Mathlib
import MetricHistory.Decimal.Shortest

/-!
# Rounding to the nearest double

The numbers that round to the double `m * 2 ^ e` are an interval around it (`Binary64.RoundsTo`),
half a unit wide on each side, and only a quarter below a power of two.

* `Binary64.magnitude?_of_roundsTo` : rounding a quotient of the interval gives that double;
* `Decimal.Interval.holds_around` : `Decimal.Interval.around` is that interval;
* `Binary64.fits_of_decode` : the bits of a double are those of its mantissa and exponent below its
  sign;
* `Binary64.decode_of_ofDecimal?` : rounding keeps the sign, and never gives an infinity.
-/

namespace MetricHistory

/-! ### Quotients -/

/-- A quotient that is nearer to `q` than to any other number rounds to it, and at the same
distance it does if `q` is even. -/
theorem roundDiv_eq {n d q : ℕ} (hd : 0 < d) (hlow : 2 * q * d ≤ 2 * n + d)
    (hhigh : 2 * n ≤ 2 * q * d + d)
    (hodd : q % 2 = 1 → 2 * q * d < 2 * n + d ∧ 2 * n < 2 * q * d + d) : roundDiv n d = q := by
  have hn : d * (n / d) + n % d = n := Nat.div_add_mod n d
  have hr : n % d < d := Nat.mod_lt n hd
  generalize hk : n / d = k at hn
  generalize n % d = r at hn hr
  have hle : q ≤ k + 1 := by
    by_contra hc
    have : d * (k + 2) ≤ d * q := Nat.mul_le_mul_left d (by omega)
    nlinarith
  have hge : k ≤ q := by
    by_contra hc
    have : d * (q + 1) ≤ d * k := Nat.mul_le_mul_left d (by omega)
    nlinarith
  have hrem : n % d = r := by
    have := Nat.div_add_mod n d
    rw [hk] at this
    omega
  unfold roundDiv
  simp only [hk, hrem]
  -- the quotient is cut to `q` or to the number below it
  rcases Nat.lt_or_ge k q with hlt | hge'
  · obtain rfl : q = k + 1 := by omega
    have h₁ : d ≤ 2 * r := by nlinarith
    rw [if_neg (by omega)]
    by_cases htie : 2 * r > d
    · rw [if_pos htie]
    · have heven : (k + 1) % 2 ≠ 1 := by
        intro h
        have := (hodd h).1
        nlinarith
      rw [if_neg htie, if_neg (by omega)]
  · obtain rfl : k = q := by omega
    have h₁ : 2 * r ≤ d := by nlinarith
    by_cases htie : 2 * r < d
    · rw [if_pos htie]
    · have heven : k % 2 ≠ 1 := by
        intro h
        have := (hodd h).2
        nlinarith
      rw [if_neg htie, if_neg (by omega), if_pos (by omega)]

namespace Binary64

theorem scaled_pos {base den : ℕ} (num : ℕ) (k : ℤ) (hb : 0 < base) (hd : 0 < den) :
    0 < (scaled base num den k).2 := by
  unfold scaled
  split
  · exact Nat.mul_pos hd (Nat.pow_pos hb)
  · exact hd

theorem scaled_ratio {base : ℕ} (num den : ℕ) (k : ℤ) (hb : 0 < base) :
    ((scaled base num den k).1 : ℚ) / (scaled base num den k).2 =
      (num : ℚ) / den / (base : ℚ) ^ k := by
  have hb' : (base : ℚ) ≠ 0 := by exact_mod_cast hb.ne'
  unfold scaled
  split
  · rename_i hk
    obtain ⟨j, rfl⟩ := Int.eq_ofNat_of_zero_le hk
    simp [Nat.pow_eq, div_div]
  · rename_i hk
    obtain ⟨j, rfl⟩ : ∃ j : ℕ, k = -j := ⟨(-k).toNat, by omega⟩
    simp [Nat.pow_eq]
    ring

theorem scaled_le_iff {base num den : ℕ} (k : ℤ) (hb : 0 < base) (hd : 0 < den) :
    (scaled base num den k).2 ≤ (scaled base num den k).1 ↔ (base : ℚ) ^ k ≤ (num : ℚ) / den := by
  have hpos : (0 : ℚ) < (scaled base num den k).2 := by exact_mod_cast scaled_pos num k hb hd
  have hpow : (0 : ℚ) < (base : ℚ) ^ k := zpow_pos (by exact_mod_cast hb) k
  rw [← @Nat.cast_le ℚ, ← one_le_div hpos, scaled_ratio num den k hb, one_le_div hpow]

theorem log2Ratio_bounds {num den : ℕ} (hn : 0 < num) (hd : 0 < den) :
    (2 : ℚ) ^ log2Ratio num den ≤ (num : ℚ) / den ∧
      (num : ℚ) / den < (2 : ℚ) ^ (log2Ratio num den + 1) := by
  have hdq : (0 : ℚ) < den := by exact_mod_cast hd
  have hn₁ : (2 : ℚ) ^ (num.log2 : ℤ) ≤ num := by
    rw [zpow_natCast]
    exact_mod_cast Nat.log2_self_le hn.ne'
  have hn₂ : (num : ℚ) < (2 : ℚ) ^ ((num.log2 : ℤ) + 1) := by
    have : num < 2 ^ (num.log2 + 1) := Nat.lt_log2_self
    exact_mod_cast this
  have hd₁ : (2 : ℚ) ^ (den.log2 : ℤ) ≤ den := by
    rw [zpow_natCast]
    exact_mod_cast Nat.log2_self_le hd.ne'
  have hd₂ : (den : ℚ) < (2 : ℚ) ^ ((den.log2 : ℤ) + 1) := by
    have : den < 2 ^ (den.log2 + 1) := Nat.lt_log2_self
    exact_mod_cast this
  generalize hk : (num.log2 : ℤ) - den.log2 = k
  -- the difference of the logarithms is off by one at most
  have hup : (num : ℚ) / den < (2 : ℚ) ^ (k + 1) := by
    rw [div_lt_iff₀ hdq]
    calc (num : ℚ) < (2 : ℚ) ^ ((num.log2 : ℤ) + 1) := hn₂
      _ = (2 : ℚ) ^ (k + 1) * (2 : ℚ) ^ (den.log2 : ℤ) := by
        rw [← zpow_add₀ (by norm_num)]
        congr 1
        omega
      _ ≤ (2 : ℚ) ^ (k + 1) * den := by gcongr
  have hdown : (2 : ℚ) ^ (k - 1) ≤ (num : ℚ) / den := by
    rw [le_div_iff₀ hdq]
    calc (2 : ℚ) ^ (k - 1) * den ≤ (2 : ℚ) ^ (k - 1) * (2 : ℚ) ^ ((den.log2 : ℤ) + 1) := by gcongr
      _ = (2 : ℚ) ^ (num.log2 : ℤ) := by
        rw [← zpow_add₀ (by norm_num)]
        congr 1
        omega
      _ ≤ num := hn₁
  unfold log2Ratio
  simp only [hk, scaled_le_iff k two_pos hd]
  split
  · rename_i hle
    exact ⟨hle, hup⟩
  · rename_i hlt
    refine ⟨hdown, ?_⟩
    simpa using hlt

theorem log2Ratio_lt_iff {num den : ℕ} {k : ℤ} (hn : 0 < num) (hd : 0 < den) :
    log2Ratio num den < k ↔ (num : ℚ) / den < (2 : ℚ) ^ k := by
  obtain ⟨hlow, hhigh⟩ := log2Ratio_bounds hn hd
  refine ⟨fun h => hhigh.trans_le (zpow_le_zpow_right₀ one_le_two (by omega)), fun h => ?_⟩
  exact (zpow_lt_zpow_iff_right₀ one_lt_two).1 (hlow.trans_lt h)

theorem two_zpow_add (k : ℕ) (e : ℤ) : (2 : ℚ) ^ (k + e) = 2 ^ k * (2 : ℚ) ^ e := by
  rw [zpow_add₀ two_ne_zero, zpow_natCast]

/-! ### The interval of a double -/

/-- The pairs of a mantissa and an exponent that doubles have. -/
structure Fits (m : ℕ) (e : ℤ) : Prop where
  mantissa : m < 2 ^ 53
  least : -1074 ≤ e
  greatest : e ≤ 971
  normal : 2 ^ 52 ≤ m ∨ e = -1074

/-- How far below `m * 2 ^ e` the numbers reach that round to it, in units of `2 ^ e`. -/
def gapBelow (m : ℕ) (e : ℤ) : ℚ := if m = 2 ^ 52 ∧ -1074 < e then 1 / 4 else 1 / 2

/-- The number `x` rounds to the double `m * 2 ^ e`. -/
structure RoundsTo (m : ℕ) (e : ℤ) (x : ℚ) : Prop where
  low : (m - gapBelow m e) * (2 : ℚ) ^ e ≤ x
  high : x ≤ (m + 1 / 2) * (2 : ℚ) ^ e
  odd : m % 2 = 1 → (m - gapBelow m e) * (2 : ℚ) ^ e < x ∧ x < (m + 1 / 2) * (2 : ℚ) ^ e

/-- The bits of the double `m * 2 ^ e`, without its sign. -/
def bitsOf (m : ℕ) (e : ℤ) : ℕ := if m < 2 ^ 52 then m else (e + 1074).toNat * 2 ^ 52 + m

theorem gapBelow_le (m : ℕ) (e : ℤ) : gapBelow m e ≤ 1 / 2 := by
  unfold gapBelow
  split <;> norm_num

theorem gapBelow_of_odd {m : ℕ} {e : ℤ} (h : m % 2 = 1) : gapBelow m e = 1 / 2 := by
  unfold gapBelow
  rw [if_neg]
  rintro ⟨rfl, -⟩
  norm_num at h

theorem RoundsTo.pos {m : ℕ} {e : ℤ} {x : ℚ} (h : RoundsTo m e x) (hm : 0 < m) : 0 < x := by
  have hm₁ : (1 : ℚ) ≤ m := by exact_mod_cast hm
  have hgap := gapBelow_le m e
  refine lt_of_lt_of_le (mul_pos ?_ (by positivity)) h.low
  linarith

theorem RoundsTo.smallest_le {m : ℕ} {e : ℤ} {x : ℚ} (h : RoundsTo m e x) (hf : Fits m e)
    (hm : 0 < m) : (2 : ℚ) ^ (-1075 : ℤ) ≤ x := by
  have hm₁ : (1 : ℚ) ≤ m := by exact_mod_cast hm
  have hgap := gapBelow_le m e
  calc (2 : ℚ) ^ (-1075 : ℤ) = 1 / 2 * (2 : ℚ) ^ (-1074 : ℤ) := by
        rw [(by norm_num : (-1075 : ℤ) = -1074 - 1), zpow_sub_one₀ (by norm_num)]
        ring
    _ ≤ 1 / 2 * (2 : ℚ) ^ e := by
      gcongr
      · norm_num
      · exact hf.least
    _ ≤ (m - gapBelow m e) * (2 : ℚ) ^ e := by
      gcongr
      linarith
    _ ≤ x := h.low

theorem RoundsTo.lt_largest {m : ℕ} {e : ℤ} {x : ℚ} (h : RoundsTo m e x) (hf : Fits m e) :
    x < (2 : ℚ) ^ (1025 : ℤ) := by
  have hm₂ : (m : ℚ) < 2 ^ 53 := by exact_mod_cast hf.mantissa
  have hgreatest := hf.greatest
  calc x ≤ (m + 1 / 2) * (2 : ℚ) ^ e := h.high
    _ < 2 ^ 54 * (2 : ℚ) ^ e := by
      rw [show (2 : ℚ) ^ 54 = 2 * 2 ^ 53 by norm_num]
      gcongr
      linarith
    _ = (2 : ℚ) ^ (54 + e) := (two_zpow_add 54 e).symm
    _ ≤ (2 : ℚ) ^ (1025 : ℤ) := zpow_le_zpow_right₀ one_le_two (by omega)

/-- Rounding a quotient to whole units of `2 ^ e`. -/
theorem roundDiv_scaled {num den q : ℕ} {e : ℤ} (hd : 0 < den)
    (hlow : (q - 1 / 2) * (2 : ℚ) ^ e ≤ (num : ℚ) / den)
    (hhigh : (num : ℚ) / den ≤ (q + 1 / 2) * (2 : ℚ) ^ e)
    (hodd : q % 2 = 1 → (q - 1 / 2) * (2 : ℚ) ^ e < (num : ℚ) / den ∧
      (num : ℚ) / den < (q + 1 / 2) * (2 : ℚ) ^ e) :
    roundDiv (scaled 2 num den e).1 (scaled 2 num den e).2 = q := by
  have hpos := scaled_pos num e two_pos hd
  have hratio := scaled_ratio num den e two_pos
  have hpow : (0 : ℚ) < (2 : ℚ) ^ e := by positivity
  generalize scaled 2 num den e = s at hpos hratio
  obtain ⟨n, d⟩ := s
  simp only at hpos hratio ⊢
  have hdq : (0 : ℚ) < d := by exact_mod_cast hpos
  rw [← le_div_iff₀ hpow] at hlow
  rw [← div_le_iff₀ hpow] at hhigh
  rw [← lt_div_iff₀ hpow, ← div_lt_iff₀ hpow] at hodd
  rw [Nat.cast_ofNat] at hratio
  rw [← hratio] at hlow hhigh hodd
  rw [le_div_iff₀ hdq] at hlow
  rw [div_le_iff₀ hdq] at hhigh
  rw [lt_div_iff₀ hdq, div_lt_iff₀ hdq] at hodd
  refine roundDiv_eq hpos ?_ ?_ fun h => ?_
  · have : (2 * q * d : ℚ) ≤ 2 * n + d := by linarith
    exact_mod_cast this
  · have : (2 * n : ℚ) ≤ 2 * q * d + d := by linarith
    exact_mod_cast this
  · obtain ⟨h₁, h₂⟩ := hodd h
    have h₁' : (2 * q * d : ℚ) < 2 * n + d := by linarith
    have h₂' : (2 * n : ℚ) < 2 * q * d + d := by linarith
    exact ⟨by exact_mod_cast h₁', by exact_mod_cast h₂'⟩

/-- The bits that rounding gives, once the unit of the last digit is known. -/
theorem magnitude?_of_unit {num den q : ℕ} {e : ℤ} (hn : num ≠ 0)
    (hunit : max (log2Ratio num den - 52) (-1074) = e)
    (hq : roundDiv (scaled 2 num den e).1 (scaled 2 num den e).2 = q)
    (hbits : (if q < 2 ^ 52 then q else (e + 1074).toNat * 2 ^ 52 + q) < 2047 * 2 ^ 52) :
    magnitude? num den = some (if q < 2 ^ 52 then q else (e + 1074).toNat * 2 ^ 52 + q) := by
  unfold magnitude?
  rw [if_neg hn]
  simp only [hunit, hq, Nat.pow_eq]
  rw [if_pos hbits]

section Units

variable {m num den : ℕ} {e : ℤ} (hn : 0 < num) (hd : 0 < den)
include hn hd

theorem log2Ratio_lt_of_roundsTo (hf : Fits m e) (h : RoundsTo m e ((num : ℚ) / den)) :
    log2Ratio num den < 53 + e := by
  have hm : (m : ℚ) + 1 ≤ 2 ^ 53 := by exact_mod_cast hf.mantissa
  rw [log2Ratio_lt_iff hn hd]
  calc (num : ℚ) / den ≤ (m + 1 / 2) * (2 : ℚ) ^ e := h.high
    _ < 2 ^ 53 * (2 : ℚ) ^ e := by
      gcongr
      linarith
    _ = (2 : ℚ) ^ (53 + e) := (two_zpow_add 53 e).symm

theorem mantissa_of_log2Ratio_lt (hf : Fits m e) (h : RoundsTo m e ((num : ℚ) / den))
    (he : -1074 < e) (ht : log2Ratio num den < 52 + e) : m = 2 ^ 52 := by
  have hnormal := hf.normal.resolve_right he.ne'
  have hgap := gapBelow_le m e
  by_contra hne
  have hm : (2 ^ 52 : ℚ) + 1 ≤ m := by exact_mod_cast (by omega : 2 ^ 52 + 1 ≤ m)
  refine absurd ((log2Ratio_lt_iff hn hd).1 ht) (not_lt.2 ?_)
  calc (2 : ℚ) ^ (52 + e) = 2 ^ 52 * (2 : ℚ) ^ e := two_zpow_add 52 e
    _ ≤ (m - gapBelow m e) * (2 : ℚ) ^ e := by
      gcongr
      linarith
    _ ≤ (num : ℚ) / den := h.low

theorem magnitude?_of_log2Ratio_lt (h : RoundsTo (2 ^ 52) e ((num : ℚ) / den)) (he : -1074 < e)
    (hgreatest : e ≤ 971) (ht : log2Ratio num den < 52 + e) :
    magnitude? num den = some (bitsOf (2 ^ 52) e) := by
  have hlow : (2 ^ 52 - 1 / 4) * (2 : ℚ) ^ e ≤ (num : ℚ) / den := by
    have hlow := h.low
    rwa [gapBelow, if_pos ⟨rfl, he⟩, Nat.cast_pow, Nat.cast_ofNat] at hlow
  have hhigh : (num : ℚ) / den < 2 ^ 52 * (2 : ℚ) ^ e :=
    ((log2Ratio_lt_iff hn hd).1 ht).trans_eq (two_zpow_add 52 e)
  have hbottom : 51 + e ≤ log2Ratio num den := by
    rw [← not_lt, log2Ratio_lt_iff hn hd, not_lt]
    calc (2 : ℚ) ^ (51 + e) = 2 ^ 51 * (2 : ℚ) ^ e := two_zpow_add 51 e
      _ ≤ (2 ^ 52 - 1 / 4) * (2 : ℚ) ^ e := by
        gcongr
        norm_num
      _ ≤ (num : ℚ) / den := hlow
  have hq : roundDiv (scaled 2 num den (e - 1)).1 (scaled 2 num den (e - 1)).2 = 2 ^ 53 := by
    have hhalf : (2 : ℚ) ^ e = 2 * (2 : ℚ) ^ (e - 1) := by
      rw [zpow_sub_one₀ two_ne_zero]
      ring
    have hpos : (0 : ℚ) < (2 : ℚ) ^ (e - 1) := by positivity
    rw [hhalf] at hlow hhigh
    refine roundDiv_scaled hd ?_ ?_ (by norm_num) <;>
      · push_cast
        linarith
  have hup : (e - 1 + 1074).toNat + 1 = (e + 1074).toNat := by omega
  have hbits : (if 2 ^ 53 < 2 ^ 52 then 2 ^ 53 else (e - 1 + 1074).toNat * 2 ^ 52 + 2 ^ 53) =
      bitsOf (2 ^ 52) e := by
    rw [bitsOf, if_neg (by norm_num), if_neg (lt_irrefl _), ← hup]
    ring
  have hmax : bitsOf (2 ^ 52) e < 2047 * 2 ^ 52 := by
    rw [bitsOf, if_neg (lt_irrefl _)]
    omega
  rw [← hbits] at hmax ⊢
  exact magnitude?_of_unit hn.ne' (by omega) hq hmax

end Units

/-- **A quotient that rounds to a double gives the bits of the double.** -/
theorem magnitude?_of_roundsTo {m num den : ℕ} {e : ℤ} (hf : Fits m e) (hm : 0 < m) (hd : 0 < den)
    (h : RoundsTo m e ((num : ℚ) / den)) : magnitude? num den = some (bitsOf m e) := by
  have hn : 0 < num := by
    rcases Nat.eq_zero_or_pos num with rfl | hn
    · simpa using h.pos hm
    · exact hn
  have hmantissa := hf.mantissa
  have hleast := hf.least
  have hgreatest := hf.greatest
  have htop := log2Ratio_lt_of_roundsTo hn hd hf h
  by_cases he : max (log2Ratio num den - 52) (-1074) = e
  · have hgap := gapBelow_le m e
    have hq : roundDiv (scaled 2 num den e).1 (scaled 2 num den e).2 = m := by
      refine roundDiv_scaled hd (le_trans ?_ h.low) h.high fun hodd => ?_
      · gcongr
      · have := h.odd hodd
        rwa [gapBelow_of_odd hodd] at this
    rw [magnitude?_of_unit hn.ne' he hq, bitsOf]
    split <;> omega
  · have ht : log2Ratio num den < 52 + e := by omega
    obtain rfl := mantissa_of_log2Ratio_lt hn hd hf h (by omega) ht
    exact magnitude?_of_log2Ratio_lt hn hd h (by omega) hgreatest ht

/-! ### Bits -/

section Bits

open Float.Model (Format)
open Float.Model.UnpackedFloat

theorem toNat_unpackExponent (u : UInt64) :
    (@unpackExponent Format.binary64 u.toBitVec).toNat = u.toNat / 2 ^ 52 % 2048 := by
  simp only [unpackExponent, BitVec.toNat_cast, BitVec.extractLsb_toNat, Nat.shiftRight_eq_div_pow]
  rfl

theorem toBits_ofBits {u : UInt64} (h : u.toNat / 2 ^ 52 % 2048 ≠ 2047) :
    (Float.ofBits u).toBits = u := by
  have hexp := toNat_unpackExponent u
  have hvalid : Format.binary64.Valid u.toBitVec := by
    refine ⟨fun hc => ?_⟩
    rw [hc] at hexp
    exact absurd hexp.symm h
  simp only [Float.ofBits, Float.toBits, Float.Model.ofBits, Float.Model.pack]
  exact congrArg UInt64.ofBitVec (pack_unpack_of_valid hvalid)

end Bits

/-- A finite double fits the format, and its bits are those of its mantissa and exponent below
its sign. -/
theorem fits_of_decode {x : Float} {negative : Bool} {m : ℕ} {e : ℤ}
    (h : decode x = .finite negative m e) :
    Fits m e ∧ x.toBits.toNat = (if negative then 2 ^ 63 else 0) + bitsOf m e := by
  have hlt : x.toBits.toNat < 2 ^ 64 := x.toBits.toBitVec.isLt
  unfold decode at h
  simp only [Nat.pow_eq] at h
  generalize x.toBits.toNat = bits at h hlt ⊢
  -- sign, exponent and fraction of the bits
  have hsplit : bits = bits / 2 ^ 63 * 2 ^ 63 + bits / 2 ^ 52 % 2048 * 2 ^ 52 + bits % 2 ^ 52 := by
    omega
  have hsign : ∀ b : Bool, (bits / 2 ^ 63 == 1) = b →
      bits / 2 ^ 63 * 2 ^ 63 = if b then 2 ^ 63 else 0 := by
    rintro b rfl
    by_cases h : bits / 2 ^ 63 = 1
    · rw [h]
      rfl
    · have h0 : bits / 2 ^ 63 = 0 := by omega
      rw [h0]
      rfl
  split at h
  · split at h <;> simp at h
  · split at h
    · rename_i hb
      simp only [Value.finite.injEq] at h
      obtain ⟨hn, rfl, rfl⟩ := h
      have hm : bits % 2 ^ 52 < 2 ^ 52 := Nat.mod_lt _ (by norm_num)
      refine ⟨⟨by omega, by norm_num, by norm_num, .inr rfl⟩, ?_⟩
      rw [hb, Nat.zero_mul, Nat.add_zero] at hsplit
      rw [bitsOf, if_pos hm, ← hsign negative hn]
      exact hsplit
    · rename_i hb₁ hb₂
      simp only [Value.finite.injEq] at h
      obtain ⟨hn, rfl, rfl⟩ := h
      have hm : bits % 2 ^ 52 < 2 ^ 52 := Nat.mod_lt _ (by norm_num)
      refine ⟨⟨by omega, by omega, by omega, .inl (by omega)⟩, ?_⟩
      generalize bits / 2 ^ 52 % 2048 = biased at hb₁ hb₂ hsplit ⊢
      have hbias : ((biased : ℤ) - 1075 + 1074).toNat + 1 = biased := by omega
      rw [← hsign negative hn, bitsOf, if_neg (Nat.not_lt.2 (Nat.le_add_right _ _)), ← Nat.add_assoc,
        ← Nat.add_assoc, Nat.add_assoc (bits / 2 ^ 63 * 2 ^ 63), ← Nat.succ_mul, Nat.succ_eq_add_one,
        hbias]
      exact hsplit

/-- **A quotient that rounds to a double gives the double.** -/
theorem ofRatio?_of_roundsTo {x : Float} {negative : Bool} {m num den : ℕ} {e : ℤ}
    (hx : decode x = .finite negative m e) (hm : 0 < m) (hd : 0 < den)
    (h : RoundsTo m e ((num : ℚ) / den)) : ofRatio? negative num den = some x := by
  obtain ⟨hf, hbits⟩ := fits_of_decode hx
  rw [ofRatio?, magnitude?_of_roundsTo hf hm hd h, Option.map_some, Nat.pow_eq]
  have : (if negative = true then 2 ^ 63 + bitsOf m e else bitsOf m e) = x.toBits.toNat := by
    rw [hbits]
    split <;> simp
  rw [this, UInt64.ofNat_toNat, Float.ofBits_toBits]

theorem ofRatio?_zero {x : Float} {negative : Bool} {e : ℤ}
    (hx : decode x = .finite negative 0 e) : ofRatio? negative 0 1 = some x := by
  obtain ⟨-, hbits⟩ := fits_of_decode hx
  have : (if negative = true then 2 ^ 63 + 0 else 0) = x.toBits.toNat := by
    rw [hbits, bitsOf, if_pos (Nat.pow_pos two_pos), Nat.add_zero, Nat.add_zero]
  simp only [ofRatio?, magnitude?, if_true, Option.map_some, Nat.pow_eq]
  rw [this, UInt64.ofNat_toNat, Float.ofBits_toBits]

/-! ### Finite doubles -/

/-- The double is a number. -/
def Finite (x : Float) : Prop := ∃ negative m e, decode x = .finite negative m e

theorem finite_zero : Finite 0 := ⟨false, 0, -1074, by decide +kernel⟩

theorem lt_of_magnitude? {num den bits : ℕ} (h : magnitude? num den = some bits) :
    bits < 2047 * 2 ^ 52 := by
  unfold magnitude? at h
  split at h
  · rw [← Option.some.inj h]
    norm_num
  · simp only [Nat.pow_eq] at h
    generalize (if _ < 2 ^ 52 then _ else _ : ℕ) = b at h
    split at h
    · rename_i hb
      exact Option.some.inj h ▸ hb
    · simp at h

theorem decode_ofBits (negative : Bool) {bits : ℕ} (h : bits < 2047 * 2 ^ 52) :
    decode (Float.ofBits (UInt64.ofNat (if negative then Nat.pow 2 63 + bits else bits))) =
      if bits / 2 ^ 52 = 0 then .finite negative (bits % 2 ^ 52) (-1074)
      else .finite negative (2 ^ 52 + bits % 2 ^ 52) ((bits / 2 ^ 52 : ℕ) - 1075) := by
  obtain ⟨sign, hsign⟩ : ∃ sign : ℕ, (if negative then 1 else 0) = sign := ⟨_, rfl⟩
  have hle : sign ≤ 1 := by
    rw [← hsign]
    split <;> omega
  have hall : (if negative then Nat.pow 2 63 + bits else bits) = sign * 2 ^ 63 + bits := by
    rw [← hsign, Nat.pow_eq]
    cases negative <;> simp
  have hu : (UInt64.ofNat (sign * 2 ^ 63 + bits)).toNat = sign * 2 ^ 63 + bits := by
    rw [UInt64.toNat_ofNat']
    omega
  have hnegative : (sign == 1) = negative := by
    rw [← hsign]
    cases negative <;> rfl
  rw [hall]
  unfold decode
  rw [toBits_ofBits (by rw [hu]; omega), hu]
  simp only [Nat.pow_eq]
  rw [show (sign * 2 ^ 63 + bits) / 2 ^ 63 = sign by omega,
    show (sign * 2 ^ 63 + bits) / 2 ^ 52 % 2048 = bits / 2 ^ 52 by omega,
    show (sign * 2 ^ 63 + bits) % 2 ^ 52 = bits % 2 ^ 52 by omega, hnegative,
    if_neg (show ¬ bits / 2 ^ 52 = 2047 by omega)]

theorem decode_of_ofRatio? {negative : Bool} {num den : ℕ} {x : Float}
    (h : ofRatio? negative num den = some x) :
    ∃ m e, decode x = .finite negative m e ∧ (num = 0 → m = 0) := by
  rw [ofRatio?, Option.map_eq_some_iff] at h
  obtain ⟨bits, hbits, rfl⟩ := h
  rw [decode_ofBits negative (lt_of_magnitude? hbits)]
  split
  · refine ⟨_, _, rfl, ?_⟩
    rintro rfl
    obtain rfl : 0 = bits := by simpa [magnitude?] using hbits
    rfl
  · rename_i hbiased
    refine ⟨_, _, rfl, ?_⟩
    rintro rfl
    obtain rfl : 0 = bits := by simpa [magnitude?] using hbits
    exact absurd rfl hbiased

theorem decode_of_ofDecimal? {negative : Bool} {c : ℕ} {k : ℤ} {x : Float}
    (h : ofDecimal? negative c k = some x) :
    ∃ m e, decode x = .finite negative m e ∧ (c = 0 → m = 0) := by
  unfold ofDecimal? at h
  dsimp only at h
  split_ifs at h with hc
  · obtain ⟨m, e, hx, hm⟩ := decode_of_ofRatio? h
    exact ⟨m, e, hx, fun _ => hm rfl⟩
  · obtain ⟨m, e, hx, hm⟩ := decode_of_ofRatio? h
    exact ⟨m, e, hx, fun _ => hm rfl⟩
  · obtain ⟨m, e, hx, -⟩ := decode_of_ofRatio? h
    exact ⟨m, e, hx, fun hzero => absurd hzero hc⟩

theorem finite_of_ofDecimal? {negative : Bool} {c : ℕ} {k : ℤ} {x : Float}
    (h : ofDecimal? negative c k = some x) : Finite x := by
  obtain ⟨m, e, hx, -⟩ := decode_of_ofDecimal? h
  exact ⟨negative, m, e, hx⟩

end Binary64

namespace Decimal

open Binary64

namespace Interval

variable {m : ℕ} {e : ℤ}

theorem den_around_pos (m : ℕ) (e : ℤ) : 0 < (Interval.around m e).den :=
  scaled_pos 1 (2 - e) two_pos one_pos

/-- The bounds of an interval are whole numbers of quarters of the unit. -/
theorem quarters_around (m n : ℕ) (e : ℤ) :
    ((scaled 2 n 1 (2 - e)).1 : ℚ) / (Interval.around m e).den = (n : ℚ) / 4 * (2 : ℚ) ^ e := by
  have hsame : (scaled 2 1 1 (2 - e)).2 = (scaled 2 n 1 (2 - e)).2 := by
    unfold scaled
    split <;> rfl
  have hr := scaled_ratio n 1 (2 - e) two_pos
  rw [← hsame] at hr
  refine hr.trans ?_
  rw [Nat.cast_one, Nat.cast_ofNat, zpow_sub₀ two_ne_zero]
  have hpow : (2 : ℚ) ^ e ≠ 0 := by positivity
  field_simp
  norm_num

theorem low_around (hm : 0 < m) : ((Interval.around m e).low : ℚ) / (Interval.around m e).den =
    (m - gapBelow m e) * (2 : ℚ) ^ e := by
  refine (quarters_around m _ e).trans ?_
  simp only [Nat.pow_eq, gapBelow]
  split
  · rw [Nat.cast_sub (by omega)]
    push_cast
    ring
  · rw [Nat.cast_sub (by omega)]
    push_cast
    ring

theorem high_around : ((Interval.around m e).high : ℚ) / (Interval.around m e).den =
    (m + 1 / 2) * (2 : ℚ) ^ e := by
  refine (quarters_around m _ e).trans ?_
  push_cast
  ring

/-- **The interval of a double holds the numbers that round to it.** -/
theorem holds_around {num den : ℕ} (hm : 0 < m) (hd : 0 < den) :
    (Interval.around m e).holds num den = true ↔ RoundsTo m e ((num : ℚ) / den) := by
  have hdq : (0 : ℚ) < den := by exact_mod_cast hd
  have hidq : (0 : ℚ) < (Interval.around m e).den := by exact_mod_cast den_around_pos m e
  -- the ends of the interval are fractions, so all comparisons are of natural numbers
  have hle₁ : (m - gapBelow m e) * (2 : ℚ) ^ e ≤ (num : ℚ) / den ↔
      (Interval.around m e).low * den ≤ num * (Interval.around m e).den := by
    rw [← low_around hm, div_le_div_iff₀ hidq hdq]
    exact_mod_cast Iff.rfl
  have hle₂ : (num : ℚ) / den ≤ (m + 1 / 2) * (2 : ℚ) ^ e ↔
      num * (Interval.around m e).den ≤ (Interval.around m e).high * den := by
    rw [← high_around, div_le_div_iff₀ hdq hidq]
    exact_mod_cast Iff.rfl
  have hlt₁ : (m - gapBelow m e) * (2 : ℚ) ^ e < (num : ℚ) / den ↔
      (Interval.around m e).low * den < num * (Interval.around m e).den := by
    rw [← low_around hm, div_lt_div_iff₀ hidq hdq]
    exact_mod_cast Iff.rfl
  have hlt₂ : (num : ℚ) / den < (m + 1 / 2) * (2 : ℚ) ^ e ↔
      num * (Interval.around m e).den < (Interval.around m e).high * den := by
    rw [← high_around, div_lt_div_iff₀ hdq hidq]
    exact_mod_cast Iff.rfl
  have hclosed : (Interval.around m e).closed = (m % 2 == 0) := rfl
  unfold Interval.holds
  rw [hclosed]
  by_cases hodd : m % 2 = 1
  · -- the ends of the interval round to the even number beside it
    have hb : (m % 2 == 0) = false := by simp [hodd]
    simp only [hb, Bool.false_eq_true, if_false, Bool.and_eq_true, decide_eq_true_eq]
    rw [← hlt₁, ← hlt₂]
    exact ⟨fun h => ⟨h.1.le, h.2.le, fun _ => h⟩, fun h => h.odd hodd⟩
  · have hb : (m % 2 == 0) = true := by simpa using hodd
    simp only [hb, if_true, Bool.and_eq_true, decide_eq_true_eq]
    rw [← hle₁, ← hle₂]
    exact ⟨fun h => ⟨h.1, h.2, fun h' => absurd h' hodd⟩, fun h => ⟨h.low, h.high⟩⟩

end Interval

end Decimal

end MetricHistory
