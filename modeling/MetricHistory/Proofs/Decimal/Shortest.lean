import MetricHistory.Proofs.Decimal.Rounding

/-!
# The shortest decimal rounds to its double

Seventeen digits are enough for every double: the grid of the last digit is finer than the
interval of the numbers that round to the double (`Decimal.nearest?_isSome`).  So the search for
the shortest decimal succeeds, and what it finds rounds to the double
(`Decimal.shortest_roundsTo`).
-/

namespace MetricHistory

namespace Decimal

open Binary64

/-- The number that a decimal stands for. -/
def value (d : Decimal) : ℚ := d.coefficient * (10 : ℚ) ^ d.exponent

theorem value_eq_zero {d : Decimal} : d.value = 0 ↔ d.coefficient = 0 := by
  have hten : (10 : ℚ) ^ d.exponent ≠ 0 := by positivity
  simp [value, hten]

theorem scaled_value (c : ℕ) (k : ℤ) :
    ((scaled 10 c 1 (-k)).1 : ℚ) / (scaled 10 c 1 (-k)).2 = value ⟨c, k⟩ := by
  rw [scaled_ratio c 1 (-k) (by norm_num), value, zpow_neg]
  simp

theorem value_stripZeros (fuel : ℕ) (d : Decimal) : (stripZeros fuel d).value = d.value := by
  induction fuel generalizing d with
  | zero => rfl
  | succ fuel ih =>
    rw [stripZeros]
    split
    · rename_i h
      rw [ih, value, value]
      have hc : d.coefficient = 10 * (d.coefficient / 10) := by omega
      generalize d.coefficient / 10 = c at hc
      rw [hc, zpow_add_one₀ (by norm_num)]
      push_cast
      ring
    · rfl

/-! ### The first digit -/

theorem ten_zpow_le_two_zpow {k l : ℤ} (h : 100000 * k ≤ 30103 * l) (hl : -2000 ≤ l)
    (hl' : l ≤ 2000) : (10 : ℚ) ^ (k - 1) ≤ (2 : ℚ) ^ l := by
  rcases le_or_gt 0 l with hpos | hneg
  · refine le_of_pow_le_pow_left₀ (by norm_num : 196 ≠ 0) (by positivity) ?_
    calc ((10 : ℚ) ^ (k - 1)) ^ 196 = (10 : ℚ) ^ ((k - 1) * 196) := by
          rw [← zpow_natCast, ← zpow_mul]
          norm_num
      _ ≤ (10 : ℚ) ^ (59 * l) := zpow_le_zpow_right₀ (by norm_num) (by omega)
      _ = ((10 : ℚ) ^ (59 : ℤ)) ^ l := zpow_mul _ _ _
      _ ≤ ((2 : ℚ) ^ (196 : ℤ)) ^ l := zpow_le_zpow_left₀ hpos (by positivity) (by norm_num)
      _ = ((2 : ℚ) ^ l) ^ 196 := by
        rw [← zpow_natCast ((2 : ℚ) ^ l), ← zpow_mul, ← zpow_mul, mul_comm]
        norm_num
  · refine le_of_pow_le_pow_left₀ (by norm_num : 93 ≠ 0) (by positivity) ?_
    calc ((10 : ℚ) ^ (k - 1)) ^ 93 = (10 : ℚ) ^ ((k - 1) * 93) := by
          rw [← zpow_natCast, ← zpow_mul]
          norm_num
      _ ≤ (10 : ℚ) ^ (28 * l) := zpow_le_zpow_right₀ (by norm_num) (by omega)
      _ = (((10 : ℚ) ^ (28 : ℤ)) ^ (-l))⁻¹ := by
        rw [← zpow_mul, ← zpow_neg]
        congr 1
        ring
      _ ≤ (((2 : ℚ) ^ (93 : ℤ)) ^ (-l))⁻¹ := by
        gcongr
        exact zpow_le_zpow_left₀ (by omega) (by positivity) (by norm_num)
      _ = ((2 : ℚ) ^ l) ^ 93 := by
        rw [← zpow_natCast ((2 : ℚ) ^ l), ← zpow_mul, ← zpow_mul, ← zpow_neg]
        congr 1
        push_cast
        ring

theorem ten_zpow_decade_le {num den : ℕ} (hn : 0 < num) (hd : 0 < den)
    (hl : -2000 ≤ log2Ratio num den) (hl' : log2Ratio num den ≤ 2000) :
    (10 : ℚ) ^ decade num den ≤ (num : ℚ) / den := by
  have hk : 100000 * ((log2Ratio num den * 30103).fdiv 100000) ≤ 30103 * log2Ratio num den := by
    have := Int.mul_fdiv_add_fmod (log2Ratio num den * 30103) 100000
    have := Int.fmod_nonneg_of_pos (log2Ratio num den * 30103) (by norm_num : (0 : ℤ) < 100000)
    omega
  have hlast := ten_zpow_le_two_zpow hk hl hl'
  have hten : 0 < 10 := by norm_num
  unfold decade
  simp only [decide_eq_true_eq]
  split
  · rename_i h
    exact (scaled_le_iff _ hten hd).1 h
  · split
    · rename_i h
      exact (scaled_le_iff _ hten hd).1 h
    · exact hlast.trans (log2Ratio_bounds hn hd).1

/-! ### The search -/

variable {m num den : ℕ} {e k : ℤ} {d : Decimal}

theorem roundsTo_of_nearest? (hm : 0 < m)
    (h : nearest? (Interval.around m e) num den k = some d) : RoundsTo m e d.value := by
  have hinside : ∀ c : ℕ, (Interval.around m e).holds (scaled 10 c 1 (-k)).1
      (scaled 10 c 1 (-k)).2 = true → RoundsTo m e (value ⟨c, k⟩) := by
    intro c hc
    rw [← scaled_value]
    exact (Interval.holds_around hm (scaled_pos c (-k) (by norm_num) one_pos)).1 hc
  unfold nearest? at h
  simp only at h
  split at h
  · rename_i h₁ h₂
    simp only [Option.some.injEq] at h
    subst h
    split
    · exact hinside _ h₁
    · exact hinside _ h₂
  · rename_i h₁ h₂
    simp only [Option.some.injEq] at h
    exact h ▸ hinside _ h₁
  · rename_i h₁ h₂
    simp only [Option.some.injEq] at h
    exact h ▸ hinside _ h₂
  · simp at h

/-- A grid that is finer than the interval has a point in it. -/
theorem nearest?_isSome (hm : 0 < m) (hd : 0 < den)
    (hv : (num : ℚ) / den = m * (2 : ℚ) ^ e)
    (hgrid : (10 : ℚ) ^ k < (gapBelow m e + 1 / 2) * (2 : ℚ) ^ e) :
    (nearest? (Interval.around m e) num den k).isSome = true := by
  by_contra hnone
  have hten : (0 : ℚ) < (10 : ℚ) ^ k := by positivity
  have hpow : (0 : ℚ) < (2 : ℚ) ^ e := by positivity
  have hgap : 0 < gapBelow m e := by
    unfold gapBelow
    split <;> norm_num
  have hpos := scaled_pos num k (by norm_num : 0 < 10) hd
  have hratio := scaled_ratio num den k (by norm_num : 0 < 10)
  unfold nearest? at hnone
  generalize scaled 10 num den k = s at hnone hpos hratio
  obtain ⟨n, s⟩ := s
  simp only at hnone hpos hratio
  have hsq : (0 : ℚ) < s := by exact_mod_cast hpos
  -- the double lies between the two grid points
  have hdiv : s * (n / s) + n % s = n := Nat.div_add_mod n s
  have hmod : n % s < s := Nat.mod_lt n hpos
  rw [hv, Nat.cast_ofNat, eq_div_iff hten.ne', div_mul_eq_mul_div, div_eq_iff hsq.ne'] at hratio
  have hq₁ : ((n / s : ℕ) : ℚ) * (10 : ℚ) ^ k ≤ m * (2 : ℚ) ^ e := by
    have : (s : ℚ) * (n / s : ℕ) ≤ n := by exact_mod_cast Nat.mul_div_le n s
    nlinarith
  have hq₂ : m * (2 : ℚ) ^ e < ((n / s : ℕ) + 1) * (10 : ℚ) ^ k := by
    have : (n : ℚ) < s * ((n / s : ℕ) + 1) := by
      exact_mod_cast (by rw [Nat.mul_add, Nat.mul_one]; omega : n < s * (n / s + 1))
    nlinarith
  have hout : ∀ c : ℕ, (Interval.around m e).holds (scaled 10 c 1 (-k)).1
      (scaled 10 c 1 (-k)).2 = false → ¬ RoundsTo m e (value ⟨c, k⟩) := by
    intro c hc h
    rw [← scaled_value] at h
    rw [(Interval.holds_around hm (scaled_pos c (-k) (by norm_num) one_pos)).2 h] at hc
    simp at hc
  split at hnone
  · simp at hnone
  · simp at hnone
  · simp at hnone
  · rename_i h₁ h₂
    -- both points lie outside, so the grid is as wide as the interval
    have hlow : ((n / s : ℕ) : ℚ) * (10 : ℚ) ^ k ≤ (m - gapBelow m e) * (2 : ℚ) ^ e := by
      by_contra hc
      exact hout _ h₁ ⟨(not_le.1 hc).le, by simp only [value]; nlinarith,
        fun _ => ⟨not_le.1 hc, by simp only [value]; nlinarith⟩⟩
    have hhigh : (m + 1 / 2) * (2 : ℚ) ^ e ≤ ((n / s : ℕ) + 1) * (10 : ℚ) ^ k := by
      by_contra hc
      have hc' := not_le.1 hc
      refine hout _ h₂ ⟨?_, ?_, fun _ => ⟨?_, ?_⟩⟩ <;> simp only [value] <;> push_cast <;> nlinarith
    nlinarith

theorem search_of_isSome {i : Interval} {fuel j : ℕ} (hj : j < fuel)
    (h : (nearest? i num den (k - j)).isSome = true) :
    ∃ k', nearest? i num den k' = some (search i num den fuel k) := by
  induction fuel generalizing k j with
  | zero => omega
  | succ fuel ih =>
    rw [search]
    cases hk : nearest? i num den k with
    | some d => exact ⟨k, by rw [hk, Option.getD_some]⟩
    | none =>
      cases j with
      | zero =>
        rw [Nat.cast_zero, sub_zero, hk] at h
        simp at h
      | succ j =>
        rw [Option.getD_none]
        refine ih (Nat.lt_of_succ_lt_succ hj) ?_
        rwa [sub_sub, add_comm (1 : ℤ), ← Nat.cast_succ]

/-- **The shortest decimal of a double rounds to it.** -/
theorem shortest_roundsTo (hm : 0 < m) (hf : Fits m e) : RoundsTo m e (shortest m e).value := by
  have hden := scaled_pos m (-e) two_pos one_pos
  have hratio := scaled_ratio m 1 (-e) two_pos
  unfold shortest
  rw [if_neg hm.ne']
  generalize scaled 2 m 1 (-e) = s at hden hratio
  obtain ⟨num, den⟩ := s
  simp only at hden hratio ⊢
  have hv : (num : ℚ) / den = m * (2 : ℚ) ^ e := by
    rw [hratio, zpow_neg]
    simp
  have hm₁ : (1 : ℚ) ≤ m := by exact_mod_cast hm
  have hm₂ : (m : ℚ) < 2 ^ 53 := by exact_mod_cast hf.mantissa
  have hpow : (0 : ℚ) < (2 : ℚ) ^ e := by positivity
  have hnum : 0 < num := by
    rcases Nat.eq_zero_or_pos num with rfl | h
    · rw [Nat.cast_zero, zero_div] at hv
      nlinarith
    · exact h
  have hleast := hf.least
  have hgreatest := hf.greatest
  have hl₁ : ¬ log2Ratio num den < e := by
    rw [log2Ratio_lt_iff hnum hden, hv, not_lt]
    exact le_mul_of_one_le_left hpow.le hm₁
  have hl₂ : log2Ratio num den < 53 + e := by
    rw [log2Ratio_lt_iff hnum hden, hv]
    refine (mul_lt_mul_of_pos_right hm₂ hpow).trans_eq ?_
    exact (two_zpow_add 53 e).symm
  have hdecade := ten_zpow_decade_le hnum hden (by omega) (by omega)
  -- the grid of the seventeenth digit is finer than the interval
  have hgrid : (10 : ℚ) ^ (decade num den - (16 : ℕ)) < (gapBelow m e + 1 / 2) * (2 : ℚ) ^ e := by
    rw [zpow_sub₀ (by norm_num), div_lt_iff₀ (by positivity)]
    refine lt_of_le_of_lt (hdecade.trans_eq hv) ?_
    rw [mul_right_comm]
    gcongr
    unfold gapBelow
    split
    · rename_i h
      rw [h.1]
      norm_num
    · refine hm₂.trans ?_
      norm_num
  obtain ⟨k', hk'⟩ := search_of_isSome (by norm_num : 16 < 17) (nearest?_isSome hm hden hv hgrid)
  rw [value_stripZeros]
  exact roundsTo_of_nearest? hm hk'

end Decimal

end MetricHistory
