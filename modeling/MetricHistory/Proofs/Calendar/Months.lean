import MetricHistory.Proofs.Decimal.Notation
import MetricHistory.Snapshot.Schedule

/-!
# Months and their labels

Months are counted from January of year 0 (`Schedule.monthNumber`).  Days, months and the texts of
months are in the same order.

* `Date.toDays_first_lt` : the first days of two months are in the order of the months;
* `Date.toDays_first_le` and `Date.lt_toDays_first` : the day with a given number lies between the
  first day of its month and that of the next one, so `Date.ofDays` finds the month of a day;
* `Date.yearMonth_before` : **labels of the years 0 to 9999 are in the order of their months.**
-/

namespace MetricHistory

open Literal (Digits)

/-! ### The order of texts -/

namespace Text

/-- The text stands strictly before another in byte order. -/
def Before (a b : Text) : Prop := le a b = true ∧ a ≠ b

instance (a b : Text) : Decidable (Before a b) := inferInstanceAs (Decidable (_ ∧ _))

theorem Before.cons {a b : Text} (h : Before a b) (x : UInt8) : Before (x :: a) (x :: b) :=
  ⟨by simp [le, h.1], by simpa using h.2⟩

theorem before_of_lt {x y : UInt8} (h : x < y) (a b : Text) : Before (x :: a) (y :: b) := by
  refine ⟨by simp [le, h], fun heq => ?_⟩
  rw [(List.cons.inj heq).1] at h
  exact UInt8.lt_irrefl y h

theorem Before.append_left {a b : Text} (h : Before a b) (s : Text) : Before (s ++ a) (s ++ b) := by
  induction s with
  | nil => exact h
  | cons x s ih => exact ih.cons x

theorem Before.append_right {a b : Text} (h : Before a b) (hl : a.length = b.length) (s t : Text) :
    Before (a ++ s) (b ++ t) := by
  induction a generalizing b with
  | nil => exact absurd (List.length_eq_zero_iff.1 hl.symm).symm h.2
  | cons x a ih =>
    obtain _ | ⟨y, b⟩ := b
    · simp at hl
    obtain ⟨hle, hne⟩ := h
    simp only [le, Bool.or_eq_true, decide_eq_true_eq, Bool.and_eq_true, beq_iff_eq] at hle
    rcases hle with hlt | ⟨rfl, hle⟩
    · exact before_of_lt hlt _ _
    · exact (ih ⟨hle, by simpa using hne⟩ (by simpa using hl)).cons x

theorem before_of_numeral_lt {a b : Text} (ha : Digits a) (hb : Digits b)
    (hl : a.length = b.length) (h : numeral a < numeral b) : Before a b := by
  induction a generalizing b with
  | nil =>
    rw [List.length_eq_zero_iff.1 hl.symm] at h
    simp at h
  | cons x a ih =>
    obtain _ | ⟨y, b⟩ := b
    · simp at hl
    have hlen : a.length = b.length := by simpa using hl
    have hx := ha x (by simp)
    have hy := hb y (by simp)
    simp only [isDigit, Bool.and_eq_true, decide_eq_true_eq] at hx hy
    have hx48 : 48 ≤ x.toNat := UInt8.le_iff_toNat_le.1 hx.1
    have hy48 : 48 ≤ y.toNat := UInt8.le_iff_toNat_le.1 hy.1
    have ha' : Digits a := fun c hc => ha c (List.mem_cons_of_mem x hc)
    have hb' : Digits b := fun c hc => hb c (List.mem_cons_of_mem y hc)
    have hfront : ∀ (c : UInt8) (s : Text),
        numeral (c :: s) = (c.toNat - 48) * 10 ^ s.length + numeral s := by
      intro c s
      have hc := numeral_append [c] s
      rwa [List.singleton_append, show numeral [c] = c.toNat - 48 by simp [numeral]] at hc
    have hlow := numeral_lt hb'
    rw [hfront, hfront, hlen] at h
    rcases Nat.lt_trichotomy x.toNat y.toNat with hlt | heq | hgt
    · exact before_of_lt (UInt8.lt_iff_toNat_lt.2 hlt) a b
    · obtain rfl := UInt8.toNat_inj.1 heq
      exact (ih ha' hb' hlen (by omega)).cons x
    · have hstep : (y.toNat - 48 + 1) * 10 ^ b.length ≤ (x.toNat - 48) * 10 ^ b.length :=
        Nat.mul_le_mul_right _ (by omega)
      rw [Nat.add_mul] at hstep
      omega

theorem length_ofNat_le {n w : ℕ} (h : n < 10 ^ w) (hw : 0 < w) : (ofNat n).length ≤ w := by
  induction w generalizing n with
  | zero => omega
  | succ w ih =>
    rcases Nat.lt_or_ge n 10 with hlt | hge
    · rw [ofNat_of_lt hlt]
      simp
    · have hw' : 0 < w := by
        rcases Nat.eq_zero_or_pos w with rfl | hw'
        · omega
        · exact hw'
      have hdiv : n / 10 < 10 ^ w := by
        rw [pow_succ] at h
        omega
      rw [ofNat_of_le hge, List.length_append, ofNat_of_lt (Nat.mod_lt n (by norm_num))]
      have := ih hdiv hw'
      simp only [List.length_cons, List.length_nil]
      omega

theorem ofNatPadded_facts {n w : ℕ} (h : n < 10 ^ w) (hw : 0 < w) :
    Digits (ofNatPadded w n) ∧ (ofNatPadded w n).length = w ∧ numeral (ofNatPadded w n) = n := by
  have hle := length_ofNat_le h hw
  refine ⟨fun b hb => ?_, ?_, ?_⟩
  · rcases List.mem_append.1 hb with hb | hb
    · exact digits_zeros _ b hb
    · exact digits_ofNat n b hb
  · simp only [ofNatPadded, List.length_append, List.length_replicate]
    omega
  · simp only [ofNatPadded]
    rw [numeral_append, numeral_zeros, numeral_ofNat]
    omega

theorem ofNatPadded_before {w a b : ℕ} (hw : 0 < w) (h : a < b) (hb : b < 10 ^ w) :
    Before (ofNatPadded w a) (ofNatPadded w b) := by
  obtain ⟨ha₁, ha₂, ha₃⟩ := ofNatPadded_facts (h.trans hb) hw
  obtain ⟨hb₁, hb₂, hb₃⟩ := ofNatPadded_facts hb hw
  exact before_of_numeral_lt ha₁ hb₁ (ha₂.trans hb₂.symm) (by rwa [ha₃, hb₃])

end Text

/-! ### The days of months -/

namespace Date

open Schedule (monthNumber)

/-- The days from March of year 0 to March of a year. -/
def yearStart (y : Int) : Int := 365 * y + y / 4 - y / 100 + y / 400

theorem yearStart_era (y : Int) :
    y / 400 * 146097 + (y % 400 * 365 + y % 400 / 4 - y % 400 / 100) = yearStart y := by
  have h₄ : y / 4 = 100 * (y / 400) + y % 400 / 4 := by omega
  have h₁₀₀ : y / 100 = 4 * (y / 400) + y % 400 / 100 := by omega
  unfold yearStart
  omega

theorem toDays_first (m : Int) :
    (firstOfMonth m).toDays =
      yearStart ((m - 2) / 12) + (153 * ((m - 2) % 12) + 2) / 5 - epochShift := by
  have hmonth : ((m % 12).toNat : Int) = m % 12 := by omega
  have hyear : (if (firstOfMonth m).month ≤ 2 then (firstOfMonth m).year - 1
      else (firstOfMonth m).year) = (m - 2) / 12 := by
    have hy : (firstOfMonth m).year = m / 12 := rfl
    have hm : (firstOfMonth m).month = (m % 12).toNat + 1 := rfl
    split <;> omega
  have hmarch : (((firstOfMonth m).month : Int) + 9) % 12 = (m - 2) % 12 := by
    simp only [firstOfMonth]
    omega
  have hday : ((firstOfMonth m).day : Int) = 1 := rfl
  simp only [toDays, hyear, hmarch, hday, ← yearStart_era]
  omega

theorem yearStart_lt (y : Int) : yearStart y + 365 ≤ yearStart (y + 1) := by
  have h₁₀₀ : (y + 1) / 100 - y / 100 ≤ (y + 1) / 4 - y / 4 := by omega
  unfold yearStart
  omega

/-- A year has at most 366 days. -/
theorem yearStart_succ_le (y : Int) : yearStart (y + 1) ≤ yearStart y + 366 := by
  unfold yearStart
  omega

/-- Every 400 years are as long as the others. -/
theorem yearStart_shift (y era : Int) : yearStart (y + era * 400) = yearStart y + era * 146097 := by
  unfold yearStart
  omega

theorem yearStart_of_lt {y : Int} (h₀ : 0 ≤ y) (h : y < 400) :
    yearStart y = 365 * y + y / 4 - y / 100 := by
  unfold yearStart
  omega

theorem toDays_first_lt_succ (m : Int) : (firstOfMonth m).toDays < (firstOfMonth (m + 1)).toDays := by
  have hstart := yearStart_lt ((m - 2) / 12)
  rw [toDays_first, toDays_first]
  rcases lt_or_ge ((m - 2) % 12) 11 with hm | hm
  · rw [show (m + 1 - 2) / 12 = (m - 2) / 12 by omega,
      show (m + 1 - 2) % 12 = (m - 2) % 12 + 1 by omega]
    omega
  · rw [show (m + 1 - 2) / 12 = (m - 2) / 12 + 1 by omega, show (m + 1 - 2) % 12 = 0 by omega,
      show (m - 2) % 12 = 11 by omega]
    omega

/-- The first days of months are in the order of the months. -/
theorem toDays_first_lt {m n : Int} (h : m < n) :
    (firstOfMonth m).toDays < (firstOfMonth n).toDays := by
  obtain ⟨k, rfl⟩ : ∃ k : ℕ, n = m + 1 + k := ⟨(n - m - 1).toNat, by omega⟩
  induction k with
  | zero => simpa using toDays_first_lt_succ m
  | succ k ih =>
    refine (ih (by omega)).trans ?_
    rw [show m + 1 + ((k + 1 : ℕ) : Int) = m + 1 + k + 1 by omega]
    exact toDays_first_lt_succ _

/-- A day of a period of 400 years lies in a century, four years, a year and on a day of it.  Only
the last of four years has a leap day, and of centuries the last only. -/
theorem exists_parts {d : Int} (h₀ : 0 ≤ d) (h₁ : d < 146097) :
    ∃ c q s r : Int, d = 36524 * c + 1461 * q + 365 * s + r ∧ 0 ≤ c ∧ c ≤ 3 ∧ 0 ≤ q ∧ q ≤ 24 ∧
      0 ≤ s ∧ s ≤ 3 ∧ 0 ≤ r ∧ r ≤ 365 ∧ (r = 365 → s = 3 ∧ (q = 24 → c = 3)) := by
  obtain ⟨c, hc⟩ : ∃ c, c = min (d / 36524) 3 := ⟨_, rfl⟩
  obtain ⟨q, hq⟩ : ∃ q, q = min ((d - 36524 * c) / 1461) 24 := ⟨_, rfl⟩
  obtain ⟨s, hs⟩ : ∃ s, s = min ((d - 36524 * c - 1461 * q) / 365) 3 := ⟨_, rfl⟩
  refine ⟨c, q, s, d - 36524 * c - 1461 * q - 365 * s, by omega, ?_⟩
  omega

/-- The year of a day in a period of 400 years, counted from March. -/
def yearOfEra (d : Int) : Int := (d - d / 1460 + d / 36524 - d / 146096) / 365

theorem yearOfEra_bounds {d : Int} (h₀ : 0 ≤ d) (h₁ : d < 146097) :
    0 ≤ yearOfEra d ∧ yearOfEra d < 400 ∧ yearStart (yearOfEra d) ≤ d ∧
      d < yearStart (yearOfEra d + 1) := by
  obtain ⟨c, q, s, r, hd, hc₀, hc₃, hq₀, hq, hs₀, hs₃, hr₀, hr, hleap⟩ := exists_parts h₀ h₁
  have hyear : yearOfEra d = 100 * c + 4 * q + s := by
    have hfour : d / 1460 = 25 * c + q + (24 * c + q + 365 * s + r) / 1460 := by omega
    unfold yearOfEra
    by_cases hlast : d = 146096
    · subst hlast
      omega
    · have hcentury : d / 36524 = c := by omega
      have hera : d / 146096 = 0 := by omega
      rw [hfour, hcentury, hera]
      omega
  have h₄ : yearOfEra d / 4 = 25 * c + q := by omega
  have h₁₀₀ : yearOfEra d / 100 = c := by omega
  refine ⟨by omega, by omega, ?_, ?_⟩
  · unfold yearStart
    omega
  · have h₄' : (yearOfEra d + 1) / 4 = 25 * c + q + (s + 1) / 4 := by omega
    have h₁₀₀' : (yearOfEra d + 1) / 100 = c + (4 * q + s + 1) / 100 := by omega
    unfold yearStart
    rw [h₄', h₁₀₀', hyear]
    rcases lt_or_ge s 3 with hs | hs
    · rw [show (s + 1) / 4 = 0 by omega, show (4 * q + s + 1) / 100 = 0 by omega]
      omega
    · rw [show (s + 1) / 4 = 1 by omega]
      rcases lt_or_ge q 24 with hq' | hq'
      · rw [show (4 * q + s + 1) / 100 = 0 by omega]
        omega
      · rw [show (4 * q + s + 1) / 100 = 1 by omega]
        omega

/-- The month that the day with a given number lies in. -/
theorem monthNumber_ofDays (z : Int) :
    ∃ y k, monthNumber (ofDays z) = 12 * y + k + 2 ∧ 0 ≤ k ∧ k ≤ 11 ∧
      yearStart y + (153 * k + 2) / 5 ≤ z + epochShift ∧
        (k < 11 → z + epochShift < yearStart y + (153 * (k + 1) + 2) / 5) ∧
          z + epochShift < yearStart (y + 1) := by
  have h₀ : 0 ≤ (z + epochShift) % 146097 := by omega
  have h₁ : (z + epochShift) % 146097 < 146097 := by omega
  have hsplit : z + epochShift = (z + epochShift) / 146097 * 146097 + (z + epochShift) % 146097 := by
    omega
  obtain ⟨hy₀, hy, hlow, hhigh⟩ := yearOfEra_bounds h₀ h₁
  have hstart := yearStart_of_lt hy₀ hy
  generalize hera : (z + epochShift) / 146097 = era at *
  generalize hday : (z + epochShift) % 146097 = d at *
  generalize hyear : yearOfEra d = y at *
  have hnext := yearStart_succ_le y
  refine ⟨y + era * 400, (5 * (d - yearStart y) + 2) / 153, ?_, by omega, by omega, ?_, ?_, ?_⟩
  · have hyoe : (d - d / 1460 + d / 36524 - d / 146096) / 365 = y := hyear
    simp only [monthNumber, ofDays, hera, hday, hyoe, ← hstart]
    split <;> split <;> omega
  · rw [yearStart_shift]
    omega
  · intro hk
    rw [yearStart_shift]
    omega
  · rw [show y + era * 400 + 1 = y + 1 + era * 400 by omega, yearStart_shift]
    omega

/-- A day comes on or after the first day of its month. -/
theorem toDays_first_le (z : Int) : (firstOfMonth (monthNumber (ofDays z))).toDays ≤ z := by
  obtain ⟨y, k, hm, hk₀, hk, hlow, -, -⟩ := monthNumber_ofDays z
  rw [hm, toDays_first, show (12 * y + k + 2 - 2) / 12 = y by omega,
    show (12 * y + k + 2 - 2) % 12 = k by omega]
  omega

/-- A day comes before the first day of the next month. -/
theorem lt_toDays_first (z : Int) : z < (firstOfMonth (monthNumber (ofDays z) + 1)).toDays := by
  obtain ⟨y, k, hm, hk₀, hk, -, hhigh, hyear⟩ := monthNumber_ofDays z
  rw [hm, toDays_first]
  rcases lt_or_ge k 11 with hk' | hk'
  · have := hhigh hk'
    rw [show (12 * y + k + 2 + 1 - 2) / 12 = y by omega,
      show (12 * y + k + 2 + 1 - 2) % 12 = k + 1 by omega]
    omega
  · rw [show (12 * y + k + 2 + 1 - 2) / 12 = y + 1 by omega,
      show (12 * y + k + 2 + 1 - 2) % 12 = 0 by omega]
    omega

theorem le_monthNumber_iff {m z : Int} :
    m ≤ monthNumber (ofDays z) ↔ (firstOfMonth m).toDays ≤ z := by
  constructor
  · intro h
    rcases h.lt_or_eq with hlt | rfl
    · exact (toDays_first_lt hlt).le.trans (toDays_first_le z)
    · exact toDays_first_le z
  · intro h
    by_contra hlt
    have hnext : (firstOfMonth (monthNumber (ofDays z) + 1)).toDays ≤ (firstOfMonth m).toDays := by
      rcases (show monthNumber (ofDays z) + 1 ≤ m by omega).lt_or_eq with hlt | heq
      · exact (toDays_first_lt hlt).le
      · rw [heq]
    exact absurd (lt_toDays_first z) (by omega)

theorem monthNumber_ofDays_first (m : Int) : monthNumber (ofDays (firstOfMonth m).toDays) = m := by
  have hge := le_monthNumber_iff.2 (le_refl (firstOfMonth m).toDays)
  by_contra hne
  have hlt := toDays_first_lt (show m < monthNumber (ofDays (firstOfMonth m).toDays) by omega)
  exact absurd (toDays_first_le (firstOfMonth m).toDays) (by omega)

/-! ### Labels -/

theorem month_ofDays (z : Int) : 1 ≤ (ofDays z).month ∧ (ofDays z).month ≤ 12 := by
  have h₀ : 0 ≤ (z + epochShift) % 146097 := by omega
  have h₁ : (z + epochShift) % 146097 < 146097 := by omega
  obtain ⟨hy₀, hy, hlow, hhigh⟩ := yearOfEra_bounds h₀ h₁
  simp only [ofDays]
  generalize (z + epochShift) % 146097 = d at *
  rw [show (d - d / 1460 + d / 36524 - d / 146096) / 365 = yearOfEra d from rfl]
  generalize yearOfEra d = y at *
  have hnext := yearStart_succ_le y
  rw [← yearStart_of_lt hy₀ hy]
  split <;> omega

theorem yearMonth_ofDays (z : Int) :
    (ofDays z).yearMonth = (firstOfMonth (monthNumber (ofDays z))).yearMonth := by
  obtain ⟨h₁, h₂⟩ := month_ofDays z
  have hyear : (firstOfMonth (monthNumber (ofDays z))).year = (ofDays z).year := by
    simp only [firstOfMonth, monthNumber]
    omega
  have hmonth : (firstOfMonth (monthNumber (ofDays z))).month = (ofDays z).month := by
    simp only [firstOfMonth, monthNumber]
    omega
  rw [yearMonth, yearMonth, hyear, hmonth]

/-- **Labels of the years 0 to 9999 are in the order of their months.** -/
theorem yearMonth_before {m n : Int} (hm : 0 ≤ m) (h : m < n) (hn : n < 120000) :
    Text.Before (firstOfMonth m).yearMonth (firstOfMonth n).yearMonth := by
  have hyear : ∀ k : Int, 0 ≤ k → padded 4 (firstOfMonth k).year = Text.ofNatPadded 4 (k / 12).toNat := by
    intro k hk
    have hy : (firstOfMonth k).year = k / 12 := rfl
    rw [hy, padded, if_neg (by omega), show (k / 12).natAbs = (k / 12).toNat by omega]
  rw [yearMonth, yearMonth, hyear m hm, hyear n (by omega), List.append_assoc, List.append_assoc]
  rcases (show m / 12 ≤ n / 12 by omega).lt_or_eq with hlt | heq
  · -- the years differ, and so do the labels before the hyphen
    refine (Text.ofNatPadded_before (by norm_num) (by omega) (by omega)).append_right ?_ _ _
    rw [(Text.ofNatPadded_facts (w := 4) (n := (m / 12).toNat) (by omega) (by norm_num)).2.1,
      (Text.ofNatPadded_facts (w := 4) (n := (n / 12).toNat) (by omega) (by norm_num)).2.1]
  · rw [heq]
    refine Text.Before.append_left (Text.Before.append_left ?_ _) _
    refine Text.ofNatPadded_before (by norm_num) ?_ ?_
    · simp only [firstOfMonth]
      omega
    · simp only [firstOfMonth]
      omega

end Date

end MetricHistory
