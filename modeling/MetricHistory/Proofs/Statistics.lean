import Mathlib
import MetricHistory.Proofs.Decimal.Range
import MetricHistory.Statistics

/-!
# Ranks of percentiles

* `percentileIndex?_eq` : the index of a percentile is a quotient that stays inside the list, as long
  as the product in it is no overflow.
* `le_countP_le` and `le_countP_ge` : how many elements of an ascending list an element is as large as,
  and as small as, by its index.
* `percentile?_ranks` : **a percentile is an element with its share of the list on both sides, and
  does not fall when the share grows.**
-/

namespace MetricHistory

variable {n p q : ℕ}

/-! ### The index -/

theorem percentileIndex?_eq (hn : n * 100 < 2 ^ 63) (hp : p ≤ 100) :
    percentileIndex? p n = some (min (p * n / 100) (n - 1)) := by
  have hle : p * n ≤ n * 100 := by
    rw [Nat.mul_comm n]
    exact Nat.mul_le_mul_right n hp
  have hsame : wrap64 ((p : ℤ) * n) = (p * n : ℕ) := by
    rw [← Nat.cast_mul, wrap64_eq_self_iff, minInt64, maxInt64]
    generalize p * n = product at hle ⊢
    omega
  have hquotient : ((p * n : ℕ) : ℤ).tdiv 100 = ((p * n / 100 : ℕ) : ℤ) := by
    rw [Int.tdiv_eq_ediv_of_nonneg (Int.natCast_nonneg _)]
    exact (Int.natCast_div _ _).symm
  rw [percentileIndex?, hsame, hquotient]
  simp only [Int.toNat_natCast]
  rw [if_neg (Int.natCast_nonneg _).not_gt]

theorem rank_bounds (hn : 0 < n) (hp : p ≤ 100) :
    p * n ≤ 100 * (min (p * n / 100) (n - 1) + 1) ∧
      (100 - p) * n ≤ 100 * (n - min (p * n / 100) (n - 1)) := by
  have hle : p * n ≤ 100 * n := Nat.mul_le_mul_right n hp
  rw [Nat.sub_mul]
  omega

theorem rank_mono (hpq : p ≤ q) :
    min (p * n / 100) (n - 1) ≤ min (q * n / 100) (n - 1) :=
  min_le_min_right _ (Nat.div_le_div_right (Nat.mul_le_mul_right n hpq))

/-! ### Ascending lists -/

section Ascending

variable {α : Type} [LE α] {l : List α}

/-- In an ascending list of values that are comparable with themselves, a later one is as large as an
earlier one. -/
theorem getElem_le_getElem (hsorted : l.Pairwise (· ≤ ·)) (hself : ∀ x ∈ l, x ≤ x) {i j : ℕ}
    (hij : i ≤ j) (hj : j < l.length) : l[i] ≤ l[j] := by
  rcases Nat.lt_or_eq_of_le hij with hlt | rfl
  · exact List.pairwise_iff_getElem.1 hsorted i j _ hj hlt
  · exact hself _ (List.getElem_mem hj)

variable [DecidableLE α]

theorem le_countP_le (hsorted : l.Pairwise (· ≤ ·)) (hself : ∀ x ∈ l, x ≤ x) {i : ℕ}
    (hi : i < l.length) : i + 1 ≤ l.countP (· ≤ l[i]) := by
  have hfront : (l.take (i + 1)).countP (· ≤ l[i]) = i + 1 := by
    rw [List.countP_eq_length.2, List.length_take_of_le hi]
    intro x hx
    obtain ⟨j, hj, rfl⟩ := List.mem_take_iff_getElem.1 hx
    exact decide_eq_true (getElem_le_getElem hsorted hself (by omega) hi)
  rw [← hfront]
  exact (List.take_sublist _ _).countP_le

theorem le_countP_ge (hsorted : l.Pairwise (· ≤ ·)) (hself : ∀ x ∈ l, x ≤ x) {i : ℕ}
    (hi : i < l.length) : l.length - i ≤ l.countP (l[i] ≤ ·) := by
  have hback : (l.drop i).countP (l[i] ≤ ·) = l.length - i := by
    rw [List.countP_eq_length.2, List.length_drop]
    intro x hx
    obtain ⟨j, hj, rfl⟩ := List.mem_drop_iff_getElem.1 hx
    exact decide_eq_true (getElem_le_getElem hsorted hself (Nat.le_add_right i j) _)
  rw [← hback]
  exact (List.drop_sublist _ _).countP_le

end Ascending

/-! ### Percentiles -/

variable {α : Type} {l : List α}

theorem exists_percentile? (empty : α) (hne : l ≠ []) (hlen : l.length * 100 < 2 ^ 63)
    (hp : p ≤ 100) : ∃ h : min (p * l.length / 100) (l.length - 1) < l.length,
      percentileIndex? p l.length = some (min (p * l.length / 100) (l.length - 1)) ∧
        percentile? empty l p = some l[min (p * l.length / 100) (l.length - 1)] := by
  have hpos : 0 < l.length := List.length_pos_iff.2 hne
  have hindex := percentileIndex?_eq hlen hp
  refine ⟨by omega, hindex, ?_⟩
  rw [percentile?, List.isEmpty_eq_false_iff.2 hne, hindex]
  exact List.getElem?_eq_getElem _

/-- **The `p`-th percentile of an ascending list is an element that `p` percent of the elements do not
exceed and that does not exceed `100 - p` percent of them, and it does not fall when `p` grows.**  Of
the order only what an ascending list says is used, and that its values are comparable with
themselves, as all doubles but "not a number" are. -/
theorem percentile?_ranks [LE α] [DecidableLE α] (empty : α) (hne : l ≠ [])
    (hsorted : l.Pairwise (· ≤ ·)) (hself : ∀ x ∈ l, x ≤ x) (hlen : l.length * 100 < 2 ^ 63) :
    (∀ p : ℕ, p ≤ 100 → ∃ i v, percentileIndex? p l.length = some i ∧ i < l.length ∧
        l[i]? = some v ∧ percentile? empty l p = some v ∧
          p * l.length ≤ 100 * l.countP (· ≤ v) ∧
            (100 - p) * l.length ≤ 100 * l.countP (v ≤ ·)) ∧
      ∀ p q : ℕ, p ≤ q → q ≤ 100 → ∀ v w, percentile? empty l p = some v →
        percentile? empty l q = some w → v ≤ w := by
  have hpos : 0 < l.length := List.length_pos_iff.2 hne
  constructor
  · intro p hp
    obtain ⟨hi, hindex, hvalue⟩ := exists_percentile? empty hne hlen hp
    obtain ⟨hbelow, habove⟩ := rank_bounds hpos hp
    refine ⟨_, _, hindex, hi, List.getElem?_eq_getElem hi, hvalue, ?_, ?_⟩
    · exact hbelow.trans (Nat.mul_le_mul_left 100 (le_countP_le hsorted hself hi))
    · exact habove.trans (Nat.mul_le_mul_left 100 (le_countP_ge hsorted hself hi))
  · intro p q hpq hq v w hv hw
    obtain ⟨hi, -, hvalue⟩ := exists_percentile? empty hne hlen (hpq.trans hq)
    obtain ⟨hj, -, hvalue'⟩ := exists_percentile? empty hne hlen hq
    obtain rfl := Option.some.inj (hvalue.symm.trans hv)
    obtain rfl := Option.some.inj (hvalue'.symm.trans hw)
    exact getElem_le_getElem hsorted hself (rank_mono hpq) hj

/-- Doubles with two zeros and a value that occurs twice. -/
def tiedDoubles : List Float := [-1, -0, 0, 2.5, 2.5]

/-- The middle of the doubles is a zero, and their 90th percentile the repeated value. -/
theorem percentile?_ranks_tied :
    tiedDoubles ≠ [] ∧ tiedDoubles.Pairwise (· ≤ ·) ∧ (∀ x ∈ tiedDoubles, x ≤ x) ∧
      tiedDoubles.length * 100 < 2 ^ 63 ∧
        (∃ i v, percentileIndex? (50 : ℕ) tiedDoubles.length = some i ∧ i < tiedDoubles.length ∧
          tiedDoubles[i]? = some v ∧ percentile? 0 tiedDoubles (50 : ℕ) = some v ∧
            50 * tiedDoubles.length ≤ 100 * tiedDoubles.countP (· ≤ v) ∧
              (100 - 50) * tiedDoubles.length ≤ 100 * tiedDoubles.countP (v ≤ ·)) ∧
          percentile? 0 tiedDoubles (50 : ℕ) = some 0 ∧
            percentile? 0 tiedDoubles (90 : ℕ) = some 2.5 ∧ (0 : Float) ≤ 2.5 := by
  have hne : tiedDoubles ≠ [] := by decide
  have hsorted : tiedDoubles.Pairwise (· ≤ ·) := by decide +kernel
  have hself : ∀ x ∈ tiedDoubles, x ≤ x := by decide +kernel
  have hlen : tiedDoubles.length * 100 < 2 ^ 63 := by decide
  have hmiddle : percentile? 0 tiedDoubles (50 : ℕ) = some 0 := by decide +kernel
  have hhigh : percentile? 0 tiedDoubles (90 : ℕ) = some 2.5 := by decide +kernel
  obtain ⟨hranks, hmono⟩ := percentile?_ranks 0 hne hsorted hself hlen
  exact ⟨hne, hsorted, hself, hlen, hranks 50 (by decide), hmiddle, hhigh,
    hmono 50 90 (by decide) (by decide) 0 2.5 hmiddle hhigh⟩

end MetricHistory
