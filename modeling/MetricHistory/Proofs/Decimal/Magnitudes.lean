import MetricHistory.Proofs.Decimal.Rounding

/-!
# Sorting magnitudes

The order of doubles is no order where something is not a number, and it does not tell the two zeros
apart.  Among the magnitudes of finite doubles it is linear.

* `Binary64.unpack_abs` : a magnitude consists of the parts of the double without its sign;
* `Binary64.abs_le_abs_iff` : magnitudes are compared by their exponents first;
* `Binary64.mergeSort_abs_eq` : **sorted magnitudes do not tell in which order they came.**
-/

namespace MetricHistory

/-! ### Sorting by rank -/

section Rank

variable {α κ : Type} [LinearOrder κ] (rank : α → κ) {le : α → α → Bool} {l m : List α}

theorem pairwise_mergeSort_of_rank (hle : ∀ a ∈ l, ∀ b ∈ l, le a b = decide (rank a ≤ rank b)) :
    (l.mergeSort le).Pairwise fun a b => rank a ≤ rank b := by
  have hsorted := List.pairwise_mergeSort' (· ≤ ·) (l.map rank)
  rwa [← List.map_mergeSort hle, List.pairwise_map] at hsorted

theorem mergeSort_eq_of_perm (hle : ∀ a ∈ l, ∀ b ∈ l, le a b = decide (rank a ≤ rank b))
    (hinj : ∀ a ∈ l, ∀ b ∈ l, rank a = rank b → a = b) (h : l.Perm m) :
    l.mergeSort le = m.mergeSort le := by
  have hmem : ∀ {a}, a ∈ m → a ∈ l := fun ha => h.mem_iff.2 ha
  have hle' : ∀ a ∈ m, ∀ b ∈ m, le a b = decide (rank a ≤ rank b) :=
    fun a ha b hb => hle a (hmem ha) b (hmem hb)
  refine List.Perm.eq_of_pairwise (fun a b ha hb hab hba => ?_) (pairwise_mergeSort_of_rank rank hle)
    (pairwise_mergeSort_of_rank rank hle')
    (((List.mergeSort_perm l le).trans h).trans (List.mergeSort_perm m le).symm)
  exact hinj a (List.mem_mergeSort.1 ha) b (hmem (List.mem_mergeSort.1 hb)) (le_antisymm hab hba)

end Rank

namespace Binary64

open Float.Model (Format UnpackedFloat)
open Float.Model.UnpackedFloat (Sign packComponents unpackExponent unpackMantissa
  unpackSign_packComponents unpackExponent_packComponents unpackMantissa_packComponents
  pack_unpack_of_valid)

/-! ### Magnitudes -/

/-- The bits without their sign stand for the magnitude. -/
theorem unpack_packComponents_positive {b : BitVec Format.binary64.numBits}
    (hfin : unpackExponent b ≠ -1#_) :
    UnpackedFloat.unpack Format.binary64
        (packComponents Format.binary64 .positive (unpackExponent b) (unpackMantissa b)) =
      (UnpackedFloat.unpack Format.binary64 b).abs := by
  have hsign : Sign.ofBitVec (Sign.toBitVec .positive) = .positive := rfl
  unfold UnpackedFloat.unpack
  simp only [unpackExponent_packComponents, unpackMantissa_packComponents,
    unpackSign_packComponents, hsign, if_neg hfin]
  split
  · split <;> rfl
  · rfl

variable {x y : Float}

theorem unpackExponent_ne_of_isFinite (h : isFinite x = true) :
    @unpackExponent Format.binary64 x.toBits.toBitVec ≠ -1#_ := by
  intro hc
  have hexp := toNat_unpackExponent x.toBits
  rw [hc] at hexp
  have hall : x.toBits.toNat / Nat.pow 2 52 % 2048 = 2047 := hexp.symm
  rw [isFinite] at h
  split at h
  · rename_i hdecode
    simp only [decode, hall, if_true] at hdecode
    split at hdecode <;> cases hdecode
  · cases h

/-- A magnitude consists of the parts of the double without its sign. -/
theorem unpack_abs (h : isFinite x = true) : x.abs.toModel.unpack = x.toModel.unpack.abs := by
  have hexp := unpackExponent_ne_of_isFinite h
  have hvalid : Format.binary64.Valid (packComponents Format.binary64 .positive
      (unpackExponent x.toBits.toBitVec) (unpackMantissa x.toBits.toBitVec)) := by
    refine ⟨fun hc => absurd ?_ hexp⟩
    rwa [unpackExponent_packComponents] at hc
  -- what is packed for the magnitude are the bits without their sign, which come back as they are
  have hparts := unpack_packComponents_positive hexp
  have hback := congrArg (UnpackedFloat.unpack Format.binary64) (pack_unpack_of_valid hvalid)
  rw [hparts] at hback
  exact hback

theorem isFinite_unpack (h : isFinite x = true) : x.toModel.unpack.isFinite = true := by
  have hexp := unpackExponent_ne_of_isFinite h
  change (UnpackedFloat.unpack Format.binary64 x.toBits.toBitVec).isFinite = true
  unfold UnpackedFloat.unpack
  simp only [if_neg hexp]
  split
  · split <;> rfl
  · rfl

/-! ### Ranks -/

/-- The rank of a double in parts among the magnitudes: zero, then by exponent and mantissa. -/
def rank : UnpackedFloat → WithBot (ℤ ×ₗ ℕ)
  | .finite _ m e _ => (toLex (e, m) : ℤ ×ₗ ℕ)
  | _ => ⊥

theorem isLE_then_compare (e e' : ℤ) (m m' : ℕ) :
    ((compare e e').then (compare m m')).isLE = true ↔ e < e' ∨ e = e' ∧ m ≤ m' := by
  rcases lt_trichotomy e e' with h | rfl | h
  · simp [compare_lt_iff_lt.2 h, h]
  · simp [Std.isLE_compare]
  · simp [compare_gt_iff_gt.2 h, h.not_gt, h.ne']

theorem le_abs_iff_rank {u v : UnpackedFloat} (hu : u.isFinite = true) (hv : v.isFinite = true) :
    u.abs.le v.abs = true ↔ rank u ≤ rank v := by
  cases u with
  | notANumber | infinity => cases hu
  | zero =>
    cases v with
    | notANumber | infinity => cases hv
    | zero => exact iff_of_true rfl le_rfl
    | finite => exact iff_of_true rfl bot_le
  | finite s m e hm =>
    cases v with
    | notANumber | infinity => cases hv
    | zero => exact iff_of_false Bool.false_ne_true (WithBot.not_coe_le_bot _)
    | finite s' m' e' hm' =>
      rw [rank, rank, WithBot.coe_le_coe, Prod.Lex.toLex_le_toLex]
      exact isLE_then_compare e e' m m'

theorem abs_eq_of_rank {u v : UnpackedFloat} (hu : u.isFinite = true) (hv : v.isFinite = true)
    (h : rank u = rank v) : u.abs = v.abs := by
  cases u with
  | notANumber | infinity => cases hu
  | zero =>
    cases v with
    | notANumber | infinity => cases hv
    | zero => rfl
    | finite => cases h
  | finite s m e hm =>
    cases v with
    | notANumber | infinity => cases hv
    | zero => cases h
    | finite s' m' e' hm' =>
      obtain ⟨rfl, rfl⟩ := Prod.mk.inj (toLex_inj.1 (WithBot.coe_injective h))
      rfl

theorem rank_abs (u : UnpackedFloat) : rank u.abs = rank u := by cases u <;> rfl

/-- Magnitudes are compared by their exponents first. -/
theorem abs_le_abs_iff (hx : isFinite x = true) (hy : isFinite y = true) :
    x.abs ≤ y.abs ↔ rank x.abs.toModel.unpack ≤ rank y.abs.toModel.unpack := by
  rw [unpack_abs hx, unpack_abs hy, rank_abs, rank_abs,
    ← le_abs_iff_rank (isFinite_unpack hx) (isFinite_unpack hy), ← unpack_abs hx, ← unpack_abs hy]
  exact decide_eq_true_iff

theorem abs_inj_of_rank (hx : isFinite x = true) (hy : isFinite y = true)
    (h : rank x.abs.toModel.unpack = rank y.abs.toModel.unpack) : x.abs = y.abs := by
  rw [unpack_abs hx, unpack_abs hy, rank_abs, rank_abs] at h
  exact congrArg (fun u => Float.ofModel (.pack u))
    (abs_eq_of_rank (isFinite_unpack hx) (isFinite_unpack hy) h)

/-- **Sorted magnitudes do not tell in which order they came.** -/
theorem mergeSort_abs_eq {l m : List Float} (hfin : ∀ x ∈ l, isFinite x = true) (h : l.Perm m) :
    (l.map Float.abs).mergeSort (fun a b => decide (a ≤ b)) =
      (m.map Float.abs).mergeSort fun a b => decide (a ≤ b) := by
  have hmem : ∀ a ∈ l.map Float.abs, ∃ x, isFinite x = true ∧ x.abs = a := by
    intro a ha
    obtain ⟨x, hx, rfl⟩ := List.mem_map.1 ha
    exact ⟨x, hfin x hx, rfl⟩
  -- doubles with one rank may differ in their sign, but not their magnitudes
  refine mergeSort_eq_of_perm (fun a => rank a.toModel.unpack) (fun a ha b hb => ?_)
    (fun a ha b hb hab => ?_) (h.map _)
  all_goals
    obtain ⟨x, hx, rfl⟩ := hmem a ha
    obtain ⟨y, hy, rfl⟩ := hmem b hb
  · rw [decide_eq_decide]
    exact abs_le_abs_iff hx hy
  · exact abs_inj_of_rank hx hy hab

end Binary64

end MetricHistory
