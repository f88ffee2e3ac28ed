import MetricHistory.Proofs.Path.Below

/-!
# One path inside another

`Path.Normal.Within` compares normalized paths component by component: both are rooted or neither
is, both begin with the same number of steps up, and the components of the outer path come first in
the inner one.

* `Path.safeJoin?_eq_some_iff` : a name is joined onto a root exactly when the normalized join is
  within the normalized root.
* `Path.Normal.foldl_step_normalized` : walking a normalized relative path leads where walking the
  path leads that it was normalized from.
* `Path.Normal.exists_of_step_dotdot` : where a step up came from that did not leave the base.
* `Path.Normal.depth` : how far a path leads down; steps up lower it, and what is within a path is
  not less deep.
-/

namespace MetricHistory

namespace Path

variable {base target n : Normal} {names : List Text} {root name path : Text}

namespace Normal

/-- The number of steps up that a path begins with. -/
def ups (n : Normal) : ℕ := (n.parts.takeWhile (· == dotdot)).length

/-- The target is the base or lies below it, read component by component. -/
structure Within (base target : Normal) : Prop where
  rooted : base.rooted = target.rooted
  ups : base.ups = target.ups
  parts : base.parts <+: target.parts

instance (base target : Normal) : Decidable (base.Within target) :=
  decidable_of_iff
    (base.rooted = target.rooted ∧ base.ups = target.ups ∧ base.parts <+: target.parts)
    ⟨fun h => ⟨h.1, h.2.1, h.2.2⟩, fun h => ⟨h.rooted, h.ups, h.parts⟩⟩

theorem count_names (h : ∀ c ∈ names, IsName c) : names.count dotdot = 0 :=
  List.count_eq_zero.2 fun hmem => (h _ hmem).ne_dotdot rfl

theorem Proper.ups_eq_count (hn : n.Proper) : n.ups = n.parts.count dotdot := by
  obtain ⟨k, names, hp, hnames, -⟩ := hn
  have htake : names.takeWhile (· == dotdot) = [] := by
    cases names with
    | nil => rfl
    | cons c cs => simp [(hnames c (by simp)).ne_dotdot]
  have hall : ∀ c ∈ List.replicate k dotdot, (c == dotdot) = true := by
    intro c hc
    simp [List.eq_of_mem_replicate hc]
  rw [ups, hp, List.takeWhile_append_of_pos hall, htake, List.append_nil, List.length_replicate,
    List.count_append, List.count_replicate_self, count_names hnames, Nat.add_zero]

theorem within_iff (hb : base.Proper) (ht : target.Proper) :
    base.Within target ↔
      base.rooted = target.rooted ∧
        ∃ names, target.parts = base.parts ++ names ∧ ∀ c ∈ names, IsName c := by
  constructor
  · rintro ⟨hrooted, hups, names, hparts⟩
    refine ⟨hrooted, names, hparts.symm, fun c hc => ht.part (by simp [← hparts, hc]) ?_⟩
    rintro rfl
    rw [hb.ups_eq_count, ht.ups_eq_count, ← hparts, List.count_append] at hups
    have hpos := List.count_pos_iff.2 hc
    omega
  · rintro ⟨hrooted, names, hparts, hnames⟩
    refine ⟨hrooted, ?_, names, hparts.symm⟩
    rw [hb.ups_eq_count, ht.ups_eq_count, hparts, List.count_append, count_names hnames, Nat.add_zero]

theorem isInside_iff_within (hb : base.Proper) (ht : target.Proper) :
    isInside base target = true ↔ base.Within target := by
  rw [isInside_iff ht, within_iff hb ht]

end Normal

/-! ### Joining onto a root -/

/-- **A name is joined onto a root exactly when this leads to the root or below it.** -/
theorem safeJoin?_eq_some_iff (root name path : Text) :
    safeJoin? root name = some path ↔
      path = join [root, name] ∧ (normalize root).Within (normalize (join [root, name])) := by
  rw [← Normal.isInside_iff_within (normalize_proper _) (normalize_proper _)]
  unfold safeJoin?
  dsimp only
  split
  · rename_i h
    simp [h, eq_comm]
  · rename_i h
    simp [h]

theorem safeJoin?_isSome_iff (root name : Text) :
    (safeJoin? root name).isSome = true ↔
      (normalize root).Within (normalize (join [root, name])) := by
  rw [Option.isSome_iff_exists]
  simp [safeJoin?_eq_some_iff]

/-! ### The join as a walk -/

theorem normalize_of_relative {p : Text} (h : isAbsolute p = false) :
    normalize p = (components p).foldl Normal.step ⟨false, []⟩ := by
  rw [normalize, h]

/-- Joining walks the components of the name from the root.  A rooted name stays one when there is
no root. -/
theorem normalize_join (h : root ≠ [] ∨ isAbsolute name = false) :
    normalize (join [root, name]) = (components name).foldl Normal.step (normalize root) := by
  by_cases hr : root = []
  · subst hr
    have hrel : isAbsolute name = false := by simpa using h
    by_cases hn : name = []
    · subst hn
      decide
    · have hj : join [[], name] = clean name := by simp [join, hn, Text.join]
      rw [hj, normalize_clean, normalize_of_relative hrel]
      rfl
  · exact normalize_join_pair hr name

/-- A rooted name is never joined onto an empty root. -/
theorem rooted_or_relative (h : safeJoin? root name = some path) :
    root ≠ [] ∨ isAbsolute name = false := by
  by_contra hno
  simp only [not_or, not_not, Bool.not_eq_false] at hno
  obtain ⟨rfl, habs⟩ := hno
  have hne : name ≠ [] := by
    rintro rfl
    simp [isAbsolute] at habs
  have hj : join [[], name] = clean name := by simp [join, hne, Text.join]
  have hin := ((safeJoin?_eq_some_iff _ _ _).1 h).2.rooted
  rw [hj, normalize_clean, normalize_rooted, normalize_rooted, habs] at hin
  simp [isAbsolute] at hin

namespace Normal

/-! ### Walking a normalized path -/

theorem step_dotdot_concat {r : Bool} {ps : List Text} {c : Text} (h : c ≠ dotdot) :
    step ⟨r, ps ++ [c]⟩ dotdot = ⟨r, ps⟩ := by
  simp [step, h]

theorem step_dotdot_ups {r : Bool} {ps : List Text} :
    step ⟨r, ps ++ [dotdot]⟩ dotdot = ⟨r, ps ++ [dotdot] ++ [dotdot]⟩ := by
  simp [step]

theorem step_dotdot_nil (r : Bool) :
    step ⟨r, []⟩ dotdot = if r then ⟨r, []⟩ else ⟨r, [dotdot]⟩ := rfl

/-- Components that cancel each other may be left out of a walk. -/
theorem foldl_step_normalized (n : Normal) (cs : List Text) :
    (cs.foldl step ⟨false, []⟩).parts.foldl step n = cs.foldl step n := by
  induction cs using List.reverseRecOn with
  | nil => rfl
  | append_singleton cs c ih =>
    rw [List.foldl_append, List.foldl_append]
    simp only [List.foldl_cons, List.foldl_nil]
    rw [← ih]
    have hrooted : (cs.foldl step ⟨false, []⟩).rooted = false := foldl_step_rooted _ _
    generalize cs.foldl step ⟨false, []⟩ = m at hrooted ⊢
    obtain ⟨r, ps⟩ := m
    simp only at hrooted
    subst hrooted
    by_cases hc : c = dotdot
    · subst hc
      rcases List.eq_nil_or_concat ps with rfl | ⟨init, last, rfl⟩
      · rfl
      · rw [List.concat_eq_append]
        by_cases hl : last = dotdot
        · subst hl
          rw [step_dotdot_ups, List.foldl_append]
          rfl
        · -- the step up takes back the last component
          rw [step_dotdot_concat hl, List.foldl_append]
          simp only [List.foldl_cons, List.foldl_nil]
          rw [step_name hl, step_dotdot_concat hl]
    · rw [step_name hc, List.foldl_append]
      rfl

theorem count_dotdot_le_foldl (n : Normal) (cs : List Text) :
    n.parts.count dotdot ≤ (cs.foldl step n).parts.count dotdot := by
  induction cs using List.reverseRecOn with
  | nil => exact le_refl _
  | append_singleton cs c ih =>
    rw [List.foldl_append]
    simp only [List.foldl_cons, List.foldl_nil]
    refine ih.trans ?_
    obtain ⟨r, ps⟩ := cs.foldl step n
    by_cases hc : c = dotdot
    · subst hc
      rcases List.eq_nil_or_concat ps with rfl | ⟨init, last, rfl⟩
      · simp
      · rw [List.concat_eq_append]
        by_cases hl : last = dotdot
        · subst hl
          rw [step_dotdot_ups]
          simp
        · rw [step_dotdot_concat hl]
          simp [hl]
    · rw [step_name hc]
      simp

/-- A step up that ends at the base or below it came from one name further down. -/
theorem exists_of_step_dotdot {m : Normal} (hm : m.Proper) (hrooted : m.rooted = base.rooted)
    (hcount : base.parts.count dotdot ≤ m.parts.count dotdot) (htop : base ≠ ⟨true, []⟩)
    (hnames : ∀ c ∈ names, IsName c) (h : m.step dotdot = ⟨base.rooted, base.parts ++ names⟩) :
    ∃ x, IsName x ∧ m = ⟨base.rooted, base.parts ++ (names ++ [x])⟩ := by
  obtain ⟨r, ps⟩ := m
  dsimp only at hrooted hcount
  have hups : base.parts.count dotdot = (base.parts ++ names).count dotdot := by
    rw [List.count_append, count_names hnames, Nat.add_zero]
  rcases List.eq_nil_or_concat ps with rfl | ⟨init, x, rfl⟩
  · rw [step_dotdot_nil] at h
    split at h
    · -- only from the top the step ends at the top
      rename_i hr
      have hnil := List.append_eq_nil_iff.1 (congrArg parts h).symm
      refine absurd ?_ htop
      rw [← hnil.1, ← hr, hrooted]
    · have hparts := congrArg parts h
      dsimp only at hparts
      rw [hups, ← hparts] at hcount
      simp at hcount
  · rw [List.concat_eq_append] at h hm hcount ⊢
    by_cases hx : x = dotdot
    · subst hx
      rw [step_dotdot_ups] at h
      have hparts := congrArg parts h
      dsimp only at hparts
      rw [hups, ← hparts] at hcount
      simp at hcount
    · rw [step_dotdot_concat hx] at h
      have hinit := congrArg parts h
      simp only at hinit
      exact ⟨x, hm.part (by simp) hx, by rw [hrooted, hinit, List.append_assoc]⟩

/-! ### Depth -/

/-- How far a path leads down; each step up that it begins with counts against it. -/
def depth (n : Normal) : ℤ := (n.parts.length : ℤ) - 2 * n.parts.count dotdot

theorem depth_step_dotdot (n : Normal) :
    (n.step dotdot).depth = if n = ⟨true, []⟩ then 0 else n.depth - 1 := by
  obtain ⟨r, ps⟩ := n
  rcases List.eq_nil_or_concat ps with rfl | ⟨init, last, rfl⟩
  · cases r <;> rfl
  · rw [List.concat_eq_append, if_neg (by simp)]
    by_cases hl : last = dotdot
    · subst hl
      rw [step_dotdot_ups]
      simp only [depth, List.length_append, List.length_singleton, List.count_append,
        List.count_singleton_self]
      omega
    · rw [step_dotdot_concat hl]
      simp only [depth, List.length_append, List.length_singleton, List.count_append,
        List.count_singleton, beq_eq_false_iff_ne.2 hl]
      simp
      omega

theorem Proper.depth_nonneg (hn : n.Proper) (hr : n.rooted = true) : 0 ≤ n.depth := by
  obtain ⟨k, names, hp, hnames, hk⟩ := hn
  rw [depth, hp, hk hr, List.replicate_zero, List.nil_append, count_names hnames]
  omega

theorem depth_append (r r' : Bool) (ps : List Text) (h : ∀ c ∈ names, IsName c) :
    depth ⟨r, ps ++ names⟩ = depth ⟨r', ps⟩ + names.length := by
  simp only [depth, List.length_append, List.count_append, count_names h]
  omega

theorem Within.depth_le (hb : base.Proper) (ht : target.Proper) (h : base.Within target) :
    base.depth ≤ target.depth := by
  obtain ⟨-, names, hparts, hnames⟩ := (within_iff hb ht).1 h
  have := depth_append target.rooted base.rooted base.parts hnames
  rw [← hparts] at this
  change target.depth = base.depth + _ at this
  omega

theorem depth_ups_le (n : Normal) (hn : n.Proper) (k : ℕ) :
    ((List.replicate k dotdot).foldl step n).depth ≤
      if n.rooted then max 0 (n.depth - k) else n.depth - k := by
  induction k with
  | zero =>
    split
    · rename_i hr
      have := hn.depth_nonneg hr
      simp
    · simp
  | succ k ih =>
    rw [List.replicate_succ', List.foldl_append]
    simp only [List.foldl_cons, List.foldl_nil]
    rw [depth_step_dotdot]
    split
    · rename_i htop
      have hr : n.rooted = true := by
        rw [← foldl_step_rooted n (List.replicate k dotdot), htop]
      rw [if_pos hr]
      exact le_max_left _ _
    · split at ih <;> rename_i hr <;> simp only [hr, if_true] <;> push_cast <;> omega

theorem Proper.depth_pos (hn : n.Proper) (hr : n.rooted = true) (htop : n ≠ ⟨true, []⟩) :
    0 < n.depth := by
  obtain ⟨r, ps⟩ := n
  simp only at hr
  subst hr
  obtain ⟨k, names, hp, hnames, hk⟩ := hn
  dsimp only at hp hk
  rw [hk rfl, List.replicate_zero, List.nil_append] at hp
  subst hp
  have hlen : 0 < ps.length := List.length_pos_iff.2 fun h => htop (by rw [h])
  rw [depth, count_names hnames]
  simp only
  omega

theorem not_within_ups {start : Normal} (hb : base.Proper) (hs : start.Proper)
    (hr : start.rooted = base.rooted) (htop : base ≠ ⟨true, []⟩) {k : ℕ}
    (hk : start.depth - k < base.depth) :
    ¬ base.Within ((List.replicate k dotdot).foldl step start) := by
  intro h
  have hproper : ((List.replicate k dotdot).foldl step start).Proper :=
    proper_foldl_step hs fun c hc hd => absurd (List.eq_of_mem_replicate hc) hd
  have hle := (h.depth_le hb hproper).trans (depth_ups_le start hs k)
  split at hle
  · rename_i hroot
    have := hb.depth_pos (hr ▸ hroot) htop
    omega
  · omega

theorem foldl_ups_names (r : Bool) (ps : List Text) (h : ∀ c ∈ names, IsName c) :
    (List.replicate names.length dotdot).foldl step ⟨r, ps ++ names⟩ = ⟨r, ps⟩ := by
  induction names using List.reverseRecOn with
  | nil => simp
  | append_singleton names c ih =>
    rw [List.length_append, List.length_singleton, List.replicate_succ, List.foldl_cons,
      ← List.append_assoc, step_dotdot_concat (h c (by simp)).ne_dotdot]
    exact ih fun d hd => h d (by simp [hd])

theorem Proper.within_top (hn : n.Proper) (hr : n.rooted = true) : Within ⟨true, []⟩ n := by
  obtain ⟨k, names, hp, hnames, hk⟩ := hn
  rw [hk hr, List.replicate_zero, List.nil_append] at hp
  refine (within_iff (proper_nil true) ⟨0, names, by simpa using hp, hnames, fun _ => rfl⟩).2 ?_
  exact ⟨hr.symm, names, by simpa using hp, hnames⟩

end Normal

end Path

end MetricHistory
