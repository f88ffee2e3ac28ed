import MetricHistory.Analyzer.Fragment
import MetricHistory.Proofs.Decimal.Integers
import MetricHistory.Proofs.Git.Tree

/-!
# Fragments that add up file by file

An analyzer that adds up what each file counts for says of a commit and its parent the same
difference whether it measures all files or only those that were touched.

* `FileCounts.of` adds up the files with one of the extensions, and `FileCounts.fragment` is what
  the analyzer reports.
* `FileCounts.total_picked_sub` : files that are the same on both sides cancel.
* `FileCounts.movement_fragment` : **as long as the sums are exact, the movement between two
  fragments is the difference of the counts.**
-/

namespace MetricHistory

/-- What files count for. -/
structure FileCounts where
  loc : Int := 0
  ccn : Int := 0
  mi : Int := 0
  antipatterns : Int := 0
deriving DecidableEq, Repr

namespace FileCounts

variable {g : Text → Text → Int} {extensions paths : List Text} {tree before after : Git.Tree}
  {files files' : List (Text × Text)}

/-- The sum of what the files with one of the extensions count for, by their paths and contents. -/
def total (g : Text → Text → Int) (extensions : List Text) (files : List (Text × Text)) : Int :=
  ((files.filter fun x => Path.hasExtension x.1 extensions).map fun x => g x.1 x.2).sum

/-- What all files count for together. -/
def of (f : Text → Text → FileCounts) (extensions : List Text) (files : List (Text × Text)) :
    FileCounts where
  loc := total (fun path content => (f path content).loc) extensions files
  ccn := total (fun path content => (f path content).ccn) extensions files
  mi := total (fun path content => (f path content).mi) extensions files
  antipatterns := total (fun path content => (f path content).antipatterns) extensions files

/-- The counts as an analyzer reports them. -/
def fragment (c : FileCounts) : Fragment where
  loc := wrap64 c.loc
  ccnSum := Binary64.ofInt c.ccn
  miDebtSum := Binary64.ofInt c.mi
  antipatterns := wrap64 c.antipatterns

/-- The difference between counts.  Debt counts the other way round. -/
def movement (before after : FileCounts) : Movement where
  loc := wrap64 (after.loc - before.loc)
  ccn := Binary64.ofInt (after.ccn - before.ccn)
  mi := Binary64.ofInt (before.mi - after.mi)
  antipatterns := wrap64 (after.antipatterns - before.antipatterns)

theorem total_perm (h : files.Perm files') : total g extensions files = total g extensions files' :=
  ((h.filter _).map _).sum_eq

/-- The order of the files does not matter. -/
theorem of_perm (f : Text → Text → FileCounts) (h : files.Perm files') :
    of f extensions files = of f extensions files' := by
  simp only [of, total_perm h]

/-! ### Sums over paths -/

/-- What the file at a path counts for; nothing without a file or an extension. -/
def value (g : Text → Text → Int) (extensions : List Text) (tree : Git.Tree) (path : Text) : Int :=
  if Path.hasExtension path extensions then ((tree.content? path).map (g path)).getD 0 else 0

theorem total_picked : total g extensions (tree.picked paths) =
    (paths.map (value g extensions tree)).sum := by
  induction paths with
  | nil => rfl
  | cons path rest ih =>
    rw [List.map_cons, List.sum_cons, ← ih, total, total, Git.Tree.picked, value]
    cases hcontent : tree.content? path with
    | none => simp [hcontent, Git.Tree.picked]
    | some content =>
      by_cases hext : Path.hasExtension path extensions = true <;>
        simp [hcontent, hext, Git.Tree.picked]

theorem value_eq_zero {path : Text} (h : path ∉ tree.map (·.1)) :
    value g extensions tree path = 0 := by
  have hnone : tree.content? path = none := by
    by_contra hsome
    obtain ⟨content, hcontent⟩ := Option.ne_none_iff_exists'.1 hsome
    obtain ⟨b, hb, -⟩ := Git.Tree.exists_mem_of_content? hcontent
    exact h (List.mem_map.2 ⟨_, hb, rfl⟩)
  simp [value, hnone]

theorem total_picked_eq_sum (hpaths : paths.Nodup) :
    total g extensions (tree.picked paths) =
      ∑ path ∈ paths.toFinset, value g extensions tree path := by
  rw [total_picked, List.sum_toFinset _ hpaths]

theorem total_files_eq_sum (h : tree.Regular) {all : Finset Text}
    (hall : (tree.map (·.1)).toFinset ⊆ all) :
    total g extensions tree.files = ∑ path ∈ all, value g extensions tree path := by
  rw [Git.Tree.files_eq_picked h.nodup, total_picked_eq_sum h.nodup]
  refine Finset.sum_subset hall fun path _ hpath => value_eq_zero ?_
  simpa using hpath

/-- **Files that are the same on both sides cancel.** -/
theorem total_picked_sub (hbefore : before.Regular) (hafter : after.Regular) (hpaths : paths.Nodup)
    (hlisted : ∀ path, Path.hasExtension path extensions = true →
      before.content? path ≠ after.content? path → path ∈ paths) :
    total g extensions (after.picked paths) - total g extensions (before.picked paths) =
      total g extensions after.files - total g extensions before.files := by
  set all := paths.toFinset ∪ ((before.map (·.1)).toFinset ∪ (after.map (·.1)).toFinset) with hall
  have hsub : (before.map (·.1)).toFinset ⊆ all :=
    Finset.subset_union_left.trans Finset.subset_union_right
  have hsub' : (after.map (·.1)).toFinset ⊆ all :=
    Finset.subset_union_right.trans Finset.subset_union_right
  rw [total_picked_eq_sum hpaths, total_picked_eq_sum hpaths, total_files_eq_sum hbefore hsub,
    total_files_eq_sum hafter hsub', ← Finset.sum_sub_distrib, ← Finset.sum_sub_distrib]
  refine Finset.sum_subset Finset.subset_union_left fun path _ hpath => ?_
  -- a path that is not listed has no extension, or the same content on both sides
  rw [sub_eq_zero, value, value]
  by_cases hext : Path.hasExtension path extensions = true
  · have hsame : before.content? path = after.content? path := by
      by_contra hne
      exact hpath (List.mem_toFinset.2 (hlisted path hext hne))
    rw [hsame]
  · rw [if_neg hext, if_neg hext]

/-! ### Exact sums -/

theorem value_abs (path : Text) :
    value (fun path content => |g path content|) extensions tree path =
      |value g extensions tree path| := by
  unfold value
  split
  · cases tree.content? path <;> simp
  · rfl

theorem abs_total_picked_le (h : tree.Regular) (hpaths : paths.Nodup) :
    |total g extensions (tree.picked paths)| ≤
      total (fun path content => |g path content|) extensions tree.files := by
  set all := paths.toFinset ∪ (tree.map (·.1)).toFinset with hall
  have hkeys : (tree.map (·.1)).toFinset ⊆ all := Finset.subset_union_right
  calc |total g extensions (tree.picked paths)|
      = |∑ path ∈ paths.toFinset, value g extensions tree path| := by
        rw [total_picked_eq_sum hpaths]
    _ ≤ ∑ path ∈ paths.toFinset, |value g extensions tree path| := Finset.abs_sum_le_sum_abs _ _
    _ ≤ ∑ path ∈ all, |value g extensions tree path| :=
      Finset.sum_le_sum_of_subset_of_nonneg Finset.subset_union_left fun _ _ _ => abs_nonneg _
    _ = total (fun path content => |g path content|) extensions tree.files := by
      rw [total_files_eq_sum h hkeys]
      exact Finset.sum_congr rfl fun path _ => (value_abs path).symm

/-- Sums over the files of two trees, signs aside, stay together below the greatest number up to
which all integers are doubles. -/
structure Exact (f : Text → Text → FileCounts) (extensions : List Text) (before after : Git.Tree) :
    Prop where
  ccn : total (fun path content => |(f path content).ccn|) extensions before.files +
    total (fun path content => |(f path content).ccn|) extensions after.files < 2 ^ 53
  mi : total (fun path content => |(f path content).mi|) extensions before.files +
    total (fun path content => |(f path content).mi|) extensions after.files < 2 ^ 53

theorem ofInt_sub_of_abs {i j : Int} (h : |i| + |j| < 2 ^ 53) :
    Binary64.ofInt i - Binary64.ofInt j = Binary64.ofInt (i - j) := by
  rw [Int.abs_eq_natAbs, Int.abs_eq_natAbs] at h
  exact Binary64.ofInt_sub (by omega) (by omega) (by omega)

/-- **As long as the sums are exact, the movement between two fragments is the difference of the
counts.** -/
theorem movement_fragment {b a : FileCounts} (hccn : |b.ccn| + |a.ccn| < 2 ^ 53)
    (hmi : |b.mi| + |a.mi| < 2 ^ 53) : b.fragment.movement a.fragment = b.movement a := by
  have hwrap : ∀ i j : Int, wrap64 (wrap64 i - wrap64 j) = wrap64 (i - j) := by
    intro i j
    rw [wrap64, wrap64, wrap64, wrap64, Int.bmod_sub_bmod, Int.sub_bmod_bmod]
  simp only [Fragment.movement, fragment, movement, hwrap, ofInt_sub_of_abs hmi]
  rw [ofInt_sub_of_abs (by rwa [add_comm])]

theorem movement_fragment_nil (f : Text → Text → FileCounts) (extensions : List Text) :
    (of f extensions []).fragment.movement (of f extensions []).fragment = {} := by
  have hzero : of f extensions [] = {} := rfl
  rw [hzero, movement_fragment (by decide) (by decide)]
  rfl

section Trees

variable {f : Text → Text → FileCounts} (hbefore : before.Regular) (hafter : after.Regular)
  (hexact : Exact f extensions before after)
include hbefore hafter hexact

/-- Exact sums over all files are exact over some of them. -/
theorem movement_fragment_picked {paths' : List Text} (hpaths : paths.Nodup)
    (hpaths' : paths'.Nodup) :
    (of f extensions (before.picked paths)).fragment.movement
        (of f extensions (after.picked paths')).fragment =
      (of f extensions (before.picked paths)).movement (of f extensions (after.picked paths')) := by
  have hle : ∀ g, |total g extensions (before.picked paths)| +
      |total g extensions (after.picked paths')| ≤
        total (fun path content => |g path content|) extensions before.files +
          total (fun path content => |g path content|) extensions after.files := fun g =>
    add_le_add (abs_total_picked_le hbefore hpaths) (abs_total_picked_le hafter hpaths')
  have hccn := (hle fun path content => (f path content).ccn).trans_lt hexact.ccn
  have hmi := (hle fun path content => (f path content).mi).trans_lt hexact.mi
  exact movement_fragment hccn hmi

theorem movement_fragment_files :
    (of f extensions before.files).fragment.movement (of f extensions after.files).fragment =
      (of f extensions before.files).movement (of f extensions after.files) := by
  rw [Git.Tree.files_eq_picked hbefore.nodup, Git.Tree.files_eq_picked hafter.nodup]
  exact movement_fragment_picked hbefore hafter hexact hbefore.nodup hafter.nodup

/-- The movement between the listed files is the movement between all files. -/
theorem movement_picked (hpaths : paths.Nodup)
    (hlisted : ∀ path, Path.hasExtension path extensions = true →
      before.content? path ≠ after.content? path → path ∈ paths) :
    (of f extensions (before.picked paths)).fragment.movement
        (of f extensions (after.picked paths)).fragment =
      (of f extensions before.files).fragment.movement (of f extensions after.files).fragment := by
  rw [movement_fragment_picked hbefore hafter hexact hpaths hpaths,
    movement_fragment_files hbefore hafter hexact]
  have hsub := fun g => total_picked_sub (g := g) hbefore hafter hpaths hlisted
  -- debt counts from the files after to those before
  have hsub' : ∀ g,
      total g extensions (before.picked paths) - total g extensions (after.picked paths) =
        total g extensions before.files - total g extensions after.files := by
    intro g
    rw [← neg_sub, hsub, neg_sub]
  simp only [movement, of, hsub, hsub']

end Trees

end FileCounts

end MetricHistory
