import MetricHistory.Git.Diff
import MetricHistory.Proofs.Path.Below
import MetricHistory.Proofs.Text.Order

/-!
# Trees and their differences

* `Git.Tree.Regular` : the paths of a tree go down by names, and none of them is below another.
* `Git.Tree.content?` is the content at a path, `Git.Tree.files` lists all files of a tree and
  `Git.Tree.picked` those at some paths.
* `Git.mem_changes_of_ne` : **every path at which two trees differ is among the changes, unless a
  file has only moved.**
-/

namespace MetricHistory

namespace Git.Tree

variable {tree : Git.Tree} {paths : List Text} {path : Text} {x : Text × Text}

/-- Every path is in the tree once and consists of names, and none is below another. -/
structure Regular (tree : Git.Tree) : Prop where
  nodup : (tree.map (·.1)).Nodup
  relative : ∀ x ∈ tree, Path.IsRelative x.1
  apart : ∀ x ∈ tree, ∀ y ∈ tree, Path.components x.1 <+: Path.components y.1 → x.1 = y.1

/-- The files of a tree with their contents.  A link counts as a file that holds its text. -/
def files (tree : Git.Tree) : List (Text × Text) := tree.map fun (path, b) => (path, b.content)

/-- The content of the file at a path. -/
def content? (tree : Git.Tree) (path : Text) : Option Text := (tree.lookup path).map (·.content)

/-- The files at some paths, as far as the tree has them. -/
def picked (tree : Git.Tree) (paths : List Text) : List (Text × Text) :=
  paths.filterMap fun path => (tree.content? path).map fun content => (path, content)

theorem mem_picked : x ∈ tree.picked paths ↔ x.1 ∈ paths ∧ tree.content? x.1 = some x.2 := by
  rw [picked, List.mem_filterMap]
  constructor
  · rintro ⟨path, hpath, hx⟩
    obtain ⟨content, hcontent, rfl⟩ := Option.map_eq_some_iff.1 hx
    exact ⟨hpath, hcontent⟩
  · rintro ⟨hpath, hcontent⟩
    exact ⟨x.1, hpath, by rw [hcontent]; rfl⟩

theorem exists_mem_of_content? {content : Text} (h : tree.content? path = some content) :
    ∃ b, (path, b) ∈ tree ∧ b.content = content := by
  obtain ⟨b, hlookup, hb⟩ := Option.map_eq_some_iff.1 h
  obtain ⟨l, l', htree, -⟩ := List.lookup_eq_some_iff.1 hlookup
  exact ⟨b, by simp [htree], hb⟩

theorem picked_paths (tree : Git.Tree) (paths : List Text) :
    (tree.picked paths).map (·.1) = paths.filter fun path => (tree.content? path).isSome := by
  induction paths with
  | nil => rfl
  | cons path rest ih =>
    rw [picked] at ih ⊢
    cases h : tree.content? path <;> simp [h, ih]

theorem content?_of_mem (h : (tree.map (·.1)).Nodup) {b : Blob} (hb : (path, b) ∈ tree) :
    tree.content? path = some b.content := by
  rw [content?, (lookup_eq_some_iff_mem h).2 hb, Option.map_some]

theorem files_eq_picked (h : (tree.map (·.1)).Nodup) :
    tree.files = tree.picked (tree.map (·.1)) := by
  rw [files, picked, List.filterMap_map, ← List.filterMap_eq_map]
  refine List.filterMap_congr fun x hx => ?_
  rw [Function.comp_apply, Function.comp_apply, content?_of_mem h hx]
  rfl

end Git.Tree

namespace Git

variable {before after : Tree} {path : Text}

theorem mem_allPaths (h : before.content? path ≠ none ∨ after.content? path ≠ none) :
    path ∈ allPaths before after := by
  have hkey : ∀ tree : Tree, tree.content? path ≠ none → path ∈ tree.map (·.1) := by
    intro tree htree
    obtain ⟨content, hcontent⟩ := Option.ne_none_iff_exists'.1 htree
    obtain ⟨b, hb, -⟩ := Tree.exists_mem_of_content? hcontent
    exact List.mem_map_of_mem hb
  rw [allPaths, List.mem_eraseDups, Text.sort, List.mem_mergeSort, List.map_append, List.mem_append]
  exact h.imp (hkey before) (hkey after)

theorem mem_plainChanges_of_ne (h : before.content? path ≠ after.content? path) :
    path ∈ (plainChanges before after).map Change.newPath := by
  have hpath : path ∈ allPaths before after := by
    refine mem_allPaths ?_
    by_contra hnone
    simp only [ne_eq, not_or, not_not] at hnone
    exact h (hnone.1.trans hnone.2.symm)
  obtain ⟨c, hc, hname⟩ : ∃ c, changeAt before after path = some c ∧ c.newPath = path := by
    unfold changeAt
    rw [Tree.content?, Tree.content?] at h
    split
    · rename_i hbefore hafter
      rw [hbefore, hafter] at h
      exact absurd rfl h
    · exact ⟨_, rfl, rfl⟩
    · exact ⟨_, rfl, rfl⟩
    · rename_i a b hbefore hafter
      rw [hbefore, hafter] at h
      rw [if_neg fun hab => h (congrArg _ (congrArg some hab))]
      exact ⟨_, rfl, rfl⟩
  exact List.mem_map.2 ⟨c, List.mem_filterMap.2 ⟨path, hpath, hc⟩, hname⟩

/-- No new file has the content of a file that is gone. -/
def NothingMoved (before after : Tree) : Prop :=
  ∀ p q content, before.content? p = none → after.content? p = some content →
    before.content? q = some content → after.content? q ≠ none

/-- What a change says of the contents at its path. -/
def Change.Holds (before after : Tree) : Change → Prop
  | added p b => before.content? p = none ∧ after.content? p = some b.content
  | deleted p b => before.content? p = some b.content ∧ after.content? p = none
  | modified p a b => before.content? p = some a.content ∧ after.content? p = some b.content
  | moved _ _ => False

theorem Change.holds_of_mem {c : Change} (h : c ∈ plainChanges before after) :
    c.Holds before after := by
  obtain ⟨path, -, hc⟩ := List.mem_filterMap.1 h
  have hcontent : ∀ (tree : Tree) {b? : Option Blob}, tree.lookup path = b? →
      tree.content? path = b?.map (·.content) := fun tree _ hb => by rw [Tree.content?, hb]
  unfold changeAt at hc
  split at hc
  · simp at hc
  · rename_i b hbefore hafter
    obtain rfl := Option.some.inj hc
    exact ⟨hcontent _ hbefore, hcontent _ hafter⟩
  · rename_i a hbefore hafter
    obtain rfl := Option.some.inj hc
    exact ⟨hcontent _ hbefore, hcontent _ hafter⟩
  · rename_i a b hbefore hafter
    split at hc
    · simp at hc
    · obtain rfl := Option.some.inj hc
      exact ⟨hcontent _ hbefore, hcontent _ hafter⟩

theorem exists_added {content : Text} {changes : List Change}
    (h : (filesWith content changes).1 ≠ []) :
    ∃ p b, .added p b ∈ changes ∧ b.content = content := by
  obtain ⟨x, hx⟩ := List.exists_mem_of_ne_nil _ h
  obtain ⟨c, hc, hfile⟩ := List.mem_filterMap.1 hx
  cases c with
  | added p b =>
    refine ⟨p, b, hc, ?_⟩
    by_contra hne
    simp [hne] at hfile
  | deleted | modified | moved => simp at hfile

theorem exists_deleted {content : Text} {changes : List Change}
    (h : (filesWith content changes).2 ≠ []) :
    ∃ p b, .deleted p b ∈ changes ∧ b.content = content := by
  obtain ⟨x, hx⟩ := List.exists_mem_of_ne_nil _ h
  obtain ⟨c, hc, hfile⟩ := List.mem_filterMap.1 hx
  cases c with
  | deleted p b =>
    refine ⟨p, b, hc, ?_⟩
    by_contra hne
    simp [hne] at hfile
  | added | modified | moved => simp at hfile

theorem NothingMoved.joinMoves_eq (h : NothingMoved before after) (content : Text) :
    joinMoves (plainChanges before after) content = plainChanges before after := by
  have hside : (filesWith content (plainChanges before after)).1 = [] ∨
      (filesWith content (plainChanges before after)).2 = [] := by
    by_contra hboth
    rw [not_or] at hboth
    obtain ⟨p, b, hadded, rfl⟩ := exists_added hboth.1
    obtain ⟨q, b', hdeleted, hcontent⟩ := exists_deleted hboth.2
    obtain ⟨hp, hp'⟩ := Change.holds_of_mem hadded
    obtain ⟨hq, hq'⟩ := Change.holds_of_mem hdeleted
    exact h p q b.content hp hp' (hcontent ▸ hq) hq'
  unfold joinMoves
  simp only
  rw [if_pos]
  rcases hside with h₁ | h₁ <;> simp [h₁]

theorem NothingMoved.changes_perm (h : NothingMoved before after) :
    (changes before after).Perm (plainChanges before after) := by
  have hfold : ∀ contents : List Text,
      contents.foldl joinMoves (plainChanges before after) = plainChanges before after := by
    intro contents
    induction contents with
    | nil => rfl
    | cons content rest ih => rw [List.foldl_cons, h.joinMoves_eq, ih]
  rw [changes, hfold]
  exact List.mergeSort_perm _ _

/-- **Every path at which two trees differ is among the changes, unless a file has only moved.** -/
theorem mem_changes_of_ne (hmoved : NothingMoved before after)
    (h : before.content? path ≠ after.content? path) :
    path ∈ (changes before after).map Change.newPath :=
  (hmoved.changes_perm.map Change.newPath).mem_iff.2 (mem_plainChanges_of_ne h)

end Git

end MetricHistory
