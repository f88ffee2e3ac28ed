import MetricHistory.FileSystem.Tree
import MetricHistory.Proofs.FileSystem.Listing

/-!
# What is in a directory

A file system that is kept as a list of places lists no place twice (`FileSystem.Distinct`), and no
operation changes that.  Then the children of a directory are the nodes that are there, each once.

* `FileSystem.mem_children` and `FileSystem.Distinct.nodup_children` : the children of a directory;
* `FileSystem.Distinct.put`, `FileSystem.Distinct.erase`, `FileSystem.Distinct.moved` and others :
  no operation lists a place twice, and `Files.makeDirs_distinct` for directories that are made on
  any path.
-/

namespace MetricHistory

namespace FileSystem

variable {fs : FileSystem} {p source target : Place} {x : Text} {n : FileNode}

/-- No place is listed twice. -/
def Distinct (fs : FileSystem) : Prop := (fs.nodes.map (·.1)).Nodup

theorem Distinct.of_sublist {fs' : FileSystem} (h : fs.Distinct)
    (hsub : fs'.nodes.Sublist fs.nodes) : fs'.Distinct :=
  h.sublist (hsub.map _)

theorem Distinct.erase (h : fs.Distinct) (p : Place) : (fs.erase p).Distinct :=
  h.of_sublist List.filter_sublist

theorem Distinct.eraseBelow (h : fs.Distinct) (p : Place) : (fs.eraseBelow p).Distinct :=
  h.of_sublist List.filter_sublist

theorem Distinct.put (h : fs.Distinct) (p : Place) (n : FileNode) : (fs.put p n).Distinct := by
  rw [Distinct, FileSystem.put, List.map_append]
  refine (h.erase p).append (by simp) fun q hq hp => ?_
  rw [List.map_singleton, List.mem_singleton] at hp
  obtain ⟨m, hm, rfl⟩ := List.mem_map.1 hq
  simpa [hp] using List.of_mem_filter hm

theorem isSome_of_mem_nodes {m : Place × FileNode} (h : m ∈ fs.nodes) :
    (fs.node? m.1).isSome = true := by
  rw [node?]
  split
  · rfl
  · cases hl : fs.nodes.lookup m.1 with
    | some _ => rfl
    | none =>
      rw [List.lookup_eq_none_iff] at hl
      simpa using hl m h

theorem Distinct.node?_eq (h : fs.Distinct) (hp : p ≠ []) (hmem : (p, n) ∈ fs.nodes) :
    fs.node? p = some n := by
  obtain ⟨m, hm⟩ := Option.isSome_iff_exists.1 (isSome_of_mem_nodes hmem)
  have hsame := List.inj_on_of_nodup_map h hmem (mem_nodes_of_eq hp hm) rfl
  rw [hm, (Prod.mk.inj hsame).2]

/-- Moving a file lists no place twice, since nothing is below it. -/
theorem Distinct.moved (h : fs.Distinct) (hs : fs.Sound) {mode : Nat} {content : Text}
    {modified : Time} (hsource : fs.node? source = some (.file mode content modified)) :
    (fs.moved source target).Distinct := by
  have honly : ∀ m ∈ fs.nodes, source <+: m.1 → m.1 = source := by
    rintro ⟨q, k⟩ hm ⟨ys, rfl⟩
    by_contra hne
    have hnone := hs.below_none (by rw [hsource]; simp) (q := ys) (by simpa using hne)
    simpa [hnone] using isSome_of_mem_nodes hm
  have hmoved : ∀ q ∈ (movedNodes source target fs.nodes).map (·.1), q = target := by
    intro q hq
    obtain ⟨x, hx, rfl⟩ := List.mem_map.1 hq
    obtain ⟨m, hm, hm'⟩ := List.mem_filterMap.1 hx
    dsimp only at hm'
    split at hm'
    · rename_i hp
      rw [honly m hm (List.isPrefixOf_iff_prefix.1 hp), List.drop_length, List.append_nil] at hm'
      rw [← Option.some.inj hm']
    · simp at hm'
  rw [Distinct, FileSystem.moved, List.map_append]
  refine ((h.eraseBelow source).erase target).append ?_ fun q hq hq' => ?_
  · rw [movedNodes, List.map_filterMap]
    -- the places that are moved are told apart by what follows the source
    have hkeys : (fs.nodes.filterMap fun m => Option.map (·.1)
        (if source.isPrefixOf m.1 then some (target ++ m.1.drop source.length, m.2) else none)) =
        (fs.nodes.map (·.1)).filterMap fun q =>
          if source.isPrefixOf q then some (target ++ q.drop source.length) else none := by
      rw [List.filterMap_map]
      congr 1
      funext m
      dsimp only [Function.comp]
      split <;> rfl
    rw [hkeys]
    refine h.filterMap fun q q' x hq hq' => ?_
    simp only [Option.mem_def, Option.ite_none_right_eq_some, List.isPrefixOf_iff_prefix,
      Option.some.injEq] at hq hq'
    obtain ⟨⟨ys, rfl⟩, rfl⟩ := hq
    obtain ⟨⟨ys', rfl⟩, heq⟩ := hq'
    simpa using heq.symm
  · rw [hmoved q hq'] at hq
    obtain ⟨m, hm, rfl⟩ := List.mem_map.1 hq
    simpa using List.of_mem_filter hm

/-- The name of a place that is directly in a directory. -/
def nameIn? (p q : Place) : Option Text :=
  if p.isPrefixOf q && q.length == p.length + 1 then q.getLast? else none

theorem nameIn?_eq_some {q : Place} : nameIn? p q = some x ↔ q = p ++ [x] := by
  rw [nameIn?, Option.ite_none_right_eq_some, Bool.and_eq_true, beq_iff_eq,
    List.isPrefixOf_iff_prefix]
  constructor
  · rintro ⟨⟨⟨ys, rfl⟩, hlength⟩, hlast⟩
    rw [List.length_append, Nat.add_left_cancel_iff, List.length_eq_one_iff] at hlength
    obtain ⟨y, rfl⟩ := hlength
    simpa using hlast
  · rintro rfl
    simp

theorem children_perm (fs : FileSystem) (p : Place) :
    (fs.children p).Perm (fs.nodes.filterMap fun m => (nameIn? p m.1).map (·, m.2)) := by
  have hnamed : (fun m : Place × FileNode =>
      if p.isPrefixOf m.1 && m.1.length == p.length + 1 then m.1.getLast?.map (·, m.2) else none) =
      fun m => (nameIn? p m.1).map (·, m.2) := by
    funext m
    rw [nameIn?]
    split <;> rfl
  rw [← hnamed]
  exact List.mergeSort_perm _ _

/-- **The children of a directory are the nodes that are in it.** -/
theorem Distinct.mem_children (h : fs.Distinct) :
    (x, n) ∈ fs.children p ↔ fs.node? (p ++ [x]) = some n := by
  rw [(children_perm fs p).mem_iff, List.mem_filterMap]
  constructor
  · rintro ⟨⟨q, m⟩, hm, hx⟩
    obtain ⟨y, hy, hyx⟩ := Option.map_eq_some_iff.1 hx
    obtain ⟨rfl, rfl⟩ := Prod.mk.inj hyx
    dsimp only at hy
    rw [nameIn?_eq_some.1 hy] at hm
    exact h.node?_eq (by simp) hm
  · intro hnode
    exact ⟨_, mem_nodes_of_eq (by simp) hnode, by rw [nameIn?_eq_some.2 rfl]; rfl⟩

theorem Distinct.nodup_children (h : fs.Distinct) (p : Place) : ((fs.children p).map (·.1)).Nodup := by
  have hnames : ((fs.nodes.filterMap fun m => (nameIn? p m.1).map (·, m.2)).map (·.1)) =
      (fs.nodes.map (·.1)).filterMap (nameIn? p) := by
    rw [List.map_filterMap, List.filterMap_map]
    congr 1
    funext m
    dsimp only [Function.comp]
    cases nameIn? p m.1 <;> rfl
  refine ((children_perm fs p).map _).nodup_iff.2 (hnames ▸ h.filterMap fun q q' y hq hq' => ?_)
  rw [nameIn?_eq_some.1 hq, nameIn?_eq_some.1 hq']

end FileSystem

namespace Files

open FileSystem

variable {fs : FileSystem}

theorem makeLast_distinct (h : fs.Distinct) (path : Text) : (makeLast path fs).2.Distinct := by
  unfold makeLast
  split
  · exact h.put _ _
  · exact h
  · exact h
  · exact h

theorem makeDirs_distinct (h : fs.Distinct) (path : Text) :
    ((makeDirs path).run fs).2.Distinct := by
  have hall : ∀ fuel path, ((makeDirsUpTo fuel path).run fs).2.Distinct := by
    intro fuel
    induction fuel with
    | zero =>
      intro path
      rw [makeDirsUpTo, makeDir, run_get_bind]
      rcases fs.locate false (withoutSlashes path) with e | ⟨q, _ | n⟩
      · exact h
      · exact h.put _ _
      · exact h
    | succ fuel ih =>
      intro path
      rw [makeDirsUpTo_run]
      split
      · exact h
      · exact h
      split
      · have hparent := ih (parentPath path)
        split
        · rename_i hrun
          rwa [hrun] at hparent
        · rename_i hrun
          rw [hrun] at hparent
          exact makeLast_distinct hparent path
      · exact makeLast_distinct h path
  exact hall path.length path

end Files

end MetricHistory
