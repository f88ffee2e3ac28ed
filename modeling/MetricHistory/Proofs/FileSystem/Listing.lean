import MetricHistory.Proofs.FileSystem.Scratch

/-!
# The files below a directory

`FileSystem.filesBelow` lists the files below a place by their paths from there, with their
contents.  `FileSystem.Lists` says what files there are, node by node: it is what work on the nodes
keeps, and it determines the listing up to its order (`FileSystem.Lists.perm`).
-/

namespace MetricHistory

namespace FileSystem

variable {fs fs' : FileSystem} {s d q : Place} {files : List (Text × Text)}

/-- The file at a place below a directory: its path from there, and its content. -/
def fileBelow? (fs : FileSystem) (d q : Place) : Option (Text × Text) :=
  match fs.node? q with
  | some (.file _ content _) =>
    if d <+: q then some (Text.join [Path.slash] (q.drop d.length), content) else none
  | _ => none

/-- The files below a place: their paths from there, and their contents. -/
def filesBelow (fs : FileSystem) (d : Place) : List (Text × Text) :=
  (fs.nodes.map (·.1)).dedup.filterMap (fs.fileBelow? d)

/-- There is a directory, and the files below it are exactly the given ones. -/
structure Lists (d : Place) (files : List (Text × Text)) (fs : FileSystem) : Prop where
  dir : fs.node? d = some .dir
  nodup : (files.map (·.1)).Nodup
  relative : ∀ x ∈ files, Path.IsRelative x.1
  file_iff : ∀ ys content, (∃ mode t, fs.node? (d ++ ys) = some (.file mode content t)) ↔
    ∃ x ∈ files, Path.components x.1 = ys ∧ x.2 = content

theorem fileBelow?_eq_some {x : Text × Text} : fs.fileBelow? d q = some x ↔
    ∃ ys content, q = d ++ ys ∧ (∃ mode t, fs.node? (d ++ ys) = some (.file mode content t)) ∧
      x = (Text.join [Path.slash] ys, content) := by
  unfold fileBelow?
  constructor
  · intro h
    split at h
    · rename_i mode content t hnode
      split at h
      · rename_i hp
        obtain ⟨ys, rfl⟩ := hp
        rw [List.drop_left] at h
        exact ⟨ys, content, rfl, ⟨mode, t, hnode⟩, (Option.some.inj h).symm⟩
      · simp at h
    · simp at h
  · rintro ⟨ys, content, rfl, ⟨mode, t, hnode⟩, rfl⟩
    simp only [hnode]
    rw [if_pos (List.prefix_append d ys), List.drop_left]

theorem mem_nodes_of_eq {n : FileNode} (hq : q ≠ []) (h : fs.node? q = some n) :
    (q, n) ∈ fs.nodes := by
  rw [node?, if_neg (by simpa using hq)] at h
  obtain ⟨l, l', hnodes, -⟩ := List.lookup_eq_some_iff.1 h
  simp [hnodes]

theorem mem_nodes_of_node? {n : FileNode} (hq : q ≠ []) (h : fs.node? q = some n) :
    q ∈ fs.nodes.map (·.1) :=
  List.mem_map_of_mem (mem_nodes_of_eq hq h)

theorem Lists.mem_of_file (h : Lists d files fs) {ys : List Text} {content : Text}
    (hnode : ∃ mode t, fs.node? (d ++ ys) = some (.file mode content t)) :
    (Text.join [Path.slash] ys, content) ∈ files ∧
      Path.components (Text.join [Path.slash] ys) = ys := by
  obtain ⟨x, hx, rfl, rfl⟩ := (h.file_iff ys content).1 hnode
  rw [(h.relative x hx).join_components]
  exact ⟨hx, rfl⟩

/-- **The listing of the files below a place gives the files that are there, in some order.** -/
theorem Lists.perm (h : Lists d files fs) : (fs.filesBelow d).Perm files := by
  have hnodup : (fs.filesBelow d).Nodup := by
    refine (List.nodup_dedup _).filterMap fun q q' x hq hq' => ?_
    obtain ⟨ys, content, rfl, hnode, rfl⟩ := fileBelow?_eq_some.1 hq
    obtain ⟨ys', content', rfl, hnode', heq⟩ := fileBelow?_eq_some.1 hq'
    -- the paths of two places are the same only if the places are
    rw [← (h.mem_of_file hnode).2, ← (h.mem_of_file hnode').2, (Prod.mk.inj heq).1]
  refine (List.perm_ext_iff_of_nodup hnodup (List.Nodup.of_map _ h.nodup)).2 fun x => ?_
  rw [filesBelow, List.mem_filterMap]
  constructor
  · rintro ⟨q, -, hq⟩
    obtain ⟨ys, content, -, hnode, rfl⟩ := fileBelow?_eq_some.1 hq
    exact (h.mem_of_file hnode).1
  · intro hx
    have hrelative := h.relative x hx
    obtain ⟨mode, t, hnode⟩ := (h.file_iff (Path.components x.1) x.2).2 ⟨x, hx, rfl, rfl⟩
    refine ⟨d ++ Path.components x.1, ?_, fileBelow?_eq_some.2 ⟨_, x.2, rfl, ⟨mode, t, hnode⟩, ?_⟩⟩
    · rw [List.mem_dedup]
      exact mem_nodes_of_node? (by simp [hrelative.components_ne_nil]) hnode
    · rw [hrelative.join_components]

/-- Files are not touched by what happens in another place. -/
theorem Lists.confined (h : Lists d files fs) (hc : Confined s fs fs') (hsd : ¬ s <+: d)
    (hds : ¬ d <+: s) : Lists d files fs' := by
  refine ⟨?_, h.nodup, h.relative, fun ys content => ?_⟩
  · rw [hc.node?_eq hsd hds, h.dir]
  rw [hc.node?_below_eq hsd hds ys]
  exact h.file_iff ys content

end FileSystem

end MetricHistory
