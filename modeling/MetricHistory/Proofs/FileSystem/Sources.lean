import MetricHistory.FileSystem.Tree
import MetricHistory.Proofs.FileSystem.Children

/-!
# Looking for sources

A directory has sources when something below it, at any depth, is no directory and has a name with
one of the extensions.

* `FileSystem.mem_belowPlace_iff` : the listing of a directory holds exactly the nodes below it;
* `Files.hasSources_run` : **looking for sources finds out whether there are any, and changes
  nothing**, for directories and where there is none.
-/

namespace MetricHistory

namespace FileSystem

variable {fs : FileSystem} {d place : Place} {way found : List Text} {n : FileNode}

/-- What is listed below a directory are the nodes below it, as far down as the listing goes. -/
theorem mem_belowPlace_iff (hs : fs.Sound) (hd : fs.Distinct) {fuel : ℕ}
    (hplace : fs.node? place = some .dir) : (found, n) ∈ fs.belowPlace fuel place way ↔
      ∃ ys, ys ≠ [] ∧ ys.length ≤ fuel ∧ found = way ++ ys ∧ fs.node? (place ++ ys) = some n := by
  -- each level of fuel lists the children of one more level of directories
  induction fuel generalizing place way with
  | zero =>
    simp only [belowPlace, List.not_mem_nil, Nat.le_zero, List.length_eq_zero_iff, false_iff]
    rintro ⟨ys, hne, hnil, -⟩
    exact hne hnil
  | succ fuel ih =>
    rw [belowPlace, List.mem_flatMap]
    constructor
    · rintro ⟨⟨name, m⟩, hchild, hmem⟩
      rw [hd.mem_children] at hchild
      dsimp only at hmem
      rw [List.mem_cons] at hmem
      rcases hmem with hself | hbelow
      · obtain ⟨rfl, rfl⟩ := Prod.mk.inj hself
        exact ⟨[name], by simp, by simp, rfl, hchild⟩
      · cases m with
        | dir =>
          obtain ⟨ys, -, hlength, rfl, hnode⟩ := (ih hchild).1 hbelow
          exact ⟨name :: ys, by simp, by simpa using hlength, by simp, by simpa using hnode⟩
        | file => simp [FileNode.isDir] at hbelow
        | link => simp [FileNode.isDir] at hbelow
    · rintro ⟨ys, hne, hlength, rfl, hnode⟩
      cases ys with
      | nil => exact absurd rfl hne
      | cons name ys =>
        by_cases hys : ys = []
        · subst hys
          exact ⟨(name, n), hd.mem_children.2 hnode, by simp⟩
        · -- what has something below it is a directory
          have hsplit : place ++ name :: ys = (place ++ [name]) ++ ys := by simp
          have hdir : fs.node? (place ++ [name]) = some .dir := by
            by_contra hno
            rw [hsplit, hs.below_none hno hys] at hnode
            cases hnode
          rw [hsplit] at hnode
          refine ⟨(name, .dir), hd.mem_children.2 hdir, ?_⟩
          refine List.mem_cons_of_mem _ ((ih hdir).2 ⟨ys, hys, ?_, by simp, hnode⟩)
          rw [List.length_cons] at hlength
          omega

theorem node?_of_find_dir (hs : fs.Sound) {path : Text} (h : fs.find false path = .ok (d, .dir)) :
    fs.node? d = some .dir := by
  rw [find] at h
  split at h
  · cases h
  · cases h
  · rename_i hlocate
    obtain ⟨rfl, rfl⟩ := Prod.mk.inj (Except.ok.inj h)
    exact node?_of_locate hs hlocate

theorem le_foldl_max {ls : List ℕ} {start l : ℕ} (h : l ∈ ls ∨ l ≤ start) :
    l ≤ ls.foldl max start := by
  induction ls generalizing start with
  | nil => simpa using h
  | cons x ls ih =>
    rw [List.foldl_cons]
    refine ih ?_
    rcases h with h | h
    · rcases List.mem_cons.1 h with rfl | h
      · exact .inr (le_max_right _ _)
      · exact .inl h
    · exact .inr (h.trans (le_max_left _ _))

theorem length_le_depth {q : Place} (hq : q ≠ []) (h : fs.node? q = some n) :
    q.length ≤ fs.depth :=
  le_foldl_max (.inl (List.mem_map_of_mem (f := fun x : Place × FileNode => x.1.length)
    (mem_nodes_of_eq hq h)))

/-- Something below a place is no directory and has a name with one of the extensions. -/
def HasSource (fs : FileSystem) (d : Place) (extensions : List Text) : Prop :=
  ∃ ys name n, fs.node? (d ++ ys ++ [name]) = some n ∧ n.isDir = false ∧
    ∃ e ∈ extensions, e <:+ name

theorem hasExtension_iff {name : Text} {extensions : List Text} :
    Path.hasExtension name extensions = true ↔ ∃ e ∈ extensions, e <:+ name := by
  simp [Path.hasExtension, Text.endsWith]

theorem any_entries_iff (hs : fs.Sound) (hd : fs.Distinct) (hdir : fs.node? d = some .dir)
    (extensions : List Text) :
    (((fs.belowPlace (fs.depth + 1) d []).map fun x => (x.1.getLast?.getD [], x.2)).any fun x =>
      !x.2.isDir && Path.hasExtension x.1 extensions) = true ↔ fs.HasSource d extensions := by
  rw [List.any_map, List.any_eq_true]
  constructor
  · rintro ⟨⟨found, n⟩, hmem, hsource⟩
    obtain ⟨ys, hne, -, hfound, hnode⟩ := (mem_belowPlace_iff hs hd hdir).1 hmem
    obtain ⟨front, name, hys⟩ := (List.eq_nil_or_concat ys).resolve_left hne
    rw [List.concat_eq_append] at hys
    obtain rfl : found = front ++ [name] := hfound.trans hys
    simp only [Function.comp, Bool.and_eq_true, Bool.not_eq_true', List.getLast?_append,
      List.getLast?_singleton, Option.some_or, Option.getD_some, hasExtension_iff] at hsource
    rw [hys, ← List.append_assoc] at hnode
    exact ⟨front, name, n, hnode, hsource.1, hsource.2⟩
  · rintro ⟨front, name, n, hnode, hfile, hextension⟩
    rw [List.append_assoc] at hnode
    have hlength : (front ++ [name]).length ≤ fs.depth + 1 := by
      have hdepth := length_le_depth (by simp) hnode
      rw [List.length_append] at hdepth
      omega
    refine ⟨(front ++ [name], n), (mem_belowPlace_iff hs hd hdir).2
      ⟨front ++ [name], by simp, hlength, rfl, hnode⟩, ?_⟩
    simp only [Function.comp, Bool.and_eq_true, Bool.not_eq_true', List.getLast?_append,
      List.getLast?_singleton, Option.some_or, Option.getD_some, hasExtension_iff]
    exact ⟨hfile, hextension⟩

/-- The path leads to a directory, not through a link at its end, with sources below it. -/
def HasSources (fs : FileSystem) (dir : Text) (extensions : List Text) : Prop :=
  ∃ d, fs.find false dir = .ok (d, .dir) ∧ fs.HasSource d extensions

end FileSystem

namespace Files

open FileSystem

variable {fs : FileSystem} {dir : Text}

theorem hasSources_eq (dir : Text) (extensions : List Text) (fs : FileSystem) :
    (hasSources dir extensions).run fs =
      match fs.entries dir with
      | .error e => (.error ⟨"lstat", [dir], e⟩, fs)
      | .ok none => (.ok false, fs)
      | .ok (some es) =>
        (.ok (es.any fun x => !x.2.isDir && Path.hasExtension x.1 extensions), fs) := by
  rw [hasSources, run_get_bind]
  cases fs.entries dir with
  | error e => rfl
  | ok found => cases found <;> rfl

/-- **Looking for sources finds out whether there are any, and changes nothing.** -/
theorem hasSources_run (hs : fs.Sound) (hd : fs.Distinct)
    (hdir : fs.find false dir = .error .noEntry ∨ ∃ d, fs.find false dir = .ok (d, .dir))
    (extensions : List Text) :
    ∃ answer, (hasSources dir extensions).run fs = (.ok answer, fs) ∧
      (answer = true ↔ fs.HasSources dir extensions) := by
  rw [hasSources_eq, entries]
  rcases hdir with hmissing | ⟨d, hfind⟩
  · refine ⟨false, by rw [hmissing], ?_⟩
    simp [HasSources, hmissing]
  · rw [hfind]
    refine ⟨_, rfl, ?_⟩
    have hnode := node?_of_find_dir hs hfind
    rw [any_entries_iff hs hd hnode]
    constructor
    · exact fun h => ⟨d, hfind, h⟩
    · rintro ⟨d', hfind', h⟩
      rw [hfind] at hfind'
      obtain rfl := (Prod.mk.inj (Except.ok.inj hfind')).1
      exact h

end Files

end MetricHistory
