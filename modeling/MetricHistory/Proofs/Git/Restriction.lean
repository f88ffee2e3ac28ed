import MetricHistory.Proofs.Git.Export

/-!
# A sparse export restricts a tree

A sparse export is asked for files by a list of paths.  Paths may come again, be unknown to the
commit, or be those of directories: only the set of the known ones matters.

* `Git.Tree.Restricts` : what a tree holds when it is cut down to the files at some paths.
* `Mirror.exportSparse_restricts` : **whatever was in the directory before, there is afterwards the
  tree cut down to the paths, and nothing else**, and the order and the repetitions of the paths do
  not matter.
-/

namespace MetricHistory

open FileSystem (Confined Scratch)

namespace Git.Tree

variable {tree : Git.Tree} {paths : List Text} {mode : ℕ} {clock : Time} {names : List Text}
  {n : FileNode}

/-- What a tree that is cut down to the files at some paths holds at the end of the given names:
these files, written at a moment with some permission bits, and the directories that lead to
them. -/
inductive Restricts (tree : Git.Tree) (paths : List Text) (mode : ℕ) (clock : Time) :
    List Text → FileNode → Prop
  | file {path : Text} {b : Blob} (hpath : path ∈ paths) (hb : (path, b) ∈ tree) :
      Restricts tree paths mode clock (Path.components path) (.file mode b.content clock)
  | around {path : Text} {b : Blob} {names : List Text} (hpath : path ∈ paths)
      (hb : (path, b) ∈ tree) (hpre : names <+: Path.components path)
      (hne : names ≠ Path.components path) : Restricts tree paths mode clock names .dir

theorem Restricts.of_subset {paths' : List Text} (hsub : paths ⊆ paths')
    (h : tree.Restricts paths mode clock names n) : tree.Restricts paths' mode clock names n := by
  cases h with
  | file hpath hb => exact .file (hsub hpath) hb
  | around hpath hb hpre hne => exact .around (hsub hpath) hb hpre hne

theorem Regular.mem_sparseEntries (h : tree.Regular) {path : Text} {b : Blob} (hpath : path ∈ paths)
    (hb : (path, b) ∈ tree) :
    { kind := .file, name := path, mode := 0o644, content := b.content } ∈
      tree.sparseEntries paths :=
  List.mem_map_of_mem (a := (path, b.content)) (mem_picked.2 ⟨hpath, content?_of_mem h.nodup hb⟩)

theorem exists_of_mem_sparseEntries {e : ArchiveEntry} (h : e ∈ tree.sparseEntries paths) :
    ∃ path b, path ∈ paths ∧ (path, b) ∈ tree ∧
      e = { kind := .file, name := path, mode := 0o644, content := b.content } := by
  obtain ⟨⟨path, content⟩, hx, rfl⟩ := List.mem_map.1 h
  obtain ⟨hpath, hcontent⟩ := mem_picked.1 hx
  obtain ⟨b, hb, rfl⟩ := exists_mem_of_content? hcontent
  exact ⟨path, b, hpath, hb, rfl⟩

theorem length_picked (tree : Git.Tree) (paths : List Text) :
    (tree.picked paths).length = paths.countP fun path => path ∈ tree.map (·.1) := by
  have hknown : ∀ path, (tree.content? path).isSome = true ↔ path ∈ tree.map (·.1) := by
    intro path
    rw [content?, Option.isSome_map, List.lookup_isSome_iff]
    simp
  rw [← List.length_map (f := (·.1)), picked_paths, ← List.countP_eq_length_filter]
  exact List.countP_congr fun path _ => by simp [hknown]

end Git.Tree

namespace Archive

variable {tree : Git.Tree} {paths names : List Text} {dest : Text} {spare : ℕ} {root : Place}
  {fs fs' : FileSystem} {n : FileNode}

/-- Once the files at some paths have been recreated, there is the tree cut down to these paths. -/
theorem Unpacked.restricts_iff (h : Unpacked dest spare root (tree.sparseEntries paths) fs')
    (hplaced : Placed dest root (tree.sparseEntries paths) fs fs') (ht : tree.Regular)
    (hne : names ≠ []) :
    fs'.node? (root ++ names) = some n ↔
      tree.Restricts paths (fs.granted 0o644) fs.clock names n := by
  have hmode : permissions 0o644 = 0o644 := by decide
  have hfile : ∀ {path : Text} {b : Git.Blob}, path ∈ paths → (path, b) ∈ tree →
      fs'.node? (root ++ Path.components path) =
        some (.file (fs.granted 0o644) b.content fs.clock) := by
    intro path b hpath hb
    have hentry := hplaced.entries _ (ht.mem_sparseEntries hpath hb) (by simp [Kept])
    rwa [node, hmode] at hentry
  constructor
  · intro hn
    obtain ⟨e, he, -, hpre, hnode⟩ := h.nodes names n hne hn
    obtain ⟨path, b, hpath, hb, rfl⟩ := Git.Tree.exists_of_mem_sparseEntries he
    by_cases hend : names = Path.components path
    · subst hend
      obtain rfl := Option.some.inj (hn.symm.trans (hfile hpath hb))
      exact .file hpath hb
    · obtain rfl : n = .dir := hnode.resolve_right fun hno => hend hno.2.1
      exact .around hpath hb hpre hend
  · intro hn
    cases hn with
    | file hpath hb => exact hfile hpath hb
    | @around path b _ hpath hb hpre hend =>
      obtain ⟨ws, hws⟩ := hpre
      have hws_ne : ws ≠ [] := by
        rintro rfl
        exact hend (by simpa using hws)
      have hthere := hfile hpath hb
      rw [← hws, ← List.append_assoc] at hthere
      exact h.sound.dir_of_below hthere hws_ne

end Archive

namespace Mirror

variable {m : Mirror} {s : Place} {store : Git.Store} {w : World Machine} {dest : Text}

/-- **A sparse export succeeds, and cuts the tree of the commit down to the paths**, whatever the
paths are and whatever the directory held before: afterwards it holds the files of the commit at the
paths and the directories that lead to them, and nothing else.  The files are counted as often as
their paths come.  Elsewhere nothing has changed, and other paths lead to the same files if they are
the same as a set. -/
theorem exportSparse_restricts (hgoing : w.canceled = false) (hdest : Scratch dest s w.files)
    (hreads : m.Reads s store w) {hash : Text} {r : Git.Revision}
    (hr : store.revision? hash = some r) (ht : r.tree.Regular) (paths : List Text) :
    ∃ fs', (m.exportSparse hash paths dest).run w =
        (.ok (paths.countP fun path => path ∈ r.tree.map (·.1)), { w with files := fs' }) ∧
      fs'.node? s = some .dir ∧
      (∀ names n, names ≠ [] →
        (fs'.node? (s ++ names) = some n ↔
          r.tree.Restricts paths (w.files.granted 0o644) w.files.clock names n)) ∧
      Confined s w.files fs' ∧
      ∀ paths', (∀ path, path ∈ paths' ↔ path ∈ paths) →
        ∃ fs'', (m.exportSparse hash paths' dest).run w =
            (.ok (paths'.countP fun path => path ∈ r.tree.map (·.1)), { w with files := fs'' }) ∧
          ∀ q, fs''.node? q = fs'.node? q := by
  obtain ⟨spare, fs₁, hconfined, hempty, hclock, hmask, hexport⟩ :=
    exportSparse_unpacks hgoing hdest hreads hr ht
  simp only [Git.Tree.length_picked] at hexport
  obtain ⟨fs', hrun, hunpacked, hplaced⟩ := hexport paths
  refine ⟨fs', hrun, hplaced.kept hempty.dir, fun names n hne => ?_,
    hconfined.trans (confined_of_placed hplaced hunpacked.sound), fun paths' hsame => ?_⟩
  · rw [← hclock, ← FileSystem.granted_congr hmask]
    exact hunpacked.restricts_iff hplaced ht hne
  obtain ⟨fs'', hrun', hunpacked', hplaced'⟩ := hexport paths'
  refine ⟨fs'', hrun', fun q => ?_⟩
  by_cases hq : s <+: q
  · obtain ⟨names, rfl⟩ := hq
    by_cases hne : names = []
    · rw [hne, List.append_nil, hplaced'.kept hempty.dir, hplaced.kept hempty.dir]
    · refine Option.ext fun n => ?_
      rw [hunpacked'.restricts_iff hplaced' ht hne, hunpacked.restricts_iff hplaced ht hne]
      exact ⟨.of_subset fun path hpath => (hsame path).1 hpath,
        .of_subset fun path hpath => (hsame path).2 hpath⟩
  · rw [hplaced'.outside hq, hplaced.outside hq]

/-- Two files in one directory, a link, and a file beside them. -/
def shelf : Git.Tree :=
  [("a", ⟨.plain, "1"⟩), ("b/c", ⟨.executable, "2"⟩), ("b/d", ⟨.link, "c"⟩), ("e", ⟨.plain, "3"⟩)]

def shelfRevision : Git.Revision where
  hash := "c1"
  parents := []
  tree := shelf
  committed := Time.zero
  authored := Time.zero
  message := []

def shelfStore : Git.Store where
  revisions := [shelfRevision]

/-- The directory is there, with a file where one of the tree has its directory. -/
def clutteredWorld : World Machine where
  files :=
    ((({} : FileSystem).put ["repo"] .dir).put ["d"] .dir).put ["d", "b"] (.file 0o600 "x" Time.zero)
  outside := { stores := [(["repo"], shelfStore)] }

theorem cluttered_scratch : Scratch "/d" ["d"] clutteredWorld.files :=
  have hname : Path.IsName "d" := by decide
  have hrepo : (({} : FileSystem).put ["repo"] .dir).Sound :=
    FileSystem.sound_empty.put (d := []) rfl (by decide) .dir
  have hd : ((({} : FileSystem).put ["repo"] .dir).put ["d"] .dir).Sound :=
    hrepo.put (d := []) rfl (by decide) .dir
  have hsound : clutteredWorld.files.Sound := hd.put (d := ["d"]) (by decide) (by decide) _
  hsound.scratch_root hname (by decide)

theorem cluttered_reads : Mirror.Reads { path := "/repo" } ["d"] shelfStore clutteredWorld := by
  have hdir : (clutteredWorld.files.eraseBelow ["d"]).node? ([] ++ [Text.ofString "repo"]) =
      some .dir := by decide
  have hreach : FileSystem.Reaches (clutteredWorld.files.eraseBelow ["d"])
      FileSystem.linkLimit [] [Text.ofString "repo"] FileSystem.linkLimit ["repo"] :=
    .down (by decide) (by decide) hdir (.here _ _)
  have hsteps : FileSystem.steps "/repo" = [Text.ofString "repo"] := by decide
  exact ⟨by decide, FileSystem.linkLimit, ["repo"], hsteps ▸ hreach, rfl⟩

theorem shelf_regular : shelf.Regular := ⟨by decide, by decide, by decide⟩

/-- A path that comes twice, one of a directory and one that the commit does not have. -/
theorem exportSparse_restricts_cluttered :
    Scratch "/d" ["d"] clutteredWorld.files ∧
      Mirror.Reads { path := "/repo" } ["d"] shelfStore clutteredWorld ∧ shelf.Regular ∧
      ∃ fs', (({ path := "/repo" } : Mirror).exportSparse "c1" ["b/c", "b", "no", "b/d", "b/c"]
            "/d").run clutteredWorld = (.ok 3, { clutteredWorld with files := fs' }) ∧
          (∀ names n, names ≠ [] → (fs'.node? ([Text.ofString "d"] ++ names) = some n ↔
            shelf.Restricts ["b/c", "b", "no", "b/d", "b/c"] 0o644 Time.zero names n)) ∧
          ∃ fs'', (({ path := "/repo" } : Mirror).exportSparse "c1" ["no", "b/d", "b/c", "b"]
              "/d").run clutteredWorld = (.ok 2, { clutteredWorld with files := fs'' }) ∧
            ∀ q, fs''.node? q = fs'.node? q := by
  obtain ⟨fs', hrun, -, hnodes, -, hother⟩ := exportSparse_restricts rfl
    cluttered_scratch cluttered_reads (show shelfStore.revision? "c1" = some shelfRevision from rfl)
    shelf_regular
    ["b/c", "b", "no", "b/d", "b/c"]
  obtain ⟨fs'', hrun', hsame⟩ := hother ["no", "b/d", "b/c", "b"] fun path => by
    simp only [List.mem_cons, List.not_mem_nil, or_false]
    tauto
  exact ⟨cluttered_scratch, cluttered_reads, shelf_regular, fs', hrun, hnodes, fs'', hrun', hsame⟩

end Mirror

end MetricHistory
