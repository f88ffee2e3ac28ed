import MetricHistory.Git.Mirror
import MetricHistory.Proofs.Archive.Repetition
import MetricHistory.Proofs.FileSystem.Listing
import MetricHistory.Proofs.Git.Tree

/-!
# Sparse exports

Some files of a commit are written into an emptied directory.

* `Mirror.Reads` : a mirror has a store, which is found on a way that does not lead through the
  scratch directory, and so is found whatever happens there (`Mirror.Reads.confined`).
* `Mirror.writePaths_run` : writing files one by one unpacks the archive of these files.
* `Mirror.exportSparse_unpacks` : so does a sparse export, in the directory that it has emptied.
* `Mirror.exportSparse_run` : **a sparse export succeeds, and then there are exactly the files that
  were asked for and that the commit has.**
-/

namespace MetricHistory

open FileSystem (Confined Lists Reaches Scratch)

namespace Git.Tree

variable {tree : Git.Tree} {paths : List Text}

/-- The archive of the files at some paths. -/
def sparseEntries (tree : Git.Tree) (paths : List Text) : List ArchiveEntry :=
  (tree.picked paths).map fun (path, content) =>
    { kind := .file, name := path, mode := 0o644, content }

theorem mem_sparseEntries {e : ArchiveEntry} (h : e ∈ tree.sparseEntries paths) :
    e.kind = .file ∧ e.name ∈ paths ∧ ∃ b, (e.name, b) ∈ tree ∧ b.content = e.content := by
  obtain ⟨x, hx, rfl⟩ := List.mem_map.1 h
  obtain ⟨hpath, hcontent⟩ := mem_picked.1 hx
  exact ⟨rfl, hpath, exists_mem_of_content? hcontent⟩

theorem Regular.areFiles (h : tree.Regular) (paths : List Text) :
    Archive.AreFiles (tree.sparseEntries paths) := by
  have hrelative : ∀ e ∈ tree.sparseEntries paths, Path.IsRelative e.name := by
    intro e he
    obtain ⟨-, -, b, hb, -⟩ := mem_sparseEntries he
    exact h.relative _ hb
  refine ⟨fun e he => (mem_sparseEntries he).1, fun e he => (hrelative e he).components_ne_nil,
    fun e he => (hrelative e he).isName, fun e he e' he' hle => ?_⟩
  obtain ⟨x, hx, rfl⟩ := List.mem_map.1 he
  obtain ⟨y, hy, rfl⟩ := List.mem_map.1 he'
  obtain ⟨b, hb, -⟩ := exists_mem_of_content? (mem_picked.1 hx).2
  obtain ⟨b', hb', -⟩ := exists_mem_of_content? (mem_picked.1 hy).2
  -- the paths are the same, so the contents are
  have hpath : x.1 = y.1 := h.apart _ hb _ hb' hle
  have hcontent : x.2 = y.2 := by
    have := (mem_picked.1 hx).2
    rw [hpath, (mem_picked.1 hy).2] at this
    exact (Option.some.inj this).symm
  rw [Prod.ext hpath hcontent]

end Git.Tree

namespace Mirror

variable {m : Mirror} {s : Place} {store : Git.Store} {w w' : World Machine} {dest : Text}
  {tree : Git.Tree} {paths : List Text} {fs : FileSystem}

/-! ### Reading a mirror -/

/-- The path of the mirror leads to a directory with the store, on a way that does not go through
the place `s`. -/
structure Reads (m : Mirror) (s : Place) (store : Git.Store) (w : World Machine) : Prop where
  named : m.path ≠ []
  found : ∃ left d, Reaches (w.files.eraseBelow s) FileSystem.linkLimit (w.files.start m.path)
    (FileSystem.steps m.path) left d ∧ w.outside.stores.lookup d = some store

/-- The store is found whatever happens at the place. -/
theorem Reads.confined (h : m.Reads s store w) (hc : Confined s w.files w'.files)
    (ho : w'.outside = w.outside) : m.Reads s store w' := by
  obtain ⟨left, d, hreach, hstore⟩ := h.found
  refine ⟨h.named, left, d, ?_, by rwa [ho]⟩
  rw [FileSystem.start, hc.current]
  exact hreach.mono hc.keeps_eraseBelow

theorem Reads.below (h : m.Reads s store w) (ys : List Text) : m.Reads (s ++ ys) store w := by
  obtain ⟨left, d, hreach, hstore⟩ := h.found
  exact ⟨h.named, left, d, hreach.mono (FileSystem.keeps_eraseBelow_below _ _ _), hstore⟩

theorem Reads.find_eq (h : m.Reads s store w) :
    ∃ d, w.files.find true m.path = .ok (d, .dir) ∧ w.outside.stores.lookup d = some store := by
  obtain ⟨left, d, hreach, hstore⟩ := h.found
  have hwalk := ((FileSystem.shrinks_eraseBelow w.files s).reaches hreach).walk_eq
  refine ⟨d, ?_, hstore⟩
  rw [FileSystem.find, FileSystem.locate, if_neg (by simpa using h.named), hwalk]

theorem Reads.storeAt_eq (h : m.Reads s store w) : storeAt w m.path = some store := by
  obtain ⟨d, hfind, hstore⟩ := h.find_eq
  rw [storeAt, placeOf, hfind]
  exact hstore

theorem Reads.revision_run (h : m.Reads s store w) {hash : Text} {r : Git.Revision}
    (hr : store.revision? hash = some r) : (m.revision hash).run w = (.ok r, w) := by
  have hfound : ((storeAt w m.path).bind fun s => s.revision? hash) = some r := by
    rw [h.storeAt_eq]
    exact hr
  rw [revision, run_get_bind, hfound]
  rfl

/-! ### Writing files -/

theorem extract_cons_ok {e : ArchiveEntry} {es : List ArchiveEntry} {fs₀ : FileSystem}
    (h : (Archive.extract dest (e :: es)).run fs₀ = (.ok (), fs)) :
    ∃ fs₁, (Archive.extractEntry dest e).run fs₀ = (.ok (), fs₁) ∧
      (Archive.extract dest es).run fs₁ = (.ok (), fs) := by
  rw [Archive.extract_cons] at h
  rcases hr : (Archive.extractEntry dest e).run fs₀ with ⟨f | _, fs₁⟩
  · rw [hr] at h
    cases congrArg Prod.fst h
  · rw [hr] at h
    exact ⟨fs₁, rfl, h⟩

/-- Writing files one by one unpacks the archive of these files. -/
theorem writePaths_run (hgoing : w.canceled = false)
    (hrun : (Archive.extract dest (tree.sparseEntries paths)).run w.files = (.ok (), fs))
    (written : Nat) :
    (writePaths dest tree written paths).run w =
      (.ok (written + (tree.picked paths).length), { w with files := fs }) := by
  induction paths generalizing written w with
  | nil =>
    obtain rfl : w.files = fs := (Prod.mk.inj hrun).2
    rfl
  | cons path rest ih =>
    rw [writePaths, run_bind_ok (Attempt.checkpoint_run hgoing)]
    cases hlookup : tree.lookup path with
    | none =>
      have hskip : tree.picked (path :: rest) = tree.picked rest := by
        simp [Git.Tree.picked, Git.Tree.content?, hlookup]
      rw [Git.Tree.sparseEntries, hskip] at hrun
      rw [hskip]
      exact ih hgoing hrun written
    | some b =>
      have hpick : tree.picked (path :: rest) = (path, b.content) :: tree.picked rest := by
        simp [Git.Tree.picked, Git.Tree.content?, hlookup]
      rw [Git.Tree.sparseEntries, hpick, List.map_cons] at hrun
      obtain ⟨fs₁, hfirst, hrest⟩ := extract_cons_ok hrun
      -- the first file is written by the task that recreates its entry
      have htask : (do
          let target ← Archive.target dest path
          FileTask.ofFiles (Archive.writeFile target b.content 0o644) : FileTask Unit).run w.files =
          (.ok (), fs₁) := hfirst
      have hcount : written + (tree.picked (path :: rest)).length =
          written + 1 + (tree.picked rest).length := by
        rw [hpick, List.length_cons]
        omega
      simp only
      rw [run_bind_ok (Attempt.ofTask_run_ok htask), hcount]
      exact ih (w := { w with files := fs₁ }) hgoing hrest (written + 1)

theorem exists_unpacked_nil (hdest : Scratch dest s fs) (hempty : FileSystem.Emptied s fs) :
    ∃ spare, Archive.Unpacked dest spare s [] fs := by
  obtain ⟨spare, hreach⟩ := hdest.reaches hempty.dir
  have hnamed : dest ≠ [] := by
    obtain ⟨_, _, _, _, _, hpath, hproper, -⟩ := hdest.way
    exact hpath ▸ Path.Normal.render_ne_nil hproper
  refine ⟨spare, hdest.sound, ⟨hnamed, hreach⟩, fun names n hne hn => ?_⟩
  rw [hempty.empty names hne] at hn
  simp at hn

/-- A sparse export empties the directory and unpacks the archive of the files that are asked for
there. -/
theorem exportSparse_unpacks (hgoing : w.canceled = false) (hdest : Scratch dest s w.files)
    (hreads : m.Reads s store w) {hash : Text} {r : Git.Revision}
    (hr : store.revision? hash = some r) (ht : r.tree.Regular) :
    ∃ spare fs₁, Confined s w.files fs₁ ∧ FileSystem.Emptied s fs₁ ∧ fs₁.clock = w.files.clock ∧
      fs₁.mask = w.files.mask ∧
      ∀ paths, ∃ fs', (m.exportSparse hash paths dest).run w =
          (.ok (r.tree.picked paths).length, { w with files := fs' }) ∧
        Archive.Unpacked dest spare s (r.tree.sparseEntries paths) fs' ∧
        Archive.Placed dest s (r.tree.sparseEntries paths) fs₁ fs' := by
  obtain ⟨fs₁, hreset, hconfined, hempty, hclock, hmask⟩ := hdest.resetDir_run
  obtain ⟨spare, hbare⟩ := exists_unpacked_nil (hdest.confined hconfined) hempty
  refine ⟨spare, fs₁, hconfined, hempty, hclock, hmask, fun paths => ?_⟩
  obtain ⟨fs₂, hextract, hunpacked, hplaced⟩ := hbare.run_files (ht.areFiles paths) (by simp)
  refine ⟨fs₂, ?_, hunpacked, hplaced⟩
  rw [exportSparse, run_bind_ok (Attempt.onFiles_run_ok hreset)]
  by_cases hnone : paths = []
  · subst hnone
    obtain rfl : fs₁ = fs₂ := (Prod.mk.inj hextract).2
    rfl
  rw [if_neg (by simpa using hnone)]
  have hreads' : m.Reads s store { w with files := fs₁ } := hreads.confined hconfined rfl
  rw [run_bind_ok (hreads'.revision_run hr),
    writePaths_run (w := { w with files := fs₁ }) hgoing hextract, Nat.zero_add]

theorem confined_of_placed {es : List ArchiveEntry} {fs₁ fs₂ : FileSystem}
    (h : Archive.Placed dest s es fs₁ fs₂) (hs : fs₂.Sound) : Confined s fs₁ fs₂ :=
  ⟨fun _ hn => h.kept hn, fun hq hn => .inl (by rwa [← h.outside hq]), h.current, hs⟩

/-- **A sparse export succeeds, and then there are exactly the files that were asked for and that
the commit has.**  Nothing has changed elsewhere. -/
theorem exportSparse_run (hgoing : w.canceled = false) (hdest : Scratch dest s w.files)
    (hreads : m.Reads s store w) {hash : Text} {r : Git.Revision}
    (hr : store.revision? hash = some r) (ht : r.tree.Regular) (hpaths : paths.Nodup) :
    ∃ fs', (m.exportSparse hash paths dest).run w =
        (.ok (r.tree.picked paths).length, { w with files := fs' }) ∧
      Confined s w.files fs' ∧ Lists s (r.tree.picked paths) fs' := by
  obtain ⟨spare, fs₁, hconfined, hempty, -, -, hexport⟩ :=
    exportSparse_unpacks hgoing hdest hreads hr ht
  obtain ⟨fs₂, hrun, hunpacked, hplaced⟩ := hexport paths
  have hdir : fs₂.node? s = some .dir := hplaced.kept hempty.dir
  refine ⟨fs₂, hrun, hconfined.trans (confined_of_placed hplaced hunpacked.sound), hdir, ?_,
    fun x hx => ?_, fun ys content => ?_⟩
  · rw [Git.Tree.picked_paths]
    exact hpaths.filter _
  · obtain ⟨b, hb, -⟩ := Git.Tree.exists_mem_of_content? (Git.Tree.mem_picked.1 hx).2
    exact ht.relative _ hb
  · constructor
    · rintro ⟨mode, t, hnode⟩
      -- a node below the directory is there for one of the entries, and a file at the end of its path
      have hys : ys ≠ [] := by
        rintro rfl
        rw [List.append_nil, hdir] at hnode
        simp at hnode
      obtain ⟨e, he, -, -, hno | ⟨-, rfl, hnode'⟩⟩ := hunpacked.nodes ys _ hys hnode
      · simp at hno
      obtain ⟨x, hx, rfl⟩ := List.mem_map.1 he
      refine ⟨x, hx, rfl, ?_⟩
      simp only [Archive.node, FileNode.file.injEq] at hnode'
      exact hnode'.2.1.symm
    · rintro ⟨x, hx, rfl, rfl⟩
      exact ⟨_, _, hplaced.entries _ (List.mem_map_of_mem hx) (by simp [Archive.Kept])⟩

end Mirror

end MetricHistory
