import MetricHistory.Proofs.Commit.Delta
import MetricHistory.Proofs.Git.FullExport
import MetricHistory.Proofs.Snapshot.Isolation

/-!
# What a mirror answers

The isolation of samples and of commits is proved for histories that answer the same in every state of
the scratch directory (`SeriesPlan.Answering`, `ScanPlan.Answering`).  A mirror does, as long as it can
be read: its answers are those of its store, and an export replaces whatever was in the directory.

* `Mirror.seriesAnswers` and `Mirror.series_answering` : **what a mirror answers to a series.**
* `Mirror.scanAnswers` and `Mirror.scan_answering` : **what a mirror answers to a scan.**

Nothing is left to ask for but that the analyzer works in the scratch directory, and that neither it
nor the display touches the mirror.
-/

namespace MetricHistory

namespace Mirror

open FileSystem (Confined Scratch Shows)

variable {m : Mirror} {s : Place} {store : Git.Store} {w : World Machine} {dest hash : Text}
  {mask : ℕ} {diff : Git.Tree → Git.Tree → List Git.Change}

/-! ### Series -/

/-- What a mirror answers to a series in a scratch directory. -/
def seriesAnswers (store : Git.Store) (dest : Text) (mask : ℕ) (measured : Tree → Option Document) :
    SeriesPlan.Answers where
  resolved date := do
    let history ← store.history none
    let newest ← history.find? fun r => r.committed.seconds ≤ endOfDay date.date
    return newest.hash
  newest := store.head
  tree hash := (named store hash).map fun r => Archive.treeOf dest (archiveOf r.tree) mask
  measured := measured

theorem Runnable.query_run {α : Type} (h : m.Runnable s store mask w) (hgoing : w.canceled = false)
    (arguments : List Text) (read : Git.Store → Option α) :
    (m.query arguments read).run w =
      ((read store).elim (.error (.command arguments refusal)) .ok, w) := by
  unfold query command
  simp only [ExceptT.run, hgoing, Bool.false_eq_true, if_false, h.obstacle?_eq, h.reads.storeAt_eq,
    Option.bind_some]
  cases read store <;> rfl

theorem Runnable.head_run (h : m.Runnable s store mask w) (hgoing : w.canceled = false) :
    (m.head.run w).1.toOption = store.head ∧ (m.head.run w).2 = w := by
  rw [head, h.query_run hgoing]
  cases store.head <;> exact ⟨rfl, rfl⟩

theorem Runnable.resolve_run (h : m.Runnable s store mask w) (hgoing : w.canceled = false)
    (dest : Text) (measured : Tree → Option Document) (date : Time) :
    ((m.resolve date).run w).1.toOption =
        (seriesAnswers store dest mask measured).resolved date ∧
      ((m.resolve date).run w).2 = w := by
  rw [resolve, run_bind, h.query_run hgoing, seriesAnswers]
  cases store.history none with
  | none => exact ⟨rfl, rfl⟩
  | some history =>
    simp only [Option.bind_eq_bind, Option.bind_some]
    cases history.find? fun r => r.committed.seconds ≤ endOfDay date.date <;> exact ⟨rfl, rfl⟩

/-- **A mirror answers to a series whatever the scratch directory holds**, if every tree of its store
is regular.  What is asked of the analyzer and of the display is that they leave the mirror alone. -/
theorem series_answering {p : SeriesPlan Machine} (hp : p.repository = m.repository)
    (ht : ∀ r ∈ store.revisions, r.tree.Regular) {hook : ProgressHook Machine}
    {measured : Tree → Option Document}
    (hmeasure : ∀ tree w, p.Ready s w → m.Runnable s store mask w → Shows s tree w.files →
      let r := (p.measurer.measureFull p.measuredDir).run w
      r.1.toOption = measured tree ∧ SeriesPlan.Stays s w r.2 ∧ m.Runnable s store mask r.2)
    (hhook : ∀ done total label w, p.Ready s w → m.Runnable s store mask w →
      let r := (hook done total label).run w
      SeriesPlan.Stays s w r.2 ∧ m.Runnable s store mask r.2) :
    p.Answering hook s (seriesAnswers store p.workDir mask measured)
      (m.Runnable s store mask) where
  logged log _ h := h.log log
  cleared w hw h := h.confined hw.scratch.confined_eraseBelow rfl rfl
  resolve date w hw h := by
    obtain ⟨hanswer, hsame⟩ := h.resolve_run hw.going p.workDir measured date
    have hrun : p.repository.resolve = m.resolve := by rw [hp]; rfl
    simp only [hrun, hsame]
    exact ⟨hanswer, ⟨hw.going, hw.scratch.sound.confined_refl s⟩, h⟩
  head w hw h := by
    obtain ⟨hanswer, hsame⟩ := h.head_run hw.going
    have hrun : p.repository.head = m.head := by rw [hp]; rfl
    simp only [hrun, hsame]
    exact ⟨hanswer, ⟨hw.going, hw.scratch.sound.confined_refl s⟩, h⟩
  exportFull hash w hw h := by
    obtain ⟨fs, hworld, hconfined, hmask, hsome, hshows⟩ :=
      exportFull_run hw.going hw.scratch h ht hash
    have hrun : p.repository.exportFull = m.exportFull := by rw [hp]; rfl
    simp only [hrun, hworld, seriesAnswers, Option.isSome_map]
    refine ⟨hsome, ⟨hw.going, hconfined⟩, h.confined hconfined hmask rfl, fun tree htree => ?_⟩
    obtain ⟨r, hr, rfl⟩ := Option.map_eq_some_iff.1 htree
    exact hshows r hr
  measureFull _ tree w hw h _ hshows := hmeasure tree w hw h hshows
  hook done total label w hw h := hhook done total label w hw h

/-- An analyzer that never finds sources. -/
example (ht : ∀ r ∈ store.revisions, r.tree.Regular) (p : SeriesPlan Machine) :
    ({ p with
        repository := m.repository
        measurer := { p.measurer with measureFull := fun _ => throw .noSources } } :
      SeriesPlan Machine).Answering .none s (seriesAnswers store p.workDir mask fun _ => none)
        (m.Runnable s store mask) :=
  series_answering rfl ht
    (fun _ _ hw h _ => ⟨rfl, ⟨hw.going, hw.scratch.sound.confined_refl s⟩, h⟩)
    fun _ _ _ _ hw h => ⟨⟨hw.going, hw.scratch.sound.confined_refl s⟩, h⟩

/-! ### Scans -/

/-- The first parent of a commit in a store. -/
def parentOf (store : Git.Store) (hash : Text) : Except Failure Text :=
  match store.revision? hash with
  | none => .error (.during ("commit " ++ hash) (.other "object not found"))
  | some r =>
    match r.parents with
    | [] => .error .noParent
    | parent :: _ => .ok parent

/-- The paths that a commit of a store changed; none for a root commit or a merge. -/
def changedBy (diff : Git.Tree → Git.Tree → List Git.Change) (store : Git.Store)
    (extensions : List Text) (hash : Text) : Option (List Text) :=
  (store.revision? hash).bind fun r =>
    match r.parents with
    | [parent] =>
      (store.revision? parent).map fun before => listed diff extensions before.tree r.tree
    | _ => some []

/-- What a sparse export leaves.  To export no files there need not be a commit. -/
def filesTree (store : Git.Store) (mask : ℕ) (hash : Text) (paths : List Text) : Option Tree :=
  if paths = [] then some fun _ => none
  else (store.revision? hash).map fun r => Archive.treeOf [] (r.tree.sparseEntries paths) mask

/-- What a mirror answers to a scan. -/
def scanAnswers (store : Git.Store) (diff : Git.Tree → Git.Tree → List Git.Change)
    (extensions : List Text) (mask : ℕ) (measured : ScanPlan.Side → Tree → Fragment) :
    ScanPlan.Answers where
  parent := parentOf store
  changed := changedBy diff store extensions
  tree := filesTree store mask
  measured := measured

theorem Reads.revision_run_none (h : m.Reads s store w) (hr : store.revision? hash = none) :
    (m.revision hash).run w =
      (.error (.during ("commit " ++ hash) (.other "object not found")), w) := by
  have hmissing : ((storeAt w m.path).bind fun s => s.revision? hash) = none := by
    rw [h.storeAt_eq]
    exact hr
  rw [revision, run_get_bind, hmissing]
  rfl

theorem Reads.parent_answer (h : m.Reads s store w) (hash : Text) :
    (m.parent hash).run w = (parentOf store hash, w) := by
  rw [parentOf]
  cases hr : store.revision? hash with
  | none => rw [parent, run_bind, h.revision_run_none hr]
  | some r =>
    rw [parent, run_bind_ok (h.revision_run hr)]
    dsimp only
    cases r.parents <;> rfl

theorem Reads.changedFiles_answer (h : m.Reads s store w) (hgoing : w.canceled = false)
    (diff : Git.Tree → Git.Tree → List Git.Change) (extensions : List Text) (hash : Text) :
    ((m.changedFilesBy diff hash extensions).run w).1.toOption =
        changedBy diff store extensions hash ∧
      ((m.changedFilesBy diff hash extensions).run w).2 = w := by
  rw [changedBy]
  cases hr : store.revision? hash with
  | none =>
    rw [changedFilesBy, run_bind, h.revision_run_none hr]
    exact ⟨rfl, rfl⟩
  | some r =>
    rw [Option.bind_some]
    rcases hparents : r.parents with _ | ⟨parent, _ | ⟨other, more⟩⟩
    · rw [changedFilesBy, run_bind_ok (h.revision_run hr), hparents]
      exact ⟨rfl, rfl⟩
    · cases hbefore : store.revision? parent with
      | none =>
        rw [changedFilesBy, run_bind_ok (h.revision_run hr), hparents]
        dsimp only
        rw [run_bind, Attempt.during_run, h.revision_run_none hbefore, hbefore]
        exact ⟨rfl, rfl⟩
      | some before =>
        rw [h.changedFilesBy_run hgoing diff extensions hr hparents hbefore]
        dsimp only
        rw [hbefore]
        exact ⟨rfl, rfl⟩
    · rw [changedFilesBy, run_bind_ok (h.revision_run hr), hparents]
      exact ⟨rfl, rfl⟩

/-- A sparse export leaves exactly the tree of the files that are asked for, or it fails because there
is no such commit. -/
theorem exportSparse_shows (hgoing : w.canceled = false) (hdest : Scratch dest s w.files)
    (h : m.Readable s store mask w) (ht : ∀ r ∈ store.revisions, r.tree.Regular)
    (hash : Text) (paths : List Text) :
    ∃ fs, ((m.exportSparse hash paths dest).run w).2 = { w with files := fs } ∧
      Confined s w.files fs ∧ fs.mask = w.files.mask ∧
      ((m.exportSparse hash paths dest).run w).1.toOption.isSome =
        (filesTree store mask hash paths).isSome ∧
      ∀ tree, filesTree store mask hash paths = some tree → Shows s tree fs := by
  obtain ⟨fs₁, hreset, hconfined, hempty, -, hmask⟩ := hdest.resetDir_run
  have h₁ : m.Readable s store mask { w with files := fs₁ } := h.confined hconfined hmask rfl
  rw [filesTree]
  by_cases hpaths : paths = []
  · rw [exportSparse, run_bind_ok (Attempt.onFiles_run_ok hreset), hpaths, if_pos rfl]
    refine ⟨fs₁, rfl, hconfined, hmask, rfl, ?_⟩
    rintro tree ⟨⟩
    exact hempty.shows
  rw [if_neg hpaths]
  cases hr : store.revision? hash with
  | none =>
    rw [exportSparse, run_bind_ok (Attempt.onFiles_run_ok hreset), if_neg (by simpa using hpaths),
      run_bind, h₁.reads.revision_run_none hr]
    exact ⟨fs₁, rfl, hconfined, hmask, rfl, by simp⟩
  | some r =>
    obtain ⟨spare, fs₁, hconfined, hempty, -, hmask, hexport⟩ :=
      exportSparse_unpacks hgoing hdest h.reads hr (ht r (mem_of_revision? hr))
    obtain ⟨fs, hrun, hunpacked, hplaced⟩ := hexport paths
    rw [hrun]
    refine ⟨fs, rfl, hconfined.trans (confined_of_placed hplaced hunpacked.sound),
      hplaced.mask.trans hmask, rfl, ?_⟩
    rintro tree ⟨⟩
    -- a sparse export has no links, so its files are all that is unpacked
    have hfiles : ∀ e ∈ r.tree.sparseEntries paths, e.kind ≠ .symlink := by
      intro e he
      simp [(Git.Tree.mem_sparseEntries he).1]
    dsimp only
    rw [Archive.treeOf_congr hfiles [] dest, ← h.mask, ← hmask]
    exact hunpacked.shows hplaced

/-- **A mirror answers to a scan whatever the scratch directory holds**, if every tree of its store is
regular.  What is asked of the analyzer and of the display is that they leave the mirror alone. -/
theorem scan_answering {p : ScanPlan Machine} (hp : p.repository = m.comparing diff)
    (ht : ∀ r ∈ store.revisions, r.tree.Regular) {hook : ProgressHook Machine}
    {measured : ScanPlan.Side → Tree → Fragment}
    (hmeasure : ∀ side tree w, p.Ready s w → m.Readable s store mask w →
      Shows (s ++ [side.name]) tree w.files →
        let r := (p.measurer.measure (p.sideDir side)).run w
        r.1.fragment = measured side tree ∧ r.2.canceled = false ∧ m.Readable s store mask r.2 ∧
          Confined (s ++ [side.name]) w.files r.2.files)
    (hhook : ∀ done total label w, p.Ready s w → m.Readable s store mask w →
      let r := (hook done total label).run w
      Confined s w.files r.2.files ∧ p.Ready s r.2 ∧ m.Readable s store mask r.2) :
    p.Answering hook s (scanAnswers store diff p.extensions mask measured)
      (m.Readable s store mask) where
  logged log _ h := h.log log
  cleared w hw h := h.confined hw.scratch.confined_eraseBelow rfl rfl
  parent hash w hw h := by
    have hrun : p.repository.parent = m.parent := by rw [hp]; rfl
    simp only [hrun, h.reads.parent_answer hash]
    exact ⟨rfl, hw.scratch.sound.confined_refl s, hw, h⟩
  changedFiles hash w hw h := by
    obtain ⟨hanswer, hsame⟩ :=
      h.reads.changedFiles_answer hw.going diff p.extensions hash
    have hrun : p.repository.changedFiles = m.changedFilesBy diff := by rw [hp]; rfl
    simp only [hrun, hsame]
    exact ⟨hanswer, hw.scratch.sound.confined_refl s, hw, h⟩
  exportSparse hash paths side w hw h := by
    have hdest : Scratch (p.sideDir side) (s ++ [side.name]) w.files :=
      hw.scratch.child hw.isOpen side.isName
    have hside : m.Readable (s ++ [side.name]) store mask w := ⟨h.reads.below _, h.mask⟩
    obtain ⟨fs, hworld, hconfined, hmask, hsome, hshows⟩ :=
      exportSparse_shows hw.going hdest hside ht hash paths
    have hrun : p.repository.exportSparse = m.exportSparse := by rw [hp]; rfl
    simp only [hrun, hworld]
    exact ⟨hsome, hw.going, h.confined hconfined.above hmask rfl, hconfined, hshows⟩
  measure side tree w hw h hshows := hmeasure side tree w hw h hshows
  hook done total label w hw h := hhook done total label w hw h

/-- An analyzer that never finds sources. -/
example (ht : ∀ r ∈ store.revisions, r.tree.Regular) (p : ScanPlan Machine) :
    ({ p with
        repository := m.repository
        measurer := { p.measurer with measure := fun _ => pure .empty } } :
      ScanPlan Machine).Answering .none s
        (scanAnswers store Git.changes p.extensions mask fun _ _ => Measurement.empty.fragment)
        (m.Readable s store mask) :=
  scan_answering m.comparing_changes.symm ht
    (fun _ _ _ hw h _ => ⟨rfl, hw.going, h, hw.scratch.sound.confined_refl _⟩)
    fun _ _ _ _ hw h => ⟨hw.scratch.sound.confined_refl s, hw, h⟩

end Mirror

end MetricHistory
