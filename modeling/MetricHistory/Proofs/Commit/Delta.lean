import MetricHistory.Proofs.Analyzer.Counts
import MetricHistory.Proofs.Commit.Scan
import MetricHistory.Proofs.Git.Export

/-!
# Sparse measurements

Only the files that a commit touched are exported and measured, on its side and on that of its
parent.  For an analyzer that adds up what each file counts for this is enough.

* `Mirror.comparing` is the history that a mirror tells with another way to compare trees.
* `ScanPlan.AddsUp` : the analyzer adds up what the files of a directory count for.
* `ScanPlan.compare_listed` : the comparison of two commits measures exactly the listed files;
* `ScanPlan.delta_exact` : **what a commit did to the metrics is the difference between its whole
  tree and that of its parent**, whenever the comparison of trees lists all paths at which they
  differ.
-/

namespace MetricHistory

theorem nodup_eraseDups {α : Type} [BEq α] [LawfulBEq α] (l : List α) : l.eraseDups.Nodup := by
  -- what is left after the first element gets shorter, but is no tail of the list
  induction hn : l.length using Nat.strongRecOn generalizing l with
  | ind n ih =>
    cases l with
    | nil => simp
    | cons a rest =>
      have hshort : (rest.filter fun b => !b == a).length < n := by
        have := List.length_filter_le (fun b => !b == a) rest
        rw [← hn, List.length_cons]
        omega
      rw [List.eraseDups_cons, List.nodup_cons]
      exact ⟨by simp, ih _ hshort _ rfl⟩

namespace Mirror

variable {m : Mirror} {s : Place} {store : Git.Store} {w : World Machine}

/-- The paths with one of the extensions that a commit changed, when trees are compared by
`diff`. -/
def changedFilesBy (diff : Git.Tree → Git.Tree → List Git.Change) (m : Mirror) (hash : Text)
    (extensions : List Text) : Attempt Machine (List Text) := do
  let r ← m.revision hash
  match r.parents with
  | [p] =>
    let before ← Attempt.during ("parent of " ++ hash) (m.revision p)
    if (← get).canceled then throw (.during ("diff " ++ hash) (.other "operation canceled"))
    let paths := (diff before.tree r.tree).map (·.newPath)
    return (paths.filter fun p => Path.hasExtension p extensions).eraseDups
  | _ => return []

/-- The history as the mirror tells it, when trees are compared by `diff`. -/
def comparing (m : Mirror) (diff : Git.Tree → Git.Tree → List Git.Change) : Repository Machine :=
  { m.repository with changedFiles := m.changedFilesBy diff }

theorem comparing_changes (m : Mirror) : m.comparing Git.changes = m.repository := rfl

theorem Reads.parent_run (h : m.Reads s store w) {hash parent : Text} {r : Git.Revision}
    (hr : store.revision? hash = some r) (hparent : r.parents = [parent]) :
    (m.parent hash).run w = (.ok parent, w) := by
  rw [Mirror.parent, run_bind_ok (h.revision_run hr), hparent]
  rfl

/-- The listed paths with one of the extensions, each once. -/
def listed (diff : Git.Tree → Git.Tree → List Git.Change) (extensions : List Text)
    (before after : Git.Tree) : List Text :=
  (((diff before after).map Git.Change.newPath).filter fun p =>
    Path.hasExtension p extensions).eraseDups

theorem Reads.changedFilesBy_run (h : m.Reads s store w) (hgoing : w.canceled = false)
    (diff : Git.Tree → Git.Tree → List Git.Change) (extensions : List Text) {hash parent : Text}
    {after before : Git.Revision} (hafter : store.revision? hash = some after)
    (hparent : after.parents = [parent]) (hbefore : store.revision? parent = some before) :
    (m.changedFilesBy diff hash extensions).run w =
      (.ok (listed diff extensions before.tree after.tree), w) := by
  rw [changedFilesBy, run_bind_ok (h.revision_run hafter), hparent]
  simp only
  rw [run_bind_ok (Attempt.during_run_ok (h.revision_run hbefore) _), run_get_bind, hgoing]
  rfl

end Mirror

namespace ScanPlan

open FileSystem (Confined Lists Scratch)

variable {p : ScanPlan Machine} {m : Mirror} {s : Place} {store : Git.Store} {w : World Machine}
  {f : Text → Text → FileCounts} {diff : Git.Tree → Git.Tree → List Git.Change}

/-- The analyzer reports the sum of what the files of a directory with one of the extensions count
for, and works in the directory it measures. -/
def AddsUp {σ : Type} (measurer : Measurer σ) (f : Text → Text → FileCounts)
    (extensions : List Text) : Prop :=
  ∀ dir d w, w.canceled = false → w.files.Sound → w.files.find true dir = .ok (d, .dir) →
    let r := (measurer.measure dir).run w
    r.1.fragment = (FileCounts.of f extensions (w.files.filesBelow d)).fragment ∧
      r.2.canceled = false ∧ Confined d w.files r.2.files

theorem measure_run {σ : Type} (p : ScanPlan σ) (dir hash : Text) (w : World σ) :
    ∃ log, (p.measure dir hash).run w =
      let r := (p.measurer.measure dir).run w
      (r.1.fragment, { r.2 with log }) := by
  rw [measure, run_seq]
  split
  · exact ⟨_, rfl⟩
  · exact ⟨((p.measurer.measure dir).run w).2.log, rfl⟩

/-- Exporting listed files for a side gives a directory with exactly these files. -/
theorem export_listed (hp : p.repository = m.comparing diff) {base : FileSystem}
    {L : Machine → Prop} (hw : p.During s base L (fun _ => True) w) (hreads : m.Reads s store w)
    {hash : Text} {r : Git.Revision} (hr : store.revision? hash = some r) (ht : r.tree.Regular) {paths : List Text}
    (hpaths : paths.Nodup) (side : Side) :
    ∃ fs', (p.repository.exportSparse hash paths (p.sideDir side)).run w =
        (.ok (r.tree.picked paths).length, { w with files := fs' }) ∧
      p.During s base L (fun _ => True) { w with files := fs' } ∧ m.Reads s store { w with files := fs' } ∧
      Confined (s ++ [side.name]) w.files fs' ∧
      Lists (s ++ [side.name]) (r.tree.picked paths) fs' := by
  have hdest : Scratch (p.sideDir side) (s ++ [side.name]) w.files :=
    hw.ready.scratch.child hw.ready.isOpen side.isName
  obtain ⟨fs', hrun, hconfined, hlists⟩ :=
    Mirror.exportSparse_run hw.ready.going hdest (hreads.below [side.name]) hr ht hpaths
  have hexport : p.repository.exportSparse = m.exportSparse := by rw [hp]; rfl
  refine ⟨fs', by rw [hexport, hrun], hw.inSide hw.ready.going trivial hconfined hw.account,
    hreads.confined hconfined.above rfl, hconfined, hlists⟩

/-- Measuring the directory of a side with listed files gives what they count for together. -/
theorem measure_listed (hmeasure : AddsUp p.measurer f p.extensions) {base : FileSystem}
    {L : Machine → Prop} (hw : p.During s base L (fun _ => True) w) {side : Side}
    {files : List (Text × Text)} (hlists : Lists (s ++ [side.name]) files w.files) (hash : Text) :
    ∃ w', (p.measure (p.sideDir side) hash).run w =
        ((FileCounts.of f p.extensions files).fragment, w') ∧
      w'.canceled = false ∧ Confined (s ++ [side.name]) w.files w'.files := by
  have hfind := (hw.ready.scratch.child hw.ready.isOpen side.isName).find_eq hlists.dir
  obtain ⟨hfragment, hgoing, hconfined⟩ :=
    hmeasure _ _ w hw.ready.going hw.ready.scratch.sound hfind
  obtain ⟨log, hrun⟩ := p.measure_run (p.sideDir side) hash w
  refine ⟨_, hrun.trans (Prod.ext ?_ rfl), hgoing, hconfined⟩
  rw [← FileCounts.of_perm f hlists.perm]
  exact hfragment

/-- A comparison exports both sides and then measures them. -/
theorem compare_run {σ : Type} {p : ScanPlan σ} {parent hash : Text} {paths : List Text}
    {n n' : Nat} {b a : Fragment} {w w₁ w₂ w₃ w₄ : World σ}
    (h₁ : (p.repository.exportSparse parent paths (p.sideDir .parent)).run w = (.ok n, w₁))
    (h₂ : (p.repository.exportSparse hash paths (p.sideDir .commit)).run w₁ = (.ok n', w₂))
    (h₃ : (p.measure (p.sideDir .parent) parent).run w₂ = (b, w₃))
    (h₄ : (p.measure (p.sideDir .commit) hash).run w₃ = (a, w₄)) :
    (p.compare parent hash paths).run w = (.ok (b.movement a), w₄) := by
  have hb : (liftM (p.measure (p.sideDir .parent) parent) : Attempt σ Fragment).run w₂ =
      (.ok b, w₃) := by
    rw [Attempt.lift_run, h₃]
  have ha : (liftM (p.measure (p.sideDir .commit) hash) : Attempt σ Fragment).run w₃ =
      (.ok a, w₄) := by
    rw [Attempt.lift_run, h₄]
  rw [compare]
  refine (run_bind_ok (Attempt.during_run_ok h₁ _)).trans ?_
  refine (run_bind_ok (Attempt.during_run_ok h₂ _)).trans ?_
  exact (run_bind_ok hb).trans (run_bind_ok ha)

/-- The comparison of two commits in different paths gives the movement between what the files at
these paths count for. -/
theorem compare_listed (hp : p.repository = m.comparing diff)
    (hmeasure : AddsUp p.measurer f p.extensions) (hready : p.Ready s w)
    (hreads : m.Reads s store w) {parent hash : Text} {before after : Git.Revision}
    (hbefore : store.revision? parent = some before) (hafter : store.revision? hash = some after)
    (ht : before.tree.Regular) (ht' : after.tree.Regular) {paths : List Text}
    (hpaths : paths.Nodup) :
    ((p.compare parent hash paths).run w).1 =
      .ok ((FileCounts.of f p.extensions (before.tree.picked paths)).fragment.movement
        (FileCounts.of f p.extensions (after.tree.picked paths)).fragment) := by
  have hapart : ¬ s ++ [Side.parent.name] <+: s ++ [Side.commit.name] := side_apart s (by simp)
  have hapart' : ¬ s ++ [Side.commit.name] <+: s ++ [Side.parent.name] := side_apart s (by simp)
  have hw₀ : p.During s w.files (fun _ => True) (fun _ => True) w :=
    ⟨hready, hready.scratch.sound.confined_refl s, trivial, trivial⟩
  obtain ⟨fs₁, hrun₁, hw₁, hreads₁, -, hlists₁⟩ :=
    export_listed hp hw₀ hreads hbefore ht hpaths .parent
  obtain ⟨fs₂, hrun₂, hw₂, -, hconfined₂, hlists₂⟩ :=
    export_listed hp hw₁ hreads₁ hafter ht' hpaths .commit
  -- work on one side leaves the files of the other side as they are
  obtain ⟨w₃, hrun₃, hgoing₃, hconfined₃⟩ :=
    measure_listed hmeasure hw₂ (hlists₁.confined hconfined₂ hapart' hapart) parent
  obtain ⟨w₄, hrun₄, -, -⟩ := measure_listed hmeasure (hw₂.inSide hgoing₃ trivial hconfined₃ trivial)
    (hlists₂.confined hconfined₃ hapart hapart') hash
  rw [compare_run hrun₁ hrun₂ hrun₃ hrun₄]

theorem parent?_run_ok {σ : Type} {p : ScanPlan σ} {hash parent : Text} {w w' : World σ}
    (h : (p.repository.parent hash).run w = (.ok parent, w')) :
    (p.parent? hash).run w = (.ok (some parent), w') := by
  rw [p.parent?_run, h]

/-- **What a commit with one parent did to the metrics is the difference between its whole tree and
that of its parent.**  The comparison of trees is to list all paths at which they differ, in any
order; it may list others, and each as often as it likes. -/
theorem delta_exact (hp : p.repository = m.comparing diff)
    (hmeasure : AddsUp p.measurer f p.extensions) (hready : p.Ready s w)
    (hreads : m.Reads s store w) {hash parent : Text} {before after : Git.Revision}
    (hafter : store.revision? hash = some after) (hparent : after.parents = [parent])
    (hbefore : store.revision? parent = some before)
    (ht : before.tree.Regular) (ht' : after.tree.Regular)
    (hexact : FileCounts.Exact f p.extensions before.tree after.tree)
    (hlisted : ∀ path, before.tree.content? path ≠ after.tree.content? path →
      path ∈ (diff before.tree after.tree).map Git.Change.newPath) :
    let b := FileCounts.of f p.extensions before.tree.files
    let a := FileCounts.of f p.extensions after.tree.files
    ((p.delta hash).run w).1 = .ok (some (b.fragment.movement a.fragment)) ∧
      b.fragment.movement a.fragment =
        { loc := wrap64 (a.loc - b.loc)
          ccn := Binary64.ofInt (a.ccn - b.ccn)
          mi := Binary64.ofInt (b.mi - a.mi)
          antipatterns := wrap64 (a.antipatterns - b.antipatterns) } := by
  intro b a
  refine ⟨?_, FileCounts.movement_fragment_files ht ht' hexact⟩
  set paths := Mirror.listed diff p.extensions before.tree after.tree with hpaths
  -- the paths that are compared: each comes once, and no source that differs is missing
  have hnodup : paths.Nodup := nodup_eraseDups _
  have hall : ∀ path, Path.hasExtension path p.extensions = true →
      before.tree.content? path ≠ after.tree.content? path → path ∈ paths := by
    intro path hext hne
    rw [hpaths, Mirror.listed, List.mem_eraseDups, List.mem_filter]
    exact ⟨hlisted path hne, hext⟩
  have hmovement := FileCounts.movement_picked ht ht' hexact hnodup hall
  have hrepository : p.repository.parent = m.parent ∧
      p.repository.changedFiles = m.changedFilesBy diff := by
    rw [hp]
    exact ⟨rfl, rfl⟩
  have hasked : (p.repository.parent hash).run w = (.ok parent, w) := by
    rw [hrepository.1, hreads.parent_run hafter hparent]
  have hchanged : (p.repository.changedFiles hash p.extensions).run w = (.ok paths, w) := by
    rw [hrepository.2, hreads.changedFilesBy_run hready.going diff _ hafter hparent hbefore]
  rw [delta, run_bind_ok (parent?_run_ok hasked)]
  simp only
  rw [run_bind_ok hchanged]
  by_cases hnone : paths = []
  · -- nothing is measured, and a difference of empty sums is zero
    have hzero : b.fragment.movement a.fragment = {} := by
      rw [← hmovement, hnone]
      exact FileCounts.movement_fragment_nil f p.extensions
    rw [if_pos (by simpa using hnone), hzero]
    rfl
  · have hcompare := compare_listed hp hmeasure hready hreads hbefore hafter ht ht' hnodup
    rw [if_neg (by simpa using hnone), run_bind]
    generalize (p.compare parent hash paths).run w = r at hcompare ⊢
    obtain ⟨result, w'⟩ := r
    obtain rfl : result = _ := hcompare
    rw [hmovement]
    rfl

/-- An analyzer that adds up what the files of a directory count for. -/
def adding {σ : Type} (f : Text → Text → FileCounts) (extensions : List Text) : Measurer σ where
  measureFull _ := throw .noSources
  measure dir := fun w =>
    match w.files.find true dir with
    | .ok (d, .dir) =>
      (.measured (FileCounts.of f extensions (w.files.filesBelow d)).fragment, w)
    | _ => (.empty, w)

theorem adding_addsUp {σ : Type} (f : Text → Text → FileCounts) (extensions : List Text) :
    AddsUp (adding f extensions : Measurer σ) f extensions := by
  intro dir d w hgoing hsound hfind
  have hrun : ((adding f extensions : Measurer σ).measure dir).run w =
      match w.files.find true dir with
      | .ok (d, .dir) =>
        (.measured (FileCounts.of f extensions (w.files.filesBelow d)).fragment, w)
      | _ => (.empty, w) := rfl
  rw [hrun, hfind]
  exact ⟨rfl, hgoing, hsound.confined_refl d⟩

/-- One file is the same on both sides, one of each other kind of change, and one is no source. -/
def touchedBefore : Git.Tree :=
  [("a.x", ⟨.plain, "xx"⟩), ("gone.x", ⟨.plain, "q"⟩), ("note", ⟨.plain, "n"⟩),
    ("same.x", ⟨.plain, "s"⟩)]

def touchedAfter : Git.Tree :=
  [("a.x", ⟨.plain, "x"⟩), ("b/new.x", ⟨.plain, "zzz"⟩), ("note", ⟨.plain, "m"⟩),
    ("same.x", ⟨.plain, "s"⟩)]

/-- A commit of a tree on top of others. -/
def revisionOf (hash : Text) (parents : List Text) (tree : Git.Tree) : Git.Revision where
  hash := hash
  parents := parents
  tree := tree
  committed := Time.zero
  authored := Time.zero
  message := []

def touchedStore : Git.Store where
  revisions := [revisionOf "c1" [] touchedBefore, revisionOf "c2" ["c1"] touchedAfter]

/-- Every byte is a line that adds two to the complexity, and every file has a debt of three. -/
def bytesCount (_ content : Text) : FileCounts :=
  { loc := content.length, ccn := 2 * content.length, mi := 3 }

def touchedPlan : ScanPlan Machine where
  repository := Mirror.repository { path := "/repo" }
  measurer := adding bytesCount [".x"]
  extensions := [".x"]
  workDir := "/scratch"

def touchedWorld : World Machine where
  files := ({} : FileSystem).put ["repo"] .dir
  outside := { stores := [(["repo"], touchedStore)] }

theorem touched_ready : touchedPlan.Ready ["scratch"] touchedWorld :=
  have hname : Path.IsName "scratch" := by decide
  have hsound : touchedWorld.files.Sound :=
    FileSystem.sound_empty.put (d := []) rfl (by decide) .dir
  ⟨rfl, hsound.scratch_root hname (by decide), .inl (by decide)⟩

theorem touched_reads : Mirror.Reads { path := "/repo" } ["scratch"] touchedStore touchedWorld := by
  have hdir : (touchedWorld.files.eraseBelow ["scratch"]).node? ([] ++ [Text.ofString "repo"]) =
      some .dir := by decide
  have hreach : FileSystem.Reaches (touchedWorld.files.eraseBelow ["scratch"])
      FileSystem.linkLimit [] [Text.ofString "repo"] FileSystem.linkLimit ["repo"] :=
    .down (by decide) (by decide) hdir (.here _ _)
  have hsteps : FileSystem.steps "/repo" = [Text.ofString "repo"] := by decide
  exact ⟨by decide, FileSystem.linkLimit, ["repo"], hsteps ▸ hreach, rfl⟩

theorem touched_nothingMoved : Git.NothingMoved touchedBefore touchedAfter := by
  intro p q content hnew hafter hgone
  obtain ⟨b, hb, rfl⟩ := Git.Tree.exists_mem_of_content? hafter
  obtain ⟨b', hb', hcontent⟩ := Git.Tree.exists_mem_of_content? hgone
  -- the only new file has a content that no file had before
  have hnone : ∀ x ∈ touchedAfter, touchedBefore.content? x.1 = none →
      ∀ y ∈ touchedBefore, y.2.content ≠ x.2.content := by decide
  exact absurd hcontent (hnone _ hb hnew _ hb')

theorem touched_regular : touchedBefore.Regular ∧ touchedAfter.Regular :=
  ⟨⟨by decide, by decide, by decide⟩, ⟨by decide, by decide, by decide⟩⟩

theorem touched_exact : FileCounts.Exact bytesCount [".x"] touchedBefore touchedAfter :=
  ⟨by decide, by decide⟩

/-- The difference is that of whole trees: four bytes before and five after. -/
theorem delta_exact_touched :
    touchedPlan.Ready ["scratch"] touchedWorld ∧
      Mirror.Reads { path := "/repo" } ["scratch"] touchedStore touchedWorld ∧
      touchedBefore.Regular ∧ touchedAfter.Regular ∧
      ((touchedPlan.delta "c2").run touchedWorld).1 =
        .ok (some
          { loc := 1, ccn := Binary64.ofInt 2, mi := Binary64.ofInt 0, antipatterns := 0 }) := by
  have hadds : AddsUp touchedPlan.measurer bytesCount touchedPlan.extensions :=
    adding_addsUp bytesCount [".x"]
  have hafter : touchedStore.revision? "c2" = some (revisionOf "c2" ["c1"] touchedAfter) := rfl
  have hbefore : touchedStore.revision? "c1" = some (revisionOf "c1" [] touchedBefore) := rfl
  obtain ⟨hrun, hmovement⟩ := delta_exact (Mirror.comparing_changes _).symm hadds touched_ready
    touched_reads hafter rfl hbefore touched_regular.1 touched_regular.2 touched_exact
    fun path hne => Git.mem_changes_of_ne touched_nothingMoved hne
  refine ⟨touched_ready, touched_reads, touched_regular.1, touched_regular.2, ?_⟩
  have hb : FileCounts.of bytesCount touchedPlan.extensions
      (revisionOf "c1" [] touchedBefore).tree.files = { loc := 4, ccn := 8, mi := 9 } := by decide
  have ha : FileCounts.of bytesCount touchedPlan.extensions
      (revisionOf "c2" ["c1"] touchedAfter).tree.files = { loc := 5, ccn := 10, mi := 9 } := by decide
  rw [hrun, hmovement, hb, ha]
  rfl

end ScanPlan

end MetricHistory
