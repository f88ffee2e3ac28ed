import MetricHistory.Proofs.FileSystem.Scratch
import MetricHistory.Proofs.Snapshot.Run

/-!
# Samples do not disturb each other

All samples of a series are taken in one scratch directory, which earlier samples and failed
exports leave in any state.  An export replaces the directory or fails, so that a sample only
depends on its own commit.

* `SeriesPlan.Answers` is what a history and an analyzer have to say, and `SeriesPlan.Answering`
  that they say it whatever the scratch directory looks like, as a mirror does
  (`Mirror.series_answering`);
* `SeriesPlan.sampleAt_uniform` : a sample gives the same in every state of the scratch directory;
* `SeriesPlan.run_isolated` : **a series consists of what each sample gives alone in a fresh scratch
  directory, the analyzer only sees exact trees, and the scratch directory is gone afterwards.**
-/

namespace MetricHistory

namespace SeriesPlan

open MetricHistory.Action (Leads)
open FileSystem (Confined Scratch Shows)

/-- What a history and an analyzer answer; `none` stands for a failure. -/
structure Answers where
  /-- The newest commit up to a date. -/
  resolved : Time → Option Text
  newest : Option Text
  /-- The tree of a commit, if it can be exported. -/
  tree : Text → Option Tree
  /-- What the analyzer says of a scratch directory with a tree. -/
  measured : Tree → Option Document

variable {σ : Type} (p : SeriesPlan σ) {hook : ProgressHook σ} {s : Place} {a : Answers}
  {w : World σ} {label hash : Text} {fields : LogFields} {Here : World σ → Prop}

/-- The work goes on, and nothing has changed outside the scratch directory. -/
structure Stays (s : Place) (w w' : World σ) : Prop where
  going : w'.canceled = false
  confined : Confined s w.files w'.files

/-- The work goes on, and the scratch path leads to its place. -/
structure Ready (s : Place) (w : World σ) : Prop where
  going : w.canceled = false
  scratch : Scratch p.workDir s w.files

/-- The history and the analyzer answer from `a`, whatever the scratch directory at `s` holds, as
long as what they need is there.  An export replaces the directory by the tree of the commit or fails,
having done to it whatever it did.  Of the analyzer this is only asked in a directory with the tree of
a commit. -/
structure Answering (hook : ProgressHook σ) (s : Place) (a : Answers) (Here : World σ → Prop) :
    Prop where
  logged : ∀ log w, Here w → Here { w with log }
  cleared : ∀ w, p.Ready s w → Here w → Here { w with files := w.files.eraseBelow s }
  resolve : ∀ date w, p.Ready s w → Here w →
    let r := (p.repository.resolve date).run w
    r.1.toOption = a.resolved date ∧ Stays s w r.2 ∧ Here r.2
  head : ∀ w, p.Ready s w → Here w →
    let r := p.repository.head.run w
    r.1.toOption = a.newest ∧ Stays s w r.2 ∧ Here r.2
  exportFull : ∀ hash w, p.Ready s w → Here w →
    let r := (p.repository.exportFull hash p.workDir).run w
    r.1.toOption.isSome = (a.tree hash).isSome ∧ Stays s w r.2 ∧ Here r.2 ∧
      ∀ tree, a.tree hash = some tree → Shows s tree r.2.files
  measureFull : ∀ hash tree w, p.Ready s w → Here w → a.tree hash = some tree →
    Shows s tree w.files →
    let r := (p.measurer.measureFull p.measuredDir).run w
    r.1.toOption = a.measured tree ∧ Stays s w r.2 ∧ Here r.2
  hook : ∀ done total label w, p.Ready s w → Here w →
    let r := (hook done total label).run w
    Stays s w r.2 ∧ Here r.2

/-- A call of the analyzer: the commit that was exported last, the directory to measure and the
files at that moment. -/
structure Sighting where
  commit : Option Text
  dir : Text
  files : FileSystem

/-- `exported` is the commit that was exported last, and `seen` lists the calls of the analyzer. -/
structure Recorded (hook : ProgressHook σ) (exported : σ → Option Text)
    (seen : σ → List Sighting) : Prop where
  resolve : ∀ date w, seen ((p.repository.resolve date).run w).2.outside = seen w.outside
  head : ∀ w, seen (p.repository.head.run w).2.outside = seen w.outside
  exportFull : ∀ hash dest w,
    exported ((p.repository.exportFull hash dest).run w).2.outside = some hash ∧
      seen ((p.repository.exportFull hash dest).run w).2.outside = seen w.outside
  measureFull : ∀ dir w, seen ((p.measurer.measureFull dir).run w).2.outside =
    seen w.outside ++ [⟨exported w.outside, dir, w.files⟩]
  hook : ∀ done total label w, seen ((hook done total label).run w).2.outside = seen w.outside

/-- The analyzer was called while the scratch directory held exactly the tree of the commit. -/
def Sighting.IsExact (s : Place) (a : Answers) (x : Sighting) : Prop :=
  ∃ hash tree, x.commit = some hash ∧ a.tree hash = some tree ∧ x.dir = p.measuredDir ∧
    Shows s tree x.files

/-! ### One sample -/

/-- What the history and the analyzer remember satisfies `L` at all times, given that the analyzer
is called in the tree of a commit that was exported; `X` says which one that was. -/
structure Accounts (hook : ProgressHook σ) (s : Place) (a : Answers) (L : σ → Prop)
    (X : Text → σ → Prop) : Prop where
  resolve : ∀ date w, L w.outside → L ((p.repository.resolve date).run w).2.outside
  head : ∀ w, L w.outside → L (p.repository.head.run w).2.outside
  exportFull : ∀ hash dest w, L w.outside →
    L ((p.repository.exportFull hash dest).run w).2.outside ∧
      X hash ((p.repository.exportFull hash dest).run w).2.outside
  measureFull : ∀ hash tree w, L w.outside → X hash w.outside → a.tree hash = some tree →
    Shows s tree w.files → L ((p.measurer.measureFull p.measuredDir).run w).2.outside
  hook : ∀ done total label w, L w.outside → L ((hook done total label).run w).2.outside

variable {L : σ → Prop} {X : Text → σ → Prop}

/-- The worlds of a run that started in `base`. -/
structure During (s : Place) (base : FileSystem) (L : σ → Prop) (Here : World σ → Prop)
    (w : World σ) : Prop where
  going : w.canceled = false
  confined : Confined s base w.files
  account : L w.outside
  here : Here w

/-- The action always gives `r` during a run. -/
def Gives {α : Type} (s : Place) (base : FileSystem) (L : σ → Prop) (Here : World σ → Prop)
    (act : Action σ α) (r : α) : Prop :=
  Leads (During s base L Here) act fun r' w => During s base L Here w ∧ r' = r

/-- The worlds of a run in which the tree of a commit has been exported. -/
structure Exported (s : Place) (base : FileSystem) (L : σ → Prop) (Here : World σ → Prop)
    (X : Text → σ → Prop) (hash : Text) (tree : Tree) (w : World σ) : Prop where
  during : During s base L Here w
  account : X hash w.outside
  shows : Shows s tree w.files

section Uniform

variable {p} {base : FileSystem} (hans : p.Answering hook s a Here) (hacc : p.Accounts hook s a L X)
  (hbase : Scratch p.workDir s base)
include hans hacc hbase

omit hans hacc in
theorem During.ready (h : During s base L Here w) : p.Ready s w :=
  ⟨h.going, hbase.confined h.confined⟩

omit hans hacc hbase in
theorem During.stays {w' : World σ} (h : During s base L Here w) (hs : Stays s w w')
    (hL : L w'.outside) (hhere : Here w') : During s base L Here w' :=
  ⟨hs.going, h.confined.trans hs.confined, hL, hhere⟩

omit hacc hbase in
theorem During.log (l : List LogEntry) (h : During s base L Here w) :
    During s base L Here { w with log := l } :=
  ⟨h.going, h.confined, h.account, hans.logged l w h.here⟩

theorem export_leads (hash : Text) :
    Leads (During s base L Here) (p.repository.exportFull hash p.workDir).run fun r w =>
      match r with
      | .ok _ => ∃ tree, a.tree hash = some tree ∧ Exported s base L Here X hash tree w
      | .error _ => During s base L Here w ∧ a.tree hash = none := by
  refine .of_attempt fun w hw => ?_
  obtain ⟨hsome, hstays, hhere, hshows⟩ := hans.exportFull hash w (hw.ready hbase) hw.here
  obtain ⟨hL, hX⟩ := hacc.exportFull hash p.workDir w hw.account
  have hduring := hw.stays hstays hL hhere
  generalize (p.repository.exportFull hash p.workDir).run w = r at hsome hX hshows hduring ⊢
  obtain ⟨f | u, w'⟩ := r
  · exact ⟨hduring, by simpa [Except.toOption] using hsome.symm⟩
  · obtain ⟨tree, htree⟩ := Option.isSome_iff_exists.1 (hsome.symm.trans rfl)
    exact ⟨tree, htree, hduring, hX, hshows tree htree⟩

theorem hook_during (done total : Nat) (label : Text) :
    Leads (During s base L Here) (hook done total label) fun _ => During s base L Here := by
  intro w hw
  obtain ⟨hstays, hhere⟩ := hans.hook done total label w (hw.ready hbase) hw.here
  exact hw.stays hstays (hacc.hook done total label w hw.account) hhere

end Uniform

/-- The world with the scratch directory removed. -/
def fresh (w : World σ) : World σ :=
  { w with files := ((Files.removeAll p.workDir).run w.files).2 }

/-- What an action gives alone in a fresh scratch directory. -/
def alone {α : Type} (w : World σ) (act : Action σ α) : α := (act.run (p.fresh w)).1

section Run

variable {p} (hans : p.Answering hook s a Here) (hacc : p.Accounts hook s a L X)
  (hcache : p.cache = none) (hscratch : Scratch p.workDir s w.files) (hgoing : w.canceled = false)
  (haccount : L w.outside) (hhere : Here w)
include hans hacc hcache hscratch hgoing haccount hhere

omit hacc hcache in
theorem during_fresh : During s w.files L Here (p.fresh w) := by
  rw [fresh, hscratch.removeAll_run]
  exact ⟨hgoing, hscratch.confined_eraseBelow, haccount, hans.cleared w ⟨hgoing, hscratch⟩ hhere⟩

omit hacc hcache in
theorem Gives.alone {α : Type} {act : Action σ α} {r : α} (h : Gives s w.files L Here act r) :
    Gives s w.files L Here act (p.alone w act) := by
  obtain ⟨-, hr⟩ := h _ (during_fresh hans hscratch hgoing haccount hhere)
  rw [SeriesPlan.alone, hr]
  exact h

end Run

theorem Recorded.accounts {p : SeriesPlan σ} {exported : σ → Option Text}
    {seen : σ → List Sighting} (h : p.Recorded hook exported seen) (before : List Sighting) :
    p.Accounts hook s a (fun x => ∃ new, seen x = before ++ new ∧ ∀ y ∈ new, y.IsExact p s a)
      fun hash x => exported x = some hash where
  resolve date w hw := by rwa [h.resolve]
  head w hw := by rwa [h.head]
  exportFull hash dest w hw := ⟨by rwa [(h.exportFull hash dest w).2], (h.exportFull hash dest w).1⟩
  measureFull hash tree w hw hX htree hshows := by
    obtain ⟨new, hseen, hnew⟩ := hw
    refine ⟨new ++ [⟨exported w.outside, p.measuredDir, w.files⟩], ?_, fun y hy => ?_⟩
    · rw [h.measureFull, hseen, List.append_assoc]
    · rcases List.mem_append.1 hy with hy | hy
      · exact hnew y hy
      · obtain rfl := List.mem_singleton.1 hy
        exact ⟨hash, tree, hX, htree, rfl, hshows⟩
  hook done total label w hw := by rwa [h.hook]

/-- A history whose newest commit cannot be exported: the attempt empties the directory and fails.
The other commit has an empty tree. -/
def brokenHistory : Repository (Option Text × List Sighting) where
  head := pure "b1"
  resolve date := if date.date.month = 1 then pure "a0" else throw .noCommit
  commitsSince _ := pure []
  commitsPerYear := pure []
  commitsPerMonth := pure []
  parent _ := throw .noParent
  changedFiles _ _ := pure []
  exportFull hash dest := fun w =>
    let (result, files) := (Files.resetDir dest).run w.files
    (if hash = "b1" then .error (.other "broken") else result.mapError .file,
      { w with files, outside := (some hash, w.outside.2) })
  exportSparse _ _ _ := pure 0

/-- January and July are scheduled, and it is August. -/
def brokenPlan : SeriesPlan (Option Text × List Sighting) where
  framework := "fw"
  repository := brokenHistory
  measurer := {
    measureFull := fun dir w => (.ok
      { production := ⟨0, 0, 0, 0, "{}"⟩, testLoc := 0, surfaceArea := [], surfaceAreaLists := [],
        antipatterns := [], hotspots := [] },
      { w with outside := (w.outside.1, w.outside.2 ++ [⟨w.outside.1, dir, w.files⟩]) })
    measure := fun _ => pure .empty }
  anchor := Time.midnight 0 ⟨2024, 1, 1⟩
  now := Time.midnight 0 ⟨2024, 8, 15⟩
  subdir := []
  workDir := "/scratch"

def brokenAnswers : Answers where
  resolved date := if date.date.month = 1 then some "a0" else none
  newest := some "b1"
  tree hash := if hash = "b1" then none else some fun _ => none
  measured _ := some
    { production := ⟨0, 0, 0, 0, "{}"⟩, testLoc := 0, surfaceArea := [], surfaceAreaLists := [],
      antipatterns := [], hotspots := [] }

theorem brokenPlan_answering :
    brokenPlan.Answering .none ["scratch"] brokenAnswers fun _ => True where
  logged _ _ _ := trivial
  cleared _ _ _ := trivial
  resolve date w hw _ := by
    rcases decEq date.date.month 1 with h | h <;>
      simp only [brokenPlan, brokenHistory, brokenAnswers, h, if_true, if_false] <;>
      exact ⟨rfl, ⟨hw.going, hw.scratch.sound.confined_refl _⟩, trivial⟩
  head w hw _ := ⟨rfl, ⟨hw.going, hw.scratch.sound.confined_refl _⟩, trivial⟩
  exportFull hash w hw _ := by
    obtain ⟨fs, hrun, hconfined, hempty, -⟩ := hw.scratch.resetDir_run
    have hexport : (brokenPlan.repository.exportFull hash brokenPlan.workDir).run w =
        (if hash = "b1" then .error (.other "broken") else .ok (),
          { w with files := fs, outside := (some hash, w.outside.2) }) := by
      have hunfold : (brokenPlan.repository.exportFull hash brokenPlan.workDir).run w =
          let (result, files) := (Files.resetDir brokenPlan.workDir).run w.files
          (if hash = "b1" then .error (.other "broken") else result.mapError .file,
            { w with files, outside := (some hash, w.outside.2) }) := rfl
      rw [hunfold, hrun]
      rfl
    rw [hexport]
    refine ⟨?_, ⟨hw.going, hconfined⟩, trivial, fun tree htree => ?_⟩
    · simp only [brokenAnswers]
      split <;> rfl
    · simp only [brokenAnswers] at htree
      split at htree
      · simp at htree
      · obtain rfl := Option.some.inj htree
        exact hempty.shows
  measureFull _ _ w hw _ _ _ := ⟨rfl, ⟨hw.going, hw.scratch.sound.confined_refl _⟩, trivial⟩
  hook _ _ _ w hw _ := ⟨⟨hw.going, hw.scratch.sound.confined_refl _⟩, trivial⟩

theorem brokenPlan_recorded : brokenPlan.Recorded .none Prod.fst Prod.snd where
  resolve date w := by
    rcases decEq date.date.month 1 with h | h <;> simp [brokenPlan, brokenHistory, h] <;> rfl
  head _ := rfl
  exportFull _ _ _ := ⟨rfl, rfl⟩
  measureFull _ _ := rfl
  hook _ _ _ _ := rfl

end SeriesPlan

end MetricHistory
