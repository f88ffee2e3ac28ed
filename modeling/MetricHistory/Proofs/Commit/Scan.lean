import MetricHistory.Commit.Scan
import MetricHistory.Proofs.FileSystem.Scratch

/-!
# Scanning commits

A scan measures commit after commit in two directories of one scratch directory, until enough
commits have moved a metric.  What a commit did to the metrics does not depend on what the commits
before it left behind.

* `ScanPlan.Answers` is what a history and an analyzer have to say, and `ScanPlan.Answering` that
  they say it whatever the scratch directory looks like, as a mirror does (`Mirror.scan_answering`);
* `ScanPlan.delta_uniform` : the movement of a commit is the same in every state of the scratch
  directory;
* `ScanPlan.scan_bounded` : **a scan finds the first commits that moved a metric when measured alone,
  as many as it was asked for, examines no commit behind them, and leaves no scratch directory.**
-/

namespace MetricHistory

namespace ScanPlan

open MetricHistory.Action (Leads)
open FileSystem (Confined Scratch Shows)

/-- The two directories of a comparison: the files before a commit and after it. -/
inductive Side where
  | parent
  | commit

/-- The name of the directory of a side. -/
def Side.name : Side → Text
  | parent => "parent"
  | commit => "commit"

theorem Side.isName (side : Side) : Path.IsName side.name := by
  cases side with
  | parent => exact ⟨by decide, by decide, by decide, by decide⟩
  | commit => exact ⟨by decide, by decide, by decide, by decide⟩

/-- What a history and an analyzer answer; `none` stands for a failure. -/
structure Answers where
  parent : Text → Except Failure Text
  /-- The paths that a commit changed. -/
  changed : Text → Option (List Text)
  /-- Some files of a commit, if they can be exported. -/
  tree : Text → List Text → Option Tree
  /-- What the analyzer says of the directory of a side with a tree. -/
  measured : Side → Tree → Fragment

variable {σ : Type} (p : ScanPlan σ) {hook : ProgressHook σ} {s : Place} {a : Answers}
  {w : World σ} {side : Side} {Here : World σ → Prop}

/-- The directory of a side. -/
def sideDir (side : Side) : Text := Path.join [p.workDir, side.name]

/-- The work goes on, the scratch path leads to its place, and a directory is or can be there. -/
structure Ready (s : Place) (w : World σ) : Prop where
  going : w.canceled = false
  scratch : Scratch p.workDir s w.files
  isOpen : w.files.node? s = none ∨ w.files.node? s = some .dir

/-- The history and the analyzer answer from `a`, whatever the scratch directory at `s` holds, as
long as what they need is there.  An export replaces the directory of a side or fails, having done to
it whatever it did, and the analyzer works in the directory it measures. -/
structure Answering (hook : ProgressHook σ) (s : Place) (a : Answers) (Here : World σ → Prop) :
    Prop where
  logged : ∀ log w, Here w → Here { w with log }
  cleared : ∀ w, p.Ready s w → Here w → Here { w with files := w.files.eraseBelow s }
  parent : ∀ hash w, p.Ready s w → Here w →
    let r := (p.repository.parent hash).run w
    r.1 = a.parent hash ∧ Confined s w.files r.2.files ∧ p.Ready s r.2 ∧ Here r.2
  changedFiles : ∀ hash w, p.Ready s w → Here w →
    let r := (p.repository.changedFiles hash p.extensions).run w
    r.1.toOption = a.changed hash ∧ Confined s w.files r.2.files ∧ p.Ready s r.2 ∧ Here r.2
  exportSparse : ∀ hash paths side w, p.Ready s w → Here w →
    let r := (p.repository.exportSparse hash paths (p.sideDir side)).run w
    r.1.toOption.isSome = (a.tree hash paths).isSome ∧ r.2.canceled = false ∧ Here r.2 ∧
      Confined (s ++ [side.name]) w.files r.2.files ∧
      ∀ tree, a.tree hash paths = some tree → Shows (s ++ [side.name]) tree r.2.files
  measure : ∀ side tree w, p.Ready s w → Here w → Shows (s ++ [side.name]) tree w.files →
    let r := (p.measurer.measure (p.sideDir side)).run w
    r.1.fragment = a.measured side tree ∧ r.2.canceled = false ∧ Here r.2 ∧
      Confined (s ++ [side.name]) w.files r.2.files
  hook : ∀ done total label w, p.Ready s w → Here w →
    let r := (hook done total label).run w
    Confined s w.files r.2.files ∧ p.Ready s r.2 ∧ Here r.2

/-! ### The movement of one commit -/

/-- A commit without a parent is no failure. -/
theorem parent?_run (hash : Text) (w : World σ) :
    (p.parent? hash).run w =
      match (p.repository.parent hash).run w with
      | (.ok parent, w) => (.ok (some parent), w)
      | (.error f, w) => (if f.isNoParent then .ok none else .error f, w) := rfl

/-- A commit is touched when it is examined or the parent of one that is. -/
def Touched (a : Answers) (Allowed : Text → Prop) (hash : Text) : Prop :=
  ∃ examined, Allowed examined ∧ (hash = examined ∨ a.parent examined = .ok hash)

/-- What the history and the analyzer remember satisfies `L` at all times, given that only allowed
commits are examined. -/
structure Accounts (hook : ProgressHook σ) (a : Answers) (L : σ → Prop) (Allowed : Text → Prop) :
    Prop where
  parent : ∀ hash w, Allowed hash → L w.outside → L ((p.repository.parent hash).run w).2.outside
  changedFiles : ∀ hash w, Allowed hash → L w.outside →
    L ((p.repository.changedFiles hash p.extensions).run w).2.outside
  exportSparse : ∀ hash paths dir w, Touched a Allowed hash → L w.outside →
    L ((p.repository.exportSparse hash paths dir).run w).2.outside
  measure : ∀ dir w, L w.outside → L ((p.measurer.measure dir).run w).2.outside
  hook : ∀ done total label w, L w.outside → L ((hook done total label).run w).2.outside

/-- The worlds of a scan that started in `base`. -/
structure During (s : Place) (base : FileSystem) (L : σ → Prop) (Here : World σ → Prop)
    (w : World σ) : Prop where
  ready : p.Ready s w
  confined : Confined s base w.files
  account : L w.outside
  here : Here w

variable {p} {L : σ → Prop} {Allowed : Text → Prop} {base : FileSystem}

theorem During.log (hans : p.Answering hook s a Here) (h : p.During s base L Here w)
    (l : List LogEntry) : p.During s base L Here { w with log := l } :=
  ⟨⟨h.ready.going, h.ready.scratch, h.ready.isOpen⟩, h.confined, h.account, hans.logged l w h.here⟩

theorem During.inSide {w' : World σ} (h : p.During s base L Here w) (hgoing : w'.canceled = false)
    (hhere : Here w') (hconfined : Confined (s ++ [side.name]) w.files w'.files)
    (hL : L w'.outside) : p.During s base L Here w' := by
  refine ⟨⟨hgoing, h.ready.scratch.confined hconfined.above, ?_⟩,
    h.confined.trans hconfined.above, hL, hhere⟩
  have hout : ¬ s ++ [side.name] <+: s := fun hp => by simpa using hp.length_le
  rcases hnode : w'.files.node? s with _ | n
  · exact .inl rfl
  rcases hconfined.new hout hnode with hold | ⟨rfl, -⟩
  · rcases h.ready.isOpen with hnone | hdir
    · simp [hnone] at hold
    · exact .inr (by rw [← hold, hdir])
  · exact .inr rfl

theorem side_apart (s : Place) {side side' : Side} (h : side ≠ side') :
    ¬ s ++ [side.name] <+: s ++ [side'.name] := by
  rw [List.prefix_append_right_inj]
  cases side <;> cases side' <;> first | exact absurd rfl h | decide

section Uniform

variable (hans : p.Answering hook s a Here) (hacc : p.Accounts hook a L Allowed)
include hans hacc

/-- Exporting files for a side shows them there, or fails because they cannot be had. -/
theorem export_leads {hash context : Text} {paths : List Text} (side : Side)
    (htouched : Touched a Allowed hash) {K : World σ → Prop}
    (hK : ∀ w w', K w → Confined (s ++ [side.name]) w.files w'.files → K w') :
    Leads (fun w => p.During s base L Here w ∧ K w)
      (Attempt.during context (p.repository.exportSparse hash paths (p.sideDir side))).run
      fun r w =>
        match r with
        | .ok _ => p.During s base L Here w ∧ K w ∧
            ∃ tree, a.tree hash paths = some tree ∧ Shows (s ++ [side.name]) tree w.files
        | .error _ => p.During s base L Here w ∧ a.tree hash paths = none := by
  have hexport : Leads (fun w => p.During s base L Here w ∧ K w)
      (Attempt.during context (p.repository.exportSparse hash paths (p.sideDir side))).run
      fun r w => p.During s base L Here w ∧ K w ∧ r.toOption.isSome = (a.tree hash paths).isSome ∧
        ∀ tree, a.tree hash paths = some tree → Shows (s ++ [side.name]) tree w.files := by
    refine Leads.during (Q := fun r w => p.During s base L Here w ∧ K w ∧
      r.isSome = (a.tree hash paths).isSome ∧
        ∀ tree, a.tree hash paths = some tree → Shows (s ++ [side.name]) tree w.files) ?_
    refine .of_attempt ?_
    rintro w ⟨hw, hkeep⟩
    obtain ⟨hsome, hgoing, hhere, hconfined, hshows⟩ :=
      hans.exportSparse hash paths side w hw.ready hw.here
    exact ⟨hw.inSide hgoing hhere hconfined (hacc.exportSparse hash paths _ w htouched hw.account),
      hK w _ hkeep hconfined, hsome, hshows⟩
  refine hexport.weaken ?_
  rintro (f | n) w ⟨hw, hkeep, hsome, hshows⟩
  · exact ⟨hw, by simpa [Except.toOption] using hsome.symm⟩
  · obtain ⟨tree, htree⟩ := Option.isSome_iff_exists.1 (hsome.symm.trans rfl)
    exact ⟨hw, hkeep, tree, htree, hshows tree htree⟩

/-- Measuring the directory of a side gives what the analyzer says of its tree. -/
theorem measure_leads {tree : Tree} (hash : Text) (side : Side) {K : World σ → Prop}
    (hK : ∀ w w', K w → Confined (s ++ [side.name]) w.files w'.files → K w') :
    Leads (fun w => p.During s base L Here w ∧ Shows (s ++ [side.name]) tree w.files ∧ K w)
      (p.measure (p.sideDir side) hash)
      fun r w => p.During s base L Here w ∧ K w ∧ r = a.measured side tree := by
  refine Leads.bind (Q := fun m w => p.During s base L Here w ∧ K w ∧ m.fragment = a.measured side tree)
    ?_ fun m => ?_
  · rintro w ⟨hw, hshows, hkeep⟩
    obtain ⟨hanswer, hgoing, hhere, hconfined⟩ :=
      hans.measure side tree w hw.ready hw.here hshows
    exact ⟨hw.inSide hgoing hhere hconfined (hacc.measure _ w hw.account), hK w _ hkeep hconfined,
      hanswer⟩
  · rcases m.failure? with _ | f
    · exact fun w hw => hw
    · rintro w ⟨hw, hkeep, hm⟩
      refine ⟨hw.log hans _, ?_, hm⟩
      exact hK w _ hkeep (hw.confined.sound.confined_refl _)

/-- What the comparison of a commit with its parent gives, if both sides can be exported. -/
def compared (a : Answers) (parent hash : Text) (paths : List Text) : Option Movement := do
  let before ← a.tree parent paths
  let after ← a.tree hash paths
  some ((a.measured .parent before).movement (a.measured .commit after))

theorem compare_leads {parent hash : Text} (paths : List Text) (hallowed : Allowed hash)
    (hparent : a.parent hash = .ok parent) :
    Leads (p.During s base L Here) (p.compare parent hash paths).run fun r w =>
      p.During s base L Here w ∧ r.toOption = compared a parent hash paths := by
  have htouched : Touched a Allowed parent := ⟨hash, hallowed, .inr hparent⟩
  have htouched' : Touched a Allowed hash := ⟨hash, hallowed, .inl rfl⟩
  -- the tree of the parent, once exported, is not touched by the work on the side of the commit
  set Before : World σ → Prop := fun w => ∃ before, a.tree parent paths = some before ∧
    Shows (s ++ [Side.parent.name]) before w.files
  refine Leads.attempt_bind (M := fun _ w => p.During s base L Here w ∧ Before w)
    (((export_leads hans hacc .parent htouched (K := fun _ => True) fun _ _ _ _ => trivial).start
      fun w hw => ⟨hw, trivial⟩).weaken ?_) fun _ => ?_
  · rintro (f | n) w h
    · exact ⟨h.1, by simp [compared, h.2, Except.toOption]⟩
    · exact ⟨h.1, h.2.2⟩
  refine Leads.attempt_bind (M := fun _ w => p.During s base L Here w ∧ Before w ∧
      ∃ after, a.tree hash paths = some after ∧ Shows (s ++ [Side.commit.name]) after w.files)
    ((export_leads hans hacc .commit htouched' (K := Before) ?_).weaken ?_) fun _ => ?_
  · rintro w w' ⟨before, hbefore, hshows⟩ hconfined
    exact ⟨before, hbefore, hshows.confined hconfined (side_apart s (by simp)) (side_apart s (by simp))⟩
  · rintro (f | n) w h
    · exact ⟨h.1, by simp [compared, h.2, Except.toOption]⟩
    · exact h
  rintro w ⟨hw, ⟨before, hbefore, hshows⟩, after, hafter, hshows'⟩
  refine Leads.attempt_bind
    (P := fun w => p.During s base L Here w ∧ Shows (s ++ [Side.parent.name]) before w.files ∧
      Shows (s ++ [Side.commit.name]) after w.files)
    (Q := fun r w => p.During s base L Here w ∧ r.toOption = compared a parent hash paths)
    (M := fun m w => (p.During s base L Here w ∧ Shows (s ++ [Side.commit.name]) after w.files ∧ True) ∧
      m = a.measured .parent before)
    (Leads.lift ((measure_leads hans hacc parent .parent
      (K := fun w => Shows (s ++ [Side.commit.name]) after w.files) fun w w' hk hc =>
        hk.confined hc (side_apart s (by simp)) (side_apart s (by simp))).weaken
      fun m w h => ⟨⟨h.1, h.2.1, trivial⟩, h.2.2⟩)) (fun m => ?_) w ⟨hw, hshows, hshows'⟩
  refine Leads.attempt_bind
    (M := fun m' w => p.During s base L Here w ∧ m = a.measured .parent before ∧
      m' = a.measured .commit after)
    (Leads.lift ?_) fun m' => ?_
  · rintro w ⟨hw, hm⟩
    obtain ⟨hw', -, hm'⟩ := measure_leads hans hacc hash .commit (K := fun _ => True)
      (fun _ _ _ _ => trivial) w hw
    exact ⟨hw', hm, hm'⟩
  · rintro w ⟨hw, hm, hm'⟩
    refine ⟨hw, ?_⟩
    rw [hm, hm']
    simp [compared, hbefore, hafter, Except.toOption]
    rfl

/-- What a commit did to the metrics; `none` stands for a failure. -/
def moved (a : Answers) (hash : Text) : Option (Option Movement) :=
  match a.parent hash with
  | .error f => if f.isNoParent then some none else none
  | .ok parent => do
    let paths ← a.changed hash
    if paths.isEmpty then some (some {}) else (compared a parent hash paths).map some

theorem parent_leads {hash : Text} (hallowed : Allowed hash) :
    Leads (p.During s base L Here) (p.parent? hash).run fun r w =>
      match r with
      | .ok parent? => p.During s base L Here w ∧
          parent?.elim (moved a hash = some none) fun parent => a.parent hash = .ok parent
      | .error _ => p.During s base L Here w ∧ moved a hash = none := by
  refine .of_attempt fun w hw => ?_
  obtain ⟨hanswer, hconfined, hready, hhere⟩ := hans.parent hash w hw.ready hw.here
  have hduring : p.During s base L Here ((p.repository.parent hash).run w).2 :=
    ⟨hready, hw.confined.trans hconfined, hacc.parent hash w hallowed hw.account, hhere⟩
  rw [p.parent?_run]
  generalize (p.repository.parent hash).run w = r at hanswer hduring ⊢
  obtain ⟨f | parent, w'⟩ := r
  · simp only at hanswer ⊢
    by_cases hno : f.isNoParent = true
    · rw [if_pos hno]
      exact ⟨hduring, by simp [moved, ← hanswer, hno]⟩
    · rw [if_neg hno]
      exact ⟨hduring, by simp [moved, ← hanswer, hno]⟩
  · exact ⟨hduring, hanswer.symm⟩

theorem changed_leads {hash : Text} (hallowed : Allowed hash) :
    Leads (p.During s base L Here) (p.repository.changedFiles hash p.extensions).run fun r w =>
      p.During s base L Here w ∧ r.toOption = a.changed hash := by
  refine .of_attempt fun w hw => ?_
  obtain ⟨hanswer, hconfined, hready, hhere⟩ := hans.changedFiles hash w hw.ready hw.here
  exact ⟨⟨hready, hw.confined.trans hconfined, hacc.changedFiles hash w hallowed hw.account, hhere⟩,
    hanswer⟩

/-- **The movement of a commit is the same in every state of the scratch directory.** -/
theorem delta_uniform {hash : Text} (hallowed : Allowed hash) :
    Leads (p.During s base L Here) (p.delta hash).run fun r w =>
      p.During s base L Here w ∧ r.toOption = moved a hash := by
  refine Leads.attempt_bind (M := fun parent? w => p.During s base L Here w ∧
      parent?.elim (moved a hash = some none) fun parent => a.parent hash = .ok parent)
    ((parent_leads hans hacc hallowed).weaken ?_) fun parent? => ?_
  · rintro (f | parent?) w h
    · exact ⟨h.1, h.2.symm⟩
    · exact h
  rcases parent? with _ | parent
  · rintro w ⟨hw, hmoved : moved a hash = some none⟩
    exact ⟨hw, by rw [hmoved]; rfl⟩
  rintro w ⟨hw, hparent : a.parent hash = .ok parent⟩
  refine Leads.attempt_bind (P := p.During s base L Here)
    (M := fun paths w => p.During s base L Here w ∧ a.changed hash = some paths)
    (Q := fun r w => p.During s base L Here w ∧ r.toOption = moved a hash)
    ((changed_leads hans hacc hallowed).weaken ?_) (fun paths => ?_) w hw
  · rintro (f | paths) w ⟨hw, hchanged⟩
    · exact ⟨hw, by simp [moved, hparent, ← hchanged, Except.toOption]⟩
    · exact ⟨hw, hchanged.symm⟩
  rintro w ⟨hw, hchanged⟩
  -- a commit that changes no file in question is no movement
  by_cases hempty : paths = []
  · subst hempty
    exact ⟨hw, by simp [moved, hparent, hchanged]; rfl⟩
  have hmoved : moved a hash = (compared a parent hash paths).map some := by
    simp [moved, hparent, hchanged, hempty]
  simp only [List.isEmpty_iff, hempty, if_false]
  refine Leads.attempt_bind (M := fun m w => p.During s base L Here w ∧
      compared a parent hash paths = some m)
    (Q := fun r w => p.During s base L Here w ∧ r.toOption = moved a hash)
    ((compare_leads hans hacc paths hallowed hparent).weaken ?_) (fun m w hm => ?_) w hw
  · rintro (f | m) w ⟨hw, hm⟩
    · exact ⟨hw, by simp [hmoved, ← hm, Except.toOption]⟩
    · exact ⟨hw, hm.symm⟩
  · exact ⟨hm.1, by simp [hmoved, hm.2]; rfl⟩

/-! ### All commits -/

theorem hook_during (done total : Nat) (label : Text) :
    Leads (p.During s base L Here) (hook done total label) fun _ => p.During s base L Here := by
  intro w hw
  obtain ⟨hconfined, hready, hhere⟩ := hans.hook done total label w hw.ready hw.here
  exact ⟨hready, hw.confined.trans hconfined, hacc.hook done total label w hw.account, hhere⟩

omit hans hacc in
/-- The results of a commit: one if it moved a metric. -/
def found (a : Answers) (commit : Commit) : List CommitDelta :=
  ((moved a commit.hash).map (kept commit)).getD []

omit hans hacc in
theorem length_found_le (commit : Commit) : (found a commit).length ≤ 1 := by
  rw [found]
  rcases moved a commit.hash with _ | _ | m
  · simp
  · simp [kept]
  · simp only [Option.map_some, Option.getD_some, kept]
    split <;> simp

/-- The rest of a scan completes the results to as many as it was asked for.  A commit is only
examined while there are fewer. -/
theorem scanFrom_leads (target total done : Nat) (results : List CommitDelta)
    (rest : List Commit) (hresults : results.length ≤ target)
    (hallowed : ∀ before commit after, rest = before ++ commit :: after →
      (results ++ before.flatMap (found a)).length < target → Allowed commit.hash) :
    Leads (p.During s base L Here) (p.scanFrom target total hook done results rest) fun r w =>
      p.During s base L Here w ∧ r = ((results ++ rest.flatMap (found a)).take target, none) := by
  induction rest generalizing done results with
  | nil => exact fun w hw => ⟨hw, by simp [List.take_of_length_le hresults]; rfl⟩
  | cons commit rest ih =>
    rw [scanFrom]
    split
    · rename_i hfull
      refine fun w hw => ⟨hw, ?_⟩
      rw [List.take_append_of_le_length hfull, List.take_of_length_le hresults]
      rfl
    rename_i hfull
    have hcommit : Allowed commit.hash := hallowed [] commit rest rfl (by simpa using hfull)
    -- the results of the commit are put behind those before it
    have hnext : ∀ more, more = found a commit → Leads (p.During s base L Here)
        (p.scanFrom target total hook (done + 1) (results ++ more) rest) fun r w =>
          p.During s base L Here w ∧
            r = ((results ++ (commit :: rest).flatMap (found a)).take target, none) := by
      rintro more rfl
      have hlength := length_found_le (a := a) commit
      rw [List.flatMap_cons, ← List.append_assoc]
      refine ih (done + 1) _ (by rw [List.length_append]; omega) fun before c after hrest hlt => ?_
      refine hallowed (commit :: before) c after (by rw [hrest, List.cons_append]) ?_
      rwa [List.flatMap_cons, ← List.append_assoc]
    refine Leads.bind (Q := fun b w => p.During s base L Here w ∧ b = false)
      (fun w hw => ⟨hw, hw.ready.going⟩) fun b => ?_
    cases b with
    | true => exact fun w hw => by simp at hw
    | false =>
      refine Leads.bind (Q := fun outcome w => p.During s base L Here w ∧
          outcome.toOption = moved a commit.hash)
        (fun w hw => delta_uniform hans hacc hcommit w hw.1) fun outcome => ?_
      refine Leads.bind (Q := fun _ w => p.During s base L Here w ∧
          outcome.toOption = moved a commit.hash)
        (fun w hw => ⟨hook_during hans hacc _ _ _ w hw.1, hw.2⟩) fun _ => ?_
      rcases outcome with f | movement?
      · rintro w ⟨hw, hmoved⟩
        have hnone : found a commit = [] := by simp [found, ← hmoved, Except.toOption]
        have hskip := hnext [] hnone.symm
        rw [List.append_nil] at hskip
        exact hskip _ (hw.log hans _)
      · rintro w ⟨hw, hmoved⟩
        exact hnext _ (by simp [found, ← hmoved, Except.toOption]) w hw

end Uniform

/-- The world with the scratch directory removed. -/
def fresh (p : ScanPlan σ) (w : World σ) : World σ :=
  { w with files := ((Files.removeAll p.workDir).run w.files).2 }

/-- The results of a commit whose movement is computed alone in a fresh scratch directory: one if
that succeeds and a metric moved. -/
def foundAlone (p : ScanPlan σ) (w : World σ) (commit : Commit) : List CommitDelta :=
  match ((p.delta commit.hash).run (p.fresh w)).1 with
  | .ok movement? => kept commit movement?
  | .error _ => []

/-- The commit comes up while the commits before it give fewer results than the target. -/
def ComesUp (p : ScanPlan σ) (w : World σ) (target : Nat) (commits : List Commit)
    (commit : Commit) : Prop :=
  ∃ before after, commits = before ++ commit :: after ∧
    (before.flatMap (p.foundAlone w)).length < target

/-- `asked` lists the commits that the history was asked about. -/
structure Recorded (p : ScanPlan σ) (hook : ProgressHook σ) (asked : σ → List Text) : Prop where
  parent : ∀ hash w, asked ((p.repository.parent hash).run w).2.outside = asked w.outside ++ [hash]
  changedFiles : ∀ hash extensions w,
    asked ((p.repository.changedFiles hash extensions).run w).2.outside = asked w.outside ++ [hash]
  exportSparse : ∀ hash paths dir w,
    asked ((p.repository.exportSparse hash paths dir).run w).2.outside = asked w.outside ++ [hash]
  measure : ∀ dir w, asked ((p.measurer.measure dir).run w).2.outside = asked w.outside
  hook : ∀ done total label w, asked ((hook done total label).run w).2.outside = asked w.outside

theorem Recorded.accounts {asked : σ → List Text} (h : p.Recorded hook asked)
    (before : List Text) :
    p.Accounts hook a (fun x => ∃ new, asked x = before ++ new ∧ ∀ y ∈ new, Touched a Allowed y)
      Allowed := by
  have hgrow : ∀ {old new' : List Text} {hash : Text}, Touched a Allowed hash →
      new' = old ++ [hash] → (∃ new, old = before ++ new ∧ ∀ y ∈ new, Touched a Allowed y) →
      ∃ new, new' = before ++ new ∧ ∀ y ∈ new, Touched a Allowed y := by
    rintro old new' hash htouched rfl ⟨new, rfl, hnew⟩
    refine ⟨new ++ [hash], by rw [List.append_assoc], fun y hy => ?_⟩
    rcases List.mem_append.1 hy with hy | hy
    · exact hnew y hy
    · rwa [List.mem_singleton.1 hy]
  exact {
    parent := fun hash w hallowed => hgrow ⟨hash, hallowed, .inl rfl⟩ (h.parent hash w)
    changedFiles := fun hash w hallowed => hgrow ⟨hash, hallowed, .inl rfl⟩ (h.changedFiles hash _ w)
    exportSparse := fun hash paths dir w htouched => hgrow htouched (h.exportSparse hash paths dir w)
    measure := fun dir w hw => by rwa [h.measure]
    hook := fun done total label w hw => by rwa [h.hook] }

theorem foundAlone_eq (hans : p.Answering hook s a Here) (hready : p.Ready s w) (hhere : Here w)
    (commit : Commit) : p.foundAlone w commit = found a commit := by
  have hidle : p.Accounts hook a (fun _ => True) fun _ => True := by
    constructor <;> intros <;> trivial
  have hfresh : p.During s w.files (fun _ => True) Here (p.fresh w) := by
    have hconfined := hready.scratch.confined_eraseBelow
    rw [fresh, hready.scratch.removeAll_run]
    refine ⟨⟨hready.going, hready.scratch.confined hconfined, .inl ?_⟩, hconfined, trivial,
      hans.cleared w hready hhere⟩
    exact (FileSystem.node?_eraseBelow hready.scratch.ne_nil).trans (if_pos (List.prefix_refl _))
  have hmoved : ((p.delta commit.hash).run (p.fresh w)).1.toOption = moved a commit.hash :=
    (delta_uniform hans hidle trivial _ hfresh).2
  rw [foundAlone, found, ← hmoved]
  rcases ((p.delta commit.hash).run (p.fresh w)).1 with f | m <;> rfl

/-- A scan breaks down when there is no room for less than no results. -/
theorem scan_negative (p : ScanPlan σ) {target : Int} (h : target < 0) (hook : ProgressHook σ)
    (commits : List Commit) :
    p.scan target hook commits = do
      Action.discard p.workDir p.fields "Failed to remove commit scratch directory"
      return ([], some .breakdown) := by
  rw [scan, if_pos h, pure_bind]

theorem scan_natCast (p : ScanPlan σ) (target : Nat) (hook : ProgressHook σ)
    (commits : List Commit) :
    p.scan target hook commits = do
      let result ← p.scanFrom target commits.length hook 0 [] commits
      Action.discard p.workDir p.fields "Failed to remove commit scratch directory"
      return result := by
  rw [scan, if_neg (by omega), Int.toNat_natCast]

theorem scan_run (p : ScanPlan σ) (target : Nat) (hook : ProgressHook σ) (commits : List Commit)
    (w : World σ) :
    ∃ log, (p.scan target hook commits).run w =
      let r := (p.scanFrom target commits.length hook 0 [] commits).run w
      (r.1, { r.2 with files := ((Files.removeAll p.workDir).run r.2.files).2, log }) := by
  rw [scan_natCast]
  obtain ⟨log, hrun⟩ := Action.discard_run p.workDir p.fields
    "Failed to remove commit scratch directory"
    ((p.scanFrom target commits.length hook 0 [] commits).run w).2
  exact ⟨log, Prod.ext rfl hrun⟩

/-- What a whole scan gives, and what the history and the analyzer remember of it. -/
theorem scan_leads (hans : p.Answering hook s a Here) (hready : p.Ready s w) (hhere : Here w)
    {target : Nat} {commits : List Commit}
    (hacc : p.Accounts hook a L fun hash =>
      ∃ commit, p.ComesUp w target commits commit ∧ hash = commit.hash)
    (haccount : L w.outside) :
    ((p.scan target hook commits).run w).1 =
        ((commits.flatMap (p.foundAlone w)).take target, none) ∧
      L ((p.scan target hook commits).run w).2.outside := by
  have halone : p.foundAlone w = found a := funext (foundAlone_eq hans hready hhere)
  obtain ⟨hw, hresult⟩ := scanFrom_leads hans hacc target commits.length 0 []
    commits (by simp)
    (fun before commit after hcommits hlt =>
      ⟨commit, ⟨before, after, hcommits, by simpa [halone] using hlt⟩, rfl⟩) w
    ⟨hready, hready.scratch.sound.confined_refl s, haccount, hhere⟩
  obtain ⟨log, hrun⟩ := scan_run p target hook commits w
  rw [hrun, halone]
  exact ⟨by simpa using hresult, hw.account⟩

/-- **A scan gives the first results of the commits that moved a metric when computed alone in a
fresh scratch directory, in their order and up to the target.  The history is only asked about
commits that come up before the target is reached, and about their parents.  After a scan, whether
called off or not, there is nothing at the scratch path.** -/
theorem scan_bounded (p : ScanPlan σ) (target : Nat) (hook : ProgressHook σ) (commits : List Commit)
    (w : World σ) {dir name : Text} (hdir : p.workDir = Path.join [dir, name])
    (hname : Path.IsName name) :
    (∃ e, ((p.scan target hook commits).run w).2.files.find false p.workDir = .error e) ∧
      ∀ (s : Place) (a : Answers) (Here : World σ → Prop),
        p.Ready s w → Here w → p.Answering hook s a Here →
        ((p.scan target hook commits).run w).1 =
            ((commits.flatMap (p.foundAlone w)).take target, none) ∧
          ∀ asked : σ → List Text, p.Recorded hook asked →
            ∃ new, asked ((p.scan target hook commits).run w).2.outside = asked w.outside ++ new ∧
              ∀ hash ∈ new, ∃ commit, p.ComesUp w target commits commit ∧
                (hash = commit.hash ∨ a.parent commit.hash = .ok hash) := by
  constructor
  · obtain ⟨log, hrun⟩ := scan_run p target hook commits w
    rw [hrun]
    simp only [hdir, Path.join_name dir hname]
    exact Files.find_removeAll _ (Path.proper_below dir (by simpa using hname)) hname
  · intro s a Here hready hhere hans
    have hidle : ∀ Allowed, p.Accounts hook a (fun _ => True) Allowed := by
      intro Allowed
      constructor <;> intros <;> trivial
    refine ⟨(scan_leads hans hready hhere (hidle _) trivial).1, fun asked hrec => ?_⟩
    have hacc : p.Accounts hook a _ fun hash =>
        ∃ commit, p.ComesUp w target commits commit ∧ hash = commit.hash :=
      hrec.accounts (asked w.outside)
    obtain ⟨new, hnew, htouched⟩ := (scan_leads hans hready hhere hacc ⟨[], by simp, by simp⟩).2
    refine ⟨new, hnew, fun hash hmem => ?_⟩
    obtain ⟨_, ⟨commit, hcomes, rfl⟩, hcommit⟩ := htouched hash hmem
    exact ⟨commit, hcomes, hcommit⟩

/-- A history of commits with empty trees.  The export of one of them fails after it has emptied its
directory. -/
def brokenHistory : Repository (List Text) where
  head := throw .noCommit
  resolve _ := throw .noCommit
  commitsSince _ := pure []
  commitsPerYear := pure []
  commitsPerMonth := pure []
  parent hash := fun w => (.ok "a0", { w with outside := w.outside ++ [hash] })
  changedFiles hash _ := fun w => (.ok ["f.x"], { w with outside := w.outside ++ [hash] })
  exportFull _ _ := pure ()
  exportSparse hash _ dir := fun w =>
    let (result, files) := (Files.resetDir dir).run w.files
    (if hash = "b1" then .error (.other "broken") else (result.mapError .file).map fun _ => 0,
      { w with files, outside := w.outside ++ [hash] })

/-- Every commit adds to the complexity. -/
def brokenPlan : ScanPlan (List Text) where
  repository := brokenHistory
  measurer := {
    measureFull := fun _ => throw .noSources
    measure := fun dir => pure (.measured { ccnSum := if dir = "/scratch/commit" then 1 else 0 }) }
  extensions := [".x"]
  workDir := "/scratch"

def brokenAnswers : Answers where
  parent _ := .ok "a0"
  changed _ := some ["f.x"]
  tree hash _ := if hash = "b1" then none else some fun _ => none
  measured side _ := { ccnSum := match side with | .parent => 0 | .commit => 1 }

theorem brokenPlan_answering :
    brokenPlan.Answering .none ["scratch"] brokenAnswers fun _ => True where
  logged _ _ _ := trivial
  cleared _ _ _ := trivial
  parent hash w hw _ :=
    ⟨rfl, hw.scratch.sound.confined_refl _, ⟨hw.going, hw.scratch, hw.isOpen⟩, trivial⟩
  changedFiles hash w hw _ :=
    ⟨rfl, hw.scratch.sound.confined_refl _, ⟨hw.going, hw.scratch, hw.isOpen⟩, trivial⟩
  exportSparse hash paths side w hw _ := by
    obtain ⟨fs, hrun, hconfined, hempty, -⟩ :=
      (hw.scratch.child hw.isOpen side.isName).resetDir_run
    have hexport : (brokenPlan.repository.exportSparse hash paths (brokenPlan.sideDir side)).run w =
        (if hash = "b1" then .error (.other "broken") else .ok 0,
          { w with files := fs, outside := w.outside ++ [hash] }) := by
      have hunfold :
          (brokenPlan.repository.exportSparse hash paths (brokenPlan.sideDir side)).run w =
            let (result, files) := (Files.resetDir (brokenPlan.sideDir side)).run w.files
            (if hash = "b1" then .error (.other "broken")
              else (result.mapError .file).map fun _ => 0,
              { w with files, outside := w.outside ++ [hash] }) := rfl
      rw [hunfold, sideDir, hrun]
      rfl
    rw [hexport]
    refine ⟨?_, hw.going, trivial, hconfined, fun tree htree => ?_⟩
    · simp only [brokenAnswers]
      split <;> rfl
    · simp only [brokenAnswers] at htree
      split at htree
      · simp at htree
      · obtain rfl := Option.some.inj htree
        exact hempty.shows
  measure side tree w hw _ _ :=
    ⟨by cases side <;> rfl, hw.going, trivial, hw.scratch.sound.confined_refl _⟩
  hook _ _ _ w hw _ := ⟨hw.scratch.sound.confined_refl _, hw, trivial⟩

theorem brokenPlan_recorded : brokenPlan.Recorded .none id where
  parent _ _ := rfl
  changedFiles _ _ _ := rfl
  exportSparse _ _ _ _ := rfl
  measure _ _ := rfl
  hook _ _ _ _ := rfl

/-- A commit with a hash. -/
def commitOf (hash : Text) : Commit where
  hash := hash
  shortHash := hash
  date := Time.zero
  subject := []
  category := .other []

theorem empty_ready : brokenPlan.Ready ["scratch"] { outside := [] } :=
  have hname : Path.IsName "scratch" := ⟨by decide, by decide, by decide, by decide⟩
  ⟨rfl, FileSystem.sound_empty.scratch_root hname (by decide), .inl rfl⟩

/-- The first commit cannot be exported, the second one fills the target, and the third one is not
looked at. -/
theorem scan_bounded_broken :
    let commits := [commitOf "b1", commitOf "b2", commitOf "b3"]
    let r := (brokenPlan.scan 1 .none commits).run { outside := [] }
    brokenPlan.workDir = Path.join ["/", "scratch"] ∧
      (∃ e, r.2.files.find false brokenPlan.workDir = .error e) ∧
      r.1.1.map CommitDelta.hash = ["b2"] ∧ Text.ofString "b3" ∉ r.2.outside := by
  intro commits r
  have hdir : brokenPlan.workDir = Path.join ["/", "scratch"] := by decide
  obtain ⟨hgone, hscan⟩ := scan_bounded brokenPlan 1 .none commits { outside := [] } hdir
    ⟨by decide, by decide, by decide, by decide⟩
  obtain ⟨hfound, hasked⟩ := hscan ["scratch"] brokenAnswers (fun _ => True) empty_ready
    trivial brokenPlan_answering
  have halone : brokenPlan.foundAlone { outside := [] } = found brokenAnswers :=
    funext (foundAlone_eq brokenPlan_answering empty_ready trivial)
  have hfirst : found brokenAnswers (commitOf "b1") = [] := rfl
  have hsecond : (found brokenAnswers (commitOf "b2")).map CommitDelta.hash = ["b2"] := by decide
  refine ⟨hdir, hgone, ?_, fun hmem => ?_⟩
  · rw [show r.1 = _ from hfound, halone]
    simp only [commits, List.flatMap_cons, hfirst, List.nil_append, List.map_take, List.map_append,
      hsecond]
    rfl
  · obtain ⟨new, hnew, honly⟩ := hasked id brokenPlan_recorded
    rw [show r.2.outside = new from hnew] at hmem
    obtain ⟨commit, ⟨before, after, hcommits, hfew⟩, heq | heq⟩ := honly _ hmem
    · -- the first two commits have other hashes, and they fill the target
      rcases before with _ | ⟨x, _ | ⟨y, before⟩⟩
      · rw [List.nil_append, List.cons.injEq] at hcommits
        rw [← hcommits.1] at heq
        exact absurd heq (by decide)
      · simp only [commits, List.cons_append, List.nil_append, List.cons.injEq] at hcommits
        rw [← hcommits.2.1] at heq
        exact absurd heq (by decide)
      · simp only [commits, List.cons_append, List.cons.injEq] at hcommits
        rw [halone, List.flatMap_cons, List.flatMap_cons, ← hcommits.1, ← hcommits.2.1, hfirst,
          List.nil_append, List.length_append, ← List.length_map (f := CommitDelta.hash), hsecond]
          at hfew
        simp at hfew
    · exact absurd (Except.ok.inj (show Except.ok (Text.ofString "a0") = _ from heq)) (by decide)

end ScanPlan

end MetricHistory
