import MetricHistory.Collection.Run
import MetricHistory.Proofs.Commit.Cancellation
import MetricHistory.Proofs.Snapshot.Run

/-!
# What displays are told

A collection shows its progress in a display for each of its stages.  Displays open late, from within
a series of snapshots or a scan of commits, and a stage can end in many ways.

What displays are told is recorded outside, and nothing else touches that record.

* `Told` is what is known of displays at a moment, and `Quiet` says that an action leaves it as it is;
* `session` is all that one display is told, and `bar` all that is told of a stage that counts steps;
* `SeriesPlan.run_showing` and `ScanPlan.scan_showing` : both loops count their steps from one on,
  and not beyond the total;
* `Collection.run_displayed` : **whatever the outcome, the displays of a run are told of their stages
  one after the other, each one opened once, set to 1, 2, 3 and so on, and finished once with the
  failure of its stage.**
-/

namespace MetricHistory

open DisplayEvent
open MetricHistory.Action (Leads)

variable {σ α β : Type} {record : σ → List DisplayEvent} {shown : Option Text}
  {events : List DisplayEvent} {label : Text} {failure : Option Failure} {total k : ℕ}

/-! ### Records -/

namespace DisplayEvent

/-- What is told of a display that shows `k` steps. -/
def session (label : Text) (total : Option ℕ) (k : ℕ) (failure : Option Failure) :
    List DisplayEvent :=
  .opened label total :: (List.range' 1 k).map (.advanced label) ++ [.finished label failure]

/-- What is told of a stage that counts `k` steps: nothing if there was none. -/
def bar (label : Text) (total k : ℕ) (failure : Option Failure) : List DisplayEvent :=
  if k = 0 then [] else session label (some total) k failure

/-- What is known of displays: the record of what they were told, and which one is shown. -/
def Told (record : σ → List DisplayEvent) (shown : Option Text) (events : List DisplayEvent)
    (w : World σ) : Prop :=
  record w.outside = events ∧ w.display = shown

/-- What displays are told is added to the record.  Telling them may do anything else, such as
calling the work off. -/
def Records (record : σ → List DisplayEvent) (tell : DisplayEvent → Action σ Unit) : Prop :=
  ∀ event shown events, Leads (Told record shown events) (tell event) fun _ =>
    Told record shown (events ++ [event])

/-- After `k` steps of a stage.  Its display has opened with the first one. -/
def Showing (record : σ → List DisplayEvent) (before : List DisplayEvent) (label : Text) (total : ℕ) :
    ℕ → World σ → Prop
  | 0 => Told record none before
  | k + 1 => Told record (some label)
      (before ++ .opened label (some total) :: (List.range' 1 (k + 1)).map (.advanced label))

/-- Each step that is reported is shown. -/
def Shows (record : σ → List DisplayEvent) (before : List DisplayEvent) (label : Text) (total : ℕ)
    (hook : ProgressHook σ) : Prop :=
  ∀ k name, Leads (Showing record before label total k) (hook (k + 1) total name) fun _ =>
    Showing record before label total (k + 1)

end DisplayEvent

/-! ### Quiet actions -/

/-- Attempts in a row, the first of which leads to `I` even if it fails. -/
theorem Action.Leads.attempt_keep {P I : World σ → Prop} {act : Attempt σ α} {k : α → Attempt σ β}
    (h : Leads P act.run fun _ => I) (hk : ∀ a, Leads I (k a).run fun _ => I) :
    Leads P (act >>= k).run fun _ => I := by
  refine Leads.attempt_bind (M := fun _ => I) (h.weaken fun r w hw => ?_) hk
  cases r <;> exact hw

/-- The action has nothing to do with displays. -/
def Action.Quiet (record : σ → List DisplayEvent) (act : Action σ α) : Prop :=
  ∀ shown events, Leads (Told record shown events) act fun _ => Told record shown events

namespace Action.Quiet

variable {act : Action σ α}

theorem pure (a : α) : Quiet record (Pure.pure a : Action σ α) :=
  fun _ _ => Leads.pure fun _ hw => hw

theorem bind {k : α → Action σ β} (h : Quiet record act) (hk : ∀ a, Quiet record (k a)) :
    Quiet record (act >>= k) :=
  fun _ _ => (h _ _).bind fun a => hk a _ _

theorem ite {c : Prop} [Decidable c] {act' : Action σ α} (h : Quiet record act)
    (h' : Quiet record act') : Quiet record (if c then act else act') := by
  split
  · exact h
  · exact h'

theorem of_keeps (h : ∀ w, (act.run w).2.outside = w.outside ∧ (act.run w).2.display = w.display) :
    Quiet record act := by
  rintro shown events w ⟨hrecord, hshown⟩
  exact ⟨(congrArg record (h w).1).trans hrecord, (h w).2.trans hshown⟩

theorem log (level : LogLevel) (message : Text) (fields : LogFields) :
    Quiet record (Action.log level message fields) :=
  of_keeps fun _ => ⟨rfl, rfl⟩

theorem isCanceled : Quiet record (Action.isCanceled : Action σ Bool) :=
  of_keeps fun _ => ⟨rfl, rfl⟩

theorem onFiles (act : Files α) : Quiet record (Action.onFiles act : Action σ (Except FileError α)) :=
  of_keeps fun _ => ⟨rfl, rfl⟩

theorem discard (dir : Text) (fields : LogFields) (warning : Text) :
    Quiet record (Action.discard dir fields warning : Action σ Unit) := by
  refine of_keeps fun w => ?_
  obtain ⟨log, h⟩ := Action.discard_run dir fields warning w
  rw [h]
  exact ⟨rfl, rfl⟩

theorem attempt_bind {act : Attempt σ α} {k : α → Attempt σ β} (h : Quiet record act.run)
    (hk : ∀ a, Quiet record (k a).run) : Quiet record (act >>= k).run :=
  fun _ _ => (h _ _).attempt_keep fun a => hk a _ _

theorem lift (h : Quiet record act) : Quiet record (liftM act : Attempt σ α).run :=
  fun shown events => Leads.lift (Q := fun _ => Told record shown events) (h shown events)

theorem during {act : Attempt σ α} (h : Quiet record act.run) (context : Text) :
    Quiet record (act.during context).run :=
  fun shown events => Leads.during (Q := fun _ => Told record shown events) (h shown events)

end Action.Quiet

open MetricHistory.Action (Quiet)

/-- The calls of a repository have nothing to do with displays. -/
structure Repository.Quiet (record : σ → List DisplayEvent) (r : Repository σ) : Prop where
  head : Action.Quiet record r.head.run
  resolve : ∀ date, Action.Quiet record (r.resolve date).run
  commitsSince : ∀ since, Action.Quiet record (r.commitsSince since).run
  commitsPerYear : Action.Quiet record r.commitsPerYear.run
  commitsPerMonth : Action.Quiet record r.commitsPerMonth.run
  parent : ∀ hash, Action.Quiet record (r.parent hash).run
  changedFiles : ∀ hash extensions, Action.Quiet record (r.changedFiles hash extensions).run
  exportFull : ∀ hash dest, Action.Quiet record (r.exportFull hash dest).run
  exportSparse : ∀ hash paths dest, Action.Quiet record (r.exportSparse hash paths dest).run

/-- The calls of an analyzer have nothing to do with displays. -/
structure Measurer.Quiet (record : σ → List DisplayEvent) (m : Measurer σ) : Prop where
  measureFull : ∀ dir, Action.Quiet record (m.measureFull dir).run
  measure : ∀ dir, Action.Quiet record (m.measure dir)

/-! ### One display -/

theorem Action.Quiet.showing {act : Action σ α} (h : Quiet record act) :
    Leads (Showing record events label total k) act fun _ => Showing record events label total k := by
  cases k with
  | zero => exact h _ _
  | succ k => exact h _ _

namespace DisplayHook

variable {tell : DisplayEvent → Action σ Unit}

theorem openOnce_run (total : Option ℕ) (w : World σ) :
    (openOnce (some tell) label total).run w =
      if w.display.isNone then
        (tell (.opened label total)).run { w with display := some label }
      else ((), w) := by
  obtain ⟨_, _, _, _ | _, _⟩ := w <;> rfl

theorem finish_run (w : World σ) :
    (finish (some tell) label failure).run w =
      if w.display.isSome then (tell (.finished label failure)).run { w with display := none }
      else ((), w) := by
  obtain ⟨_, _, _, _ | _, _⟩ := w <;> rfl

variable (htell : Records record tell)
include htell

theorem openOnce_leads (total : Option ℕ) :
    Leads (Told record none events) (openOnce (some tell) label total) fun _ =>
      Told record (some label) (events ++ [.opened label total]) := by
  rintro w ⟨hrecord, hshown⟩
  rw [openOnce_run, hshown, if_pos Option.isNone_none]
  exact htell _ _ _ _ ⟨hrecord, rfl⟩

theorem finish_leads {shown : Text} :
    Leads (Told record (some shown) events) (finish (some tell) label failure) fun _ =>
      Told record none (events ++ [.finished label failure]) := by
  rintro w ⟨hrecord, hshown⟩
  rw [finish_run, hshown, if_pos Option.isSome_some]
  exact htell _ _ _ _ ⟨hrecord, rfl⟩

theorem advance_showing :
    Leads (Showing record events label total k) (advance (some tell) label (k + 1) total) fun _ =>
      Showing record events label total (k + 1) := by
  cases k with
  | zero =>
    refine (openOnce_leads htell (some total)).bind fun _ => ?_
    refine (htell _ _ _).weaken fun _ w hw => ?_
    simpa [Showing] using hw
  | succ k =>
    have hopen : Leads (Showing record events label total (k + 1))
        (openOnce (some tell) label (some total)) fun _ =>
          Showing record events label total (k + 1) := by
      rintro w ⟨hrecord, hshown⟩
      rw [openOnce_run, hshown]
      exact ⟨hrecord, hshown⟩
    have hnext : List.range' 1 (k + 1 + 1) = List.range' 1 (k + 1) ++ [k + 1 + 1] := by
      rw [List.range'_1_concat, Nat.add_comm 1]
    refine hopen.bind fun _ => (htell _ _ _).weaken fun _ w hw => ?_
    rw [Showing, hnext, List.map_append, ← List.cons_append, ← List.append_assoc]
    exact hw

theorem finish_showing :
    Leads (Showing record events label total k) (finish (some tell) label failure) fun _ =>
      Told record none (events ++ bar label total k failure) := by
  cases k with
  | zero =>
    rintro w ⟨hrecord, hshown⟩
    rw [finish_run, hshown]
    exact ⟨hrecord.trans (List.append_nil _).symm, hshown⟩
  | succ k =>
    refine (finish_leads htell).weaken fun _ w hw => ?_
    simpa [bar, session] using hw

end DisplayHook

/-! ### Series of snapshots -/

namespace SeriesPlan

variable {p : SeriesPlan σ} {hook : ProgressHook σ}

theorem cached_quiet (key : Text) : Quiet record (p.cached key) := by
  refine .of_keeps fun w => ?_
  unfold cached
  cases p.cache <;> exact ⟨rfl, rfl⟩

theorem store_quiet (key : Text) (s : Snapshot) (fields : LogFields) :
    Quiet record (p.store key s fields) := by
  unfold store
  cases p.cache with
  | none => exact .pure _
  | some cache =>
    refine .bind (.of_keeps fun w => ?_) fun result => ?_
    · cases s.encode? <;> exact ⟨rfl, rfl⟩
    · cases result with
      | ok _ => exact .pure _
      | error f => exact .log _ _ _

section Calls

variable (hr : p.repository.Quiet record) (hm : p.measurer.Quiet record)
include hr hm

theorem measure_quiet (hash : Text) (fields : LogFields) :
    Quiet record (p.measure label hash fields) := by
  refine (Quiet.log _ _ _).bind fun _ => (hr.exportFull hash p.workDir).bind fun exported => ?_
  cases exported with
  | error f => exact (Quiet.log _ _ _).bind fun _ => .pure _
  | ok _ =>
    refine Quiet.bind (.of_keeps fun _ => ⟨rfl, rfl⟩) fun w => .ite ?_ ?_
    · exact (Quiet.log _ _ _).bind fun _ => .pure _
    · refine (hm.measureFull _).bind fun measured => ?_
      cases measured with
      | error f => exact (Quiet.log _ _ _).bind fun _ => .pure _
      | ok d => exact .pure _

theorem sample_quiet (hash : Text) : Quiet record (p.sample label hash) := by
  refine (cached_quiet _).bind fun found? => ?_
  cases found? with
  | some s => exact (Quiet.log _ _ _).bind fun _ => .pure _
  | none =>
    refine (measure_quiet hr hm hash _).bind fun measured? => ?_
    cases measured? with
    | some s => exact (store_quiet _ _ _).bind fun _ => .pure _
    | none => exact .pure _

theorem sampleAt_quiet (date : Time) : Quiet record (p.sampleAt date) := by
  refine (hr.resolve date).bind fun resolved => ?_
  cases resolved with
  | ok hash => exact sample_quiet hr hm hash
  | error f => refine .ite ?_ ?_ <;> exact (Quiet.log _ _ _).bind fun _ => .pure _

theorem sampleHead_quiet : Quiet record p.sampleHead := by
  refine hr.head.bind fun head => ?_
  cases head with
  | ok hash => exact sample_quiet hr hm hash
  | error f => exact (Quiet.log _ _ _).bind fun _ => .pure _

end Calls

variable (hhook : Shows record events label total hook)
include hhook

/-- Every date is one step, unless the work is called off. -/
theorem runDates_showing {dates : List Time} (hsample : ∀ date, Quiet record (p.sampleAt date))
    (taken : List Snapshot) :
    Leads (Showing record events label total k) (p.runDates total hook k taken dates) fun r w =>
      ∃ last ≤ k + dates.length, (r.2 = none → last = k + dates.length) ∧
        Showing record events label total last w := by
  induction dates generalizing k taken with
  | nil => exact fun w hw => ⟨k, le_refl k, fun _ => rfl, hw⟩
  | cons date rest ih =>
    refine Quiet.isCanceled.showing.bind fun canceled => ?_
    cases canceled with
    | true =>
      exact Leads.pure (a := (taken, some Failure.canceled)) fun w hw =>
        ⟨k, Nat.le_add_right _ _, by simp, hw⟩
    | false =>
      refine (hsample date).showing.bind fun sample? => (hhook k _).bind fun _ => ?_
      refine (ih (taken ++ sample?.toList)).weaken fun r w hw => ?_
      rwa [List.length_cons, Nat.add_comm rest.length, ← Nat.add_assoc]

theorem runHead_showing (htotal : total = k + 1) (hhead : Quiet record p.sampleHead)
    (taken : List Snapshot) :
    Leads (Showing record events label total k) (p.runHead total hook taken) fun _ =>
      Showing record events label total total := by
  subst htotal
  have htail : ∀ head? : Option Snapshot, Leads (Showing record events label (k + 1) k)
      (do
        hook (k + 1) (k + 1) (Snapshot.label p.now)
        let canceled ← Action.isCanceled
        return (taken ++ head?.toList, if canceled then some Failure.canceled else none))
      fun _ => Showing record events label (k + 1) (k + 1) := fun _ =>
    (hhook k _).bind fun _ => Quiet.isCanceled.showing.bind fun _ _ hw => hw
  rw [runHead]
  split
  · exact hhead.showing.bind htail
  · exact htail none

omit hhook in
/-- A series counts its samples, all of them unless it breaks off. -/
theorem run_showing (hr : p.repository.Quiet record) (hm : p.measurer.Quiet record)
    (hhook : Shows record events label (p.dates.length + 1) hook) :
    Leads (Showing record events label (p.dates.length + 1) 0) (p.run hook) fun r w =>
      ∃ last ≤ p.dates.length + 1, (r.2 = none → last = p.dates.length + 1) ∧
        Showing record events label (p.dates.length + 1) last w := by
  have hschedule : Leads (Showing record events label (p.dates.length + 1) 0) (p.runSchedule hook)
      fun r w => ∃ last ≤ 0 + p.dates.length, (r.2 = none → last = 0 + p.dates.length) ∧
        Showing record events label (p.dates.length + 1) last w :=
    (Quiet.log _ _ _).showing.bind fun _ => runDates_showing hhook (sampleAt_quiet hr hm) []
  rw [Nat.zero_add] at hschedule
  intro w hw
  rw [run_run]
  obtain ⟨last, hlast, hwhole, hshowing⟩ := hschedule w hw
  revert hwhole hshowing
  generalize (p.runSchedule hook).run w = scheduled
  obtain ⟨⟨taken, _ | f⟩, w'⟩ := scheduled <;> intro hwhole hshowing
  · -- nothing broke off, so that the present is next
    obtain rfl := hwhole rfl
    have hpresent := runHead_showing hhook rfl (sampleHead_quiet hr hm) taken w' hshowing
    exact ⟨p.dates.length + 1, le_refl _, fun _ => rfl,
      (Quiet.discard _ _ _).showing _ hpresent⟩
  · exact ⟨last, Nat.le_succ_of_le hlast, fun h => absurd h (Option.some_ne_none f),
      (Quiet.discard _ _ _).showing _ hshowing⟩

end SeriesPlan

/-! ### Scans of commits -/

namespace ScanPlan

variable {p : ScanPlan σ} {hook : ProgressHook σ}

section Calls

variable (hr : p.repository.Quiet record) (hm : p.measurer.Quiet record)
include hr

theorem parent?_quiet (hash : Text) : Quiet record (p.parent? hash).run := by
  rw [parent?_eq]
  exact (hr.parent hash).bind fun _ => .pure _

include hm

omit hr in
theorem measure_quiet (dir hash : Text) : Quiet record (p.measure dir hash) := by
  refine (hm.measure dir).bind fun m => ?_
  cases m.failure? with
  | some f => exact (Quiet.log _ _ _).bind fun _ => .pure _
  | none => exact .pure _

theorem compare_quiet (parent hash : Text) (paths : List Text) :
    Quiet record (p.compare parent hash paths).run := by
  have hexport := fun commit dir context => (hr.exportSparse commit paths dir).during context
  refine (hexport _ _ _).attempt_bind fun _ => (hexport _ _ _).attempt_bind fun _ => ?_
  refine (measure_quiet hm _ _).lift.attempt_bind fun before => ?_
  exact (measure_quiet hm _ _).lift.attempt_bind fun after => .pure _

theorem delta_quiet (hash : Text) : Quiet record (p.delta hash).run := by
  refine (parent?_quiet hr hash).attempt_bind fun parent? => ?_
  cases parent? with
  | none => exact .pure _
  | some parent =>
    refine (hr.changedFiles hash p.extensions).attempt_bind fun paths => .ite (.pure _) ?_
    exact (compare_quiet hr hm parent hash paths).attempt_bind fun _ => .pure _

end Calls

variable (hhook : Shows record events label total hook)
include hhook

theorem examine_showing {commit : Commit} (hdelta : Quiet record (p.delta commit.hash).run)
    (found : List CommitDelta) :
    Leads (Showing record events label total k) (p.examine total hook k found commit) fun _ =>
      Showing record events label total (k + 1) := by
  refine hdelta.showing.bind fun outcome => (hhook k _).bind fun _ => ?_
  cases outcome with
  | error f => exact Quiet.showing ((Quiet.log _ _ _).bind fun _ => .pure _)
  | ok movement? => exact Quiet.showing (.pure _)

theorem scanFrom_showing {commits : List Commit}
    (hdelta : ∀ hash, Quiet record (p.delta hash).run) (target : ℕ) (found : List CommitDelta) :
    Leads (Showing record events label total k) (p.scanFrom target total hook k found commits)
      fun _ w => ∃ last ≤ k + commits.length, Showing record events label total last w := by
  induction commits generalizing k found with
  | nil => exact fun w hw => ⟨k, le_refl k, hw⟩
  | cons commit rest ih =>
    have hstop : ∀ {w}, Showing record events label total k w →
        ∃ last ≤ k + (commit :: rest).length, Showing record events label total last w := fun hw =>
      ⟨k, Nat.le_add_right _ _, hw⟩
    rw [scanFrom_cons]
    split
    · exact fun w hw => hstop hw
    refine Quiet.isCanceled.showing.bind fun canceled => ?_
    cases canceled with
    | true => exact fun w hw => hstop hw
    | false =>
      refine (examine_showing hhook (hdelta _) found).bind fun found => ?_
      refine (ih found).weaken fun _ w hw => ?_
      rwa [List.length_cons, Nat.add_comm rest.length, ← Nat.add_assoc]

omit hhook in
/-- A scan counts the commits that it examines. -/
theorem scan_showing {commits : List Commit} (hr : p.repository.Quiet record)
    (hm : p.measurer.Quiet record) (hhook : Shows record events label commits.length hook)
    (target : Int) :
    Leads (Showing record events label commits.length 0) (p.scan target hook commits) fun _ w =>
      ∃ last ≤ commits.length, Showing record events label commits.length last w := by
  rcases target with target | below
  · rw [Int.ofNat_eq_natCast, scan_natCast]
    refine (scanFrom_showing hhook (delta_quiet hr hm) target []).bind fun result => ?_
    rintro w ⟨last, hlast, hshowing⟩
    rw [Nat.zero_add] at hlast
    exact ⟨last, hlast, (Quiet.discard _ _ _).showing w hshowing⟩
  · rw [scan_negative p (Int.negSucc_lt_zero below)]
    exact fun w hw => ⟨0, Nat.zero_le _, (Quiet.discard _ _ _).showing w hw⟩

end ScanPlan

/-! ### Collections -/

namespace Collection

/-- What the displays of a collection are told is recorded, and its calls have nothing to do with
displays. -/
structure Recorded (c : Collection σ) (record : σ → List DisplayEvent) : Prop where
  displays : ∃ tell, c.displays = some tell ∧ Records record tell
  openMeasurer : ∀ f, Quiet record (c.openMeasurer f).run ∧
    ∀ w m, ((c.openMeasurer f).run w).1 = .ok m → m.Quiet record
  openRepository : ∀ f, Quiet record (c.openRepository f).run ∧
    ∀ w r, ((c.openRepository f).run w).1 = .ok r → r.Quiet record

/-- What a run does before it comes to the repository. -/
def opening (c : Collection σ) (f : Framework) : Attempt σ (Time × Measurer σ) := do
  let anchor ← anchor f
  let measurer ← Attempt.during ("analyzer for " ++ f.id) (c.openMeasurer f)
  return (anchor, measurer)

/-- The world in which the repository is opened. -/
def mirrorWorld (c : Collection σ) (f : Framework) (w : World σ) : World σ :=
  ((do
    Action.log .info "Preparing repository"
      (c.fields f ++ [(Text.ofString "path", .text (c.config.paths.mirrorDir f.id))])
    c.displays.openOnce (f.name ++ " mirror") none : Action σ Unit).run w).2

/-- What comes of opening the repository. -/
def mirrorFailure (c : Collection σ) (f : Framework) (w : World σ) : Option Failure :=
  match ((c.openRepository f).run (c.mirrorWorld f w)).1 with
  | .ok _ => none
  | .error e => some e

/-- The series of snapshots. -/
def series (c : Collection σ) (f : Framework) (r : Repository σ) (m : Measurer σ) (anchor : Time) :
    Action σ (List Snapshot × Option Failure) := do
  let cache ← c.cacheFor f
  let plan : SeriesPlan σ :=
    { framework := f.id, repository := r, measurer := m, anchor, subdir := f.coreSubdir
      workDir := Path.join [c.config.paths.workDir f.id, "work"]
      interval := Schedule.interval c.config.history.intervalMonths
      now := c.now, cache, fields := c.fields f }
  plan.run fun done total _ => c.displays.advance (f.name ++ " snapshots") done total

/-- The scan of recent commits. -/
def recentScan (c : Collection σ) (f : Framework) (r : Repository σ) (m : Measurer σ)
    (recent : List Commit) : Action σ (List CommitDelta × Option Failure) := do
  let history := c.config.history
  Action.log .info "Analyzing recent commits"
    (c.fields f ++ [(Text.ofString "candidates", .int recent.length),
      (Text.ofString "target", .int history.targetCommits)])
  let plan : ScanPlan σ :=
    { repository := r, measurer := m, extensions := f.extensions
      workDir := Path.join [c.config.paths.workDir f.id, "commit_work"], fields := c.fields f }
  plan.scan history.targetCommits
    (fun done total _ => c.displays.advance (f.name ++ " commits") done total) recent

/-- The number of samples of a series: the scheduled dates and the present. -/
def sampleCount (c : Collection σ) (anchor : Time) : ℕ :=
  (Schedule.dates anchor c.now (Schedule.interval c.config.history.intervalMonths)).length + 1

/-- The recent commits. -/
def recentCommits (c : Collection σ) (r : Repository σ) : Attempt σ (List Commit) :=
  r.commitsSince (c.now.addDays (-c.config.history.recentDays))

/-- What displays are told in a run from a world.  The run goes as far as one of its stages, and
every display is finished with what came of its own stage. -/
inductive Displayed (c : Collection σ) (f : Framework) (w : World σ) : List DisplayEvent → Prop where
  /-- The run fails before it comes to the repository. -/
  | early {e : Failure} {w₁ : World σ} (hopening : (c.opening f).run w = (.error e, w₁)) :
      Displayed c f w []
  /-- The repository cannot be had. -/
  | mirror {anchor : Time} {m : Measurer σ} {e : Failure} {w₁ w₂ : World σ}
      (hopening : (c.opening f).run w = (.ok (anchor, m), w₁))
      (hprepare : (c.prepare f).run w₁ = (.error e, w₂)) :
      Displayed c f w (session (f.name ++ " mirror") none 0 (c.mirrorFailure f w₁))
  /-- The series of snapshots breaks off. -/
  | snapshots {anchor : Time} {m : Measurer σ} {r : Repository σ} {e : Failure} {w₁ w₂ w₃ : World σ}
      {k : ℕ} (hopening : (c.opening f).run w = (.ok (anchor, m), w₁))
      (hprepare : (c.prepare f).run w₁ = (.ok r, w₂))
      (hsnapshots : (c.snapshots f r m anchor).run w₂ = (.error e, w₃))
      (hk : k ≤ c.sampleCount anchor) :
      Displayed c f w (session (f.name ++ " mirror") none 0 (c.mirrorFailure f w₁) ++
        bar (f.name ++ " snapshots") (c.sampleCount anchor) k ((c.series f r m anchor).run w₂).1.2)
  /-- The recent commits cannot be listed. -/
  | unlisted {anchor : Time} {m : Measurer σ} {r : Repository σ} {taken : List Snapshot} {e : Failure}
      {w₁ w₂ w₃ w₄ : World σ} {k : ℕ} (hopening : (c.opening f).run w = (.ok (anchor, m), w₁))
      (hprepare : (c.prepare f).run w₁ = (.ok r, w₂))
      (hsnapshots : (c.snapshots f r m anchor).run w₂ = (.ok taken, w₃))
      (hlisted : (c.recentCommits r).run w₃ = (.error e, w₄)) (hk : k ≤ c.sampleCount anchor) :
      Displayed c f w (session (f.name ++ " mirror") none 0 (c.mirrorFailure f w₁) ++
        bar (f.name ++ " snapshots") (c.sampleCount anchor) k ((c.series f r m anchor).run w₂).1.2)
  /-- The recent commits are scanned.  Nothing has a display after that. -/
  | commits {anchor : Time} {m : Measurer σ} {r : Repository σ} {taken : List Snapshot}
      {recent : List Commit} {w₁ w₂ w₃ w₄ : World σ} {k j : ℕ}
      (hopening : (c.opening f).run w = (.ok (anchor, m), w₁))
      (hprepare : (c.prepare f).run w₁ = (.ok r, w₂))
      (hsnapshots : (c.snapshots f r m anchor).run w₂ = (.ok taken, w₃))
      (hlisted : (c.recentCommits r).run w₃ = (.ok recent, w₄)) (hk : k ≤ c.sampleCount anchor)
      (hj : j ≤ recent.length) :
      Displayed c f w (session (f.name ++ " mirror") none 0 (c.mirrorFailure f w₁) ++
        bar (f.name ++ " snapshots") (c.sampleCount anchor) k ((c.series f r m anchor).run w₂).1.2 ++
          bar (f.name ++ " commits") recent.length j ((c.recentScan f r m recent).run w₄).1.2)

variable {c : Collection σ} {r : Repository σ} {m : Measurer σ}

theorem cacheFor_quiet (f : Framework) : Quiet record (c.cacheFor f) := by
  unfold cacheFor
  cases c.cache with
  | none => exact .pure _
  | some cache =>
    refine .ite (.pure _) ((Quiet.onFiles _).bind fun hashed => ?_)
    cases hashed with
    | ok fingerprint => exact .pure _
    | error e => exact (Quiet.log _ _ _).bind fun _ => .pure _

theorem counted_quiet (hr : r.Quiet record) (f : Framework) {taken : List Snapshot}
    {found : List CommitDelta} : Quiet record (c.counted f (r, taken, found)).run :=
  (hr.commitsPerYear.during _).attempt_bind fun _ =>
    (hr.commitsPerMonth.during _).attempt_bind fun _ => .pure _

theorem prepare_run (f : Framework) (w : World σ) :
    (c.prepare f).run w =
      let opened := (c.openRepository f).run (c.mirrorWorld f w)
      (match opened.1 with
        | .ok r => do
          c.displays.finish (f.name ++ " mirror") none
          return r
        | .error e => do
          c.displays.finish (f.name ++ " mirror") (some e)
          throw (.during ("repository for " ++ f.id) e) : Attempt σ (Repository σ)).run opened.2 := by
  rfl

/-- The snapshots are the series, settled. -/
theorem snapshots_run (f : Framework) (anchor : Time) (w : World σ) :
    (c.snapshots f r m anchor).run w = (do
      let taken ← c.settle (f.name ++ " snapshots") ((c.series f r m anchor).run w).1
      Attempt.log .info "Snapshot series complete"
        (c.fields f ++ [(Text.ofString "snapshots", .int taken.length)])
      return taken : Attempt σ (List Snapshot)).run ((c.series f r m anchor).run w).2 := by
  rfl

theorem recentChanges_run (f : Framework) (w : World σ) :
    (c.recentChanges f r m).run w =
      match (c.recentCommits r).run w with
      | (.ok recent, w) => (do
          let found ← c.settle (f.name ++ " commits") ((c.recentScan f r m recent).run w).1
          Attempt.log .info "Found commits with metric changes"
            (c.fields f ++ [(Text.ofString "commits", .int found.length)])
          return found : Attempt σ (List CommitDelta)).run ((c.recentScan f r m recent).run w).2
      | (.error e, w) => (.error (.during "list recent commits" e), w) := by
  rw [recentChanges, run_bind, Attempt.during_run, recentCommits]
  rcases (r.commitsSince (c.now.addDays (-c.config.history.recentDays))).run w with
    ⟨e | recent, w'⟩ <;> rfl

/-- A run goes through its stages, and counts commits last. -/
theorem run_stages (c : Collection σ) (f : Framework) : c.run f =
    c.opening f >>= fun opened => c.prepare f >>= fun r =>
      c.snapshots f r opened.2 opened.1 >>= fun taken =>
        c.recentChanges f r opened.2 >>= fun found => c.counted f (r, taken, found) := by
  simp only [run, opening, counted, bind_assoc, pure_bind]

section Stages

variable (hc : c.Recorded record)
include hc

theorem Recorded.shows (total : ℕ) : Shows record events label total fun done total _ =>
    c.displays.advance label done total := by
  obtain ⟨tell, hdisplays, htell⟩ := hc.displays
  rw [hdisplays]
  exact fun k name => DisplayHook.advance_showing htell

theorem settle_showing (result : α × Option Failure) :
    Leads (Showing record events label total k) (c.settle label result).run fun _ =>
      Told record none (events ++ bar label total k result.2) := by
  obtain ⟨tell, hdisplays, htell⟩ := hc.displays
  rw [settle, hdisplays]
  refine Leads.attempt_bind (M := fun _ => Told record none (events ++ bar label total k result.2))
    (Leads.lift (DisplayHook.finish_showing htell)) fun _ => ?_
  cases result.2 with
  | none => exact fun w hw => hw
  | some e => exact fun w hw => hw

/-- A stage that has been settled may be logged. -/
theorem settle_log_showing (result : α × Option Failure) (message : Text) (fields : α → LogFields) :
    Leads (Showing record events label total k)
      (do
        let a ← c.settle label result
        Attempt.log .info message (fields a)
        return a : Attempt σ α).run
      fun _ => Told record none (events ++ bar label total k result.2) :=
  (settle_showing hc result).attempt_keep fun _ =>
    ((Quiet.log _ _ _).lift.attempt_bind fun _ => .pure _) _ _

theorem prepare_displayed (f : Framework) {w : World σ} (hw : Told record none events w) :
    (∀ r, ((c.prepare f).run w).1 = .ok r → r.Quiet record) ∧
      Told record none (events ++ session (f.name ++ " mirror") none 0 (c.mirrorFailure f w))
        ((c.prepare f).run w).2 := by
  obtain ⟨tell, hdisplays, htell⟩ := hc.displays
  obtain ⟨hquiet, hopened⟩ := hc.openRepository f
  have hfinish : ∀ failure, Leads
      (Told record (some (f.name ++ " mirror")) (events ++ [.opened (f.name ++ " mirror") none]))
      (c.displays.finish (f.name ++ " mirror") failure) fun _ =>
        Told record none (events ++ session (f.name ++ " mirror") none 0 failure) := by
    rw [hdisplays]
    exact fun failure => (DisplayHook.finish_leads htell).weaken fun _ w hw => by
      simpa [session] using hw
  have hmirror : Told record (some (f.name ++ " mirror"))
      (events ++ [.opened (f.name ++ " mirror") none]) (c.mirrorWorld f w) := by
    rw [mirrorWorld, hdisplays]
    exact (Leads.bind (Quiet.log _ _ _ _ _) fun _ => DisplayHook.openOnce_leads htell none) w hw
  have hrepository : Told record _ _ ((c.openRepository f).run (c.mirrorWorld f w)).2 :=
    hquiet _ _ _ hmirror
  have hmade := hopened (c.mirrorWorld f w)
  rw [prepare_run, mirrorFailure]
  generalize (c.openRepository f).run (c.mirrorWorld f w) = opened at hrepository hmade ⊢
  obtain ⟨e | r, w'⟩ := opened
  · exact ⟨fun r hr => (by cases hr), hfinish (some e) w' hrepository⟩
  · exact ⟨hmade, hfinish none w' hrepository⟩

theorem series_showing (f : Framework) (hr : r.Quiet record) (hm : m.Quiet record)
    (anchor : Time) :
    Leads (Told record none events) (c.series f r m anchor) fun _ w =>
      ∃ last ≤ c.sampleCount anchor,
        Showing record events (f.name ++ " snapshots") (c.sampleCount anchor) last w := by
  refine Leads.bind (cacheFor_quiet f _ _) fun cache => ?_
  refine (SeriesPlan.run_showing hr hm (hc.shows _)).weaken fun _ w hw => ?_
  obtain ⟨last, hlast, -, hshowing⟩ := hw
  exact ⟨last, hlast, hshowing⟩

theorem snapshots_displayed (f : Framework) (hr : r.Quiet record) (hm : m.Quiet record)
    (anchor : Time) {w : World σ} (hw : Told record none events w) :
    ∃ k ≤ c.sampleCount anchor, Told record none
      (events ++ bar (f.name ++ " snapshots") (c.sampleCount anchor) k
        ((c.series f r m anchor).run w).1.2) ((c.snapshots f r m anchor).run w).2 := by
  obtain ⟨k, hk, hshowing⟩ := series_showing hc f hr hm anchor w hw
  refine ⟨k, hk, ?_⟩
  rw [snapshots_run]
  exact settle_log_showing hc _ _ _ _ hshowing

theorem recentScan_showing (f : Framework) (hr : r.Quiet record) (hm : m.Quiet record)
    (recent : List Commit) :
    Leads (Told record none events) (c.recentScan f r m recent) fun _ w =>
      ∃ last ≤ recent.length,
        Showing record events (f.name ++ " commits") recent.length last w :=
  Leads.bind (Quiet.log _ _ _ _ _) fun _ => ScanPlan.scan_showing hr hm (hc.shows _) _

theorem recentChanges_displayed (f : Framework) (hr : r.Quiet record) (hm : m.Quiet record)
    {recent : List Commit} {w w' : World σ} (hw : Told record none events w')
    (hlisted : (c.recentCommits r).run w = (.ok recent, w')) :
    ∃ k ≤ recent.length, Told record none
      (events ++ bar (f.name ++ " commits") recent.length k ((c.recentScan f r m recent).run w').1.2)
      ((c.recentChanges f r m).run w).2 := by
  obtain ⟨k, hk, hshowing⟩ := recentScan_showing hc f hr hm recent w' hw
  refine ⟨k, hk, ?_⟩
  rw [recentChanges_run, hlisted]
  exact settle_log_showing hc _ _ _ _ hshowing

theorem opening_displayed (f : Framework) {w : World σ} (hw : Told record none events w) :
    (∀ x, ((c.opening f).run w).1 = .ok x → x.2.Quiet record) ∧
      Told record none events ((c.opening f).run w).2 := by
  obtain ⟨hquiet, hopened⟩ := hc.openMeasurer f
  rw [opening, anchor]
  cases f.start? with
  | none => exact ⟨fun x hx => (by cases hx), hw⟩
  | some anchor =>
    have hmeasurer : Told record none events ((c.openMeasurer f).run w).2 := hquiet _ _ w hw
    have hmade := hopened w
    rw [pure_bind, run_bind, Attempt.during_run]
    generalize (c.openMeasurer f).run w = opened at hmeasurer hmade ⊢
    obtain ⟨e | m, w'⟩ := opened
    · exact ⟨fun x hx => (by cases hx), hmeasurer⟩
    · refine ⟨fun x hx => ?_, hmeasurer⟩
      obtain rfl : (anchor, m) = x := Except.ok.inj hx
      exact hmade m rfl

/-- **The displays of a run are told of its stages one after the other, whatever comes of them.** -/
theorem run_displayed (f : Framework) {w : World σ} (hw : w.display = none) :
    ∃ told, Displayed c f w told ∧
      record ((c.run f).run w).2.outside = record w.outside ++ told ∧
        ((c.run f).run w).2.display = none := by
  suffices h : ∃ told, Displayed c f w told ∧
      Told record none (record w.outside ++ told) ((c.run f).run w).2 from h
  rw [run_stages]
  have hopened := opening_displayed hc f (w := w) ⟨rfl, hw⟩
  rcases hopening : (c.opening f).run w with ⟨e | ⟨anchor, m⟩, w₁⟩ <;> rw [hopening] at hopened
  · refine ⟨[], .early hopening, ?_⟩
    rw [run_bind, hopening, List.append_nil]
    exact hopened.2
  have hm : m.Quiet record := hopened.1 _ rfl
  have hprepared := prepare_displayed hc f hopened.2
  rw [run_bind_ok hopening]
  rcases hprepare : (c.prepare f).run w₁ with ⟨e | r, w₂⟩ <;> rw [hprepare] at hprepared
  · refine ⟨_, .mirror hopening hprepare, ?_⟩
    rw [run_bind, hprepare]
    exact hprepared.2
  have hr : r.Quiet record := hprepared.1 _ rfl
  obtain ⟨k, hk, hsampled⟩ := snapshots_displayed hc f hr hm anchor hprepared.2
  rw [run_bind_ok hprepare]
  rcases hsnapshots : (c.snapshots f r m anchor).run w₂ with ⟨e | taken, w₃⟩ <;>
    rw [hsnapshots] at hsampled
  · refine ⟨_, .snapshots hopening hprepare hsnapshots hk, ?_⟩
    rw [run_bind, hsnapshots, ← List.append_assoc]
    exact hsampled
  -- listing the commits shows nothing
  have hlist : Told record none _ ((c.recentCommits r).run w₃).2 := hr.commitsSince _ _ _ w₃ hsampled
  rw [run_bind_ok hsnapshots]
  rcases hlisted : (c.recentCommits r).run w₃ with ⟨e | recent, w₄⟩ <;> rw [hlisted] at hlist
  · refine ⟨_, .unlisted hopening hprepare hsnapshots hlisted hk, ?_⟩
    rw [run_bind, recentChanges_run, hlisted, ← List.append_assoc]
    exact hlist
  obtain ⟨j, hj, hscanned⟩ := recentChanges_displayed hc f hr hm hlist hlisted
  refine ⟨_, .commits hopening hprepare hsnapshots hlisted hk hj, ?_⟩
  rw [← List.append_assoc, ← List.append_assoc]
  refine Leads.attempt_keep (P := fun w => w = w₃) ?_ (fun found => counted_quiet hr f _ _) w₃ rfl
  rintro _ rfl
  exact hscanned

end Stages

/-! A collection whose work is called off by its own display. -/

/-- A call that always fails. -/
def failing : Attempt (List DisplayEvent) α := throw (.other "out of reach")

/-- A history in which nothing can be reached. -/
def remoteHistory : Repository (List DisplayEvent) where
  head := failing
  resolve _ := failing
  commitsSince _ := failing
  commitsPerYear := failing
  commitsPerMonth := failing
  parent _ := failing
  changedFiles _ _ := failing
  exportFull _ _ := failing
  exportSparse _ _ _ := failing

/-- An analyzer that never gives anything. -/
def idleAnalyzer : Measurer (List DisplayEvent) where
  measureFull _ := failing
  measure _ := return .empty

/-- A display that is recorded, and calls the work off with the second step of a stage. -/
def impatient (event : DisplayEvent) : Action (List DisplayEvent) Unit :=
  modify fun w =>
    { w with
      outside := w.outside ++ [event]
      canceled := match event with
        | .advanced _ 2 => true
        | _ => w.canceled }

def impatientCollection : Collection (List DisplayEvent) where
  config := Config.default
  openMeasurer _ := return idleAnalyzer
  openRepository _ := return remoteHistory
  displays := some impatient
  now := Time.midnight 0 ⟨2024, 2, 15⟩
  runId := "run"

theorem failing_quiet : Quiet id (failing (α := α)).run := .pure _

theorem impatientCollection_recorded : impatientCollection.Recorded id where
  displays := by
    refine ⟨impatient, rfl, fun event shown events w hw => ?_⟩
    exact ⟨congrArg (· ++ [event]) hw.1, hw.2⟩
  openMeasurer _ := by
    refine ⟨.pure _, fun w m hm => ?_⟩
    obtain rfl : idleAnalyzer = m := Except.ok.inj hm
    exact ⟨fun _ => failing_quiet, fun _ => .pure _⟩
  openRepository _ := by
    refine ⟨.pure _, fun w r hr => ?_⟩
    obtain rfl : remoteHistory = r := Except.ok.inj hr
    exact
      { head := failing_quiet
        resolve := fun _ => failing_quiet
        commitsSince := fun _ => failing_quiet
        commitsPerYear := failing_quiet
        commitsPerMonth := failing_quiet
        parent := fun _ => failing_quiet
        changedFiles := fun _ _ => failing_quiet
        exportFull := fun _ _ => failing_quiet
        exportSparse := fun _ _ _ => failing_quiet }

def remoteFramework : Framework :=
  { id := Text.ofString "far", name := "Far", startDate := "2023-01-01" }

/-- The series breaks off before its third sample. -/
def impatientEvents : List DisplayEvent :=
  [.opened "Far mirror" none, .finished "Far mirror" none, .opened "Far snapshots" (some 4),
    .advanced "Far snapshots" 1, .advanced "Far snapshots" 2,
    .finished "Far snapshots" (some .canceled)]

theorem impatient_run :
    ((impatientCollection.run remoteFramework).run { outside := [] }).2.outside =
      impatientEvents := by
  cbv

/-- The displays of the collection are finished all the same. -/
theorem run_displayed_impatient :
    impatientCollection.Recorded id ∧
      (({ outside := [] } : World (List DisplayEvent)).display = none) ∧
        Displayed impatientCollection remoteFramework { outside := [] } impatientEvents := by
  obtain ⟨told, hdisplayed, hrecord, -⟩ :=
    run_displayed impatientCollection_recorded remoteFramework (w := { outside := [] }) rfl
  have htold : told = impatientEvents := hrecord.symm.trans impatient_run
  exact ⟨impatientCollection_recorded, rfl, htold ▸ hdisplayed⟩

end Collection

end MetricHistory
