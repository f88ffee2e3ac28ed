import MetricHistory.Cache
import MetricHistory.Commit.Scan
import MetricHistory.Snapshot.Basic
import MetricHistory.Snapshot.Schedule

/-!
# The series of snapshots

A framework is measured as it was at every scheduled date and as it is now.

* `SeriesPlan.sample` measures one commit, or finds its measurement in the cache.
* `SeriesPlan.run` goes through the schedule.  Dates that cannot be measured are left out, and
  the present is measured unless the last date carries its label already.
-/

namespace MetricHistory

/-- What is needed to measure a framework over time, and the scratch directory to do it in. -/
structure SeriesPlan (σ : Type) where
  framework : Text
  repository : Repository σ
  measurer : Measurer σ
  anchor : Time
  subdir : Text
  workDir : Text
  /-- The months between two dates. -/
  interval : Int := Schedule.defaultInterval
  now : Time
  /-- The cache with the fingerprint of the analyzer. -/
  cache : Option (Cache × Text) := none
  fields : LogFields := []

/-- The label of the month that a moment lies in. -/
def Snapshot.label (t : Time) : Text := t.date.yearMonth

namespace SeriesPlan

variable {σ : Type} (p : SeriesPlan σ)

/-- The key under which the measurement of a commit is kept. -/
def cacheKey (hash : Text) : Text := Cache.keyOf [p.framework, hash, p.subdir]

/-- The measurement that is kept under a key. -/
def cached (key : Text) : Action σ (Option Snapshot) := do
  match p.cache with
  | none => return none
  | some (c, fingerprint) =>
    let found ← modifyGet fun w =>
      let (found, files) := (c.get key fingerprint).run w.files
      (found, { w with files := files })
    return found.bind Snapshot.parse?

/-- Keeps a measurement under a key. -/
def store (key : Text) (s : Snapshot) (fields : LogFields) : Action σ Unit := do
  match p.cache with
  | none => return
  | some (c, fingerprint) =>
    let result : Except Failure Unit ← modifyGet fun w =>
      match s.encode? with
      | none => (.error (.other "snapshot cannot be encoded"), w)
      | some data =>
        let (result, files) := (c.set key fingerprint data).run w.files
        (result, { w with files := files })
    match result with
    | .ok _ => return
    | .error f => Action.log .debug "Failed to cache snapshot" (fields ++ [ScanPlan.errorField f])

/-- Exports and measures a commit. -/
def measure (label hash : Text) (fields : LogFields) : Action σ (Option Snapshot) := do
  Action.log .info "Analyzing snapshot" fields
  match ← (p.repository.exportFull hash p.workDir).run with
  | .error f =>
    Action.log .warn "Export failed, skipping" (fields ++ [ScanPlan.errorField f])
    return none
  | .ok _ =>
    let dir := Path.join [p.workDir, p.subdir]
    if !(← get).files.isDir dir then
      Action.log .warn "Analyzable subdirectory missing, skipping"
        (fields ++ [(Text.ofString "subdir", .text p.subdir)])
      return none
    match ← (p.measurer.measureFull dir).run with
    | .error f =>
      Action.log .warn "Analysis failed, skipping" (fields ++ [ScanPlan.errorField f])
      return none
    | .ok d => return some (Snapshot.ofDocument label hash d)

/-- The snapshot of a commit under a label, if it can be had. -/
def sample (label hash : Text) : Action σ (Option Snapshot) := do
  let short := shortHash Snapshot.hashLength hash
  let fields := p.fields ++
    [(Text.ofString "period", .text label), (Text.ofString "commit", .text short)]
  let key := p.cacheKey hash
  match ← p.cached key with
  | some s =>
    Action.log .debug "Using cached snapshot" fields
    return some { s with date := label, commit := short }
  | none =>
    let measured? ← p.measure label hash fields
    match measured? with
    | some s => p.store key s fields
    | none => pure ()
    return measured?

/-- The snapshot of the newest commit up to a date, if it can be had. -/
def sampleAt (date : Time) : Action σ (Option Snapshot) := do
  let label := Snapshot.label date
  let period : Text × LogValue := (Text.ofString "period", .text label)
  match ← (p.repository.resolve date).run with
  | .ok hash => p.sample label hash
  | .error f =>
    if f.isNoCommit then Action.log .warn "No commit found" (p.fields ++ [period])
    else
      Action.log .warn "Failed to resolve commit" (p.fields ++ [period, ScanPlan.errorField f])
    return none

/-- The snapshot of the present, if it can be had. -/
def sampleHead : Action σ (Option Snapshot) := do
  match ← p.repository.head.run with
  | .ok hash => p.sample (Snapshot.label p.now) hash
  | .error f =>
    Action.log .warn "Failed to resolve HEAD" (p.fields ++ [ScanPlan.errorField f])
    return none

/-- Goes through the dates that are left, with the snapshots so far. -/
def runDates (total : Nat) (hook : ProgressHook σ) :
    Nat → List Snapshot → List Time → Action σ (List Snapshot × Option Failure)
  | _, taken, [] => return (taken, none)
  | done, taken, date :: rest => do
    if ← Action.isCanceled then return (taken, some .canceled)
    let sample? ← p.sampleAt date
    hook (done + 1) total (Snapshot.label date)
    runDates total hook (done + 1) (taken ++ sample?.toList) rest

/-- The present has to be measured: no snapshot carries its label. -/
def headIsDue (taken : List Snapshot) : Bool :=
  match taken.getLast? with
  | none => true
  | some s => s.date != Snapshot.label p.now

/-- Adds the snapshot of the present if it is due. -/
def runHead (total : Nat) (hook : ProgressHook σ) (taken : List Snapshot) :
    Action σ (List Snapshot × Option Failure) := do
  let head? ← if p.headIsDue taken then p.sampleHead else pure none
  hook total total (Snapshot.label p.now)
  let canceled ← Action.isCanceled
  return (taken ++ head?.toList, if canceled then some .canceled else none)

/-- The dates to measure. -/
def dates : List Time := Schedule.dates p.anchor p.now p.interval

/-- The snapshots in the order of their labels, and the reason if the run broke off.  The
scratch directory is gone afterwards. -/
def run (hook : ProgressHook σ) : Action σ (List Snapshot × Option Failure) := do
  let dates := p.dates
  let total := dates.length + 1
  Action.log .info "Analyzing scheduled snapshots"
    (p.fields ++ [(Text.ofString "samples", .int dates.length)])
  let result ← match ← p.runDates total hook 0 [] dates with
    | (taken, none) => p.runHead total hook taken
    | broken => pure broken
  Action.discard p.workDir p.fields "Failed to remove snapshot scratch directory"
  return result

end SeriesPlan

end MetricHistory
