import MetricHistory.Collection.Display
import MetricHistory.Report.Basic
import MetricHistory.Snapshot.Series

/-!
# Collecting a report

The report of a framework: its snapshots over time, the recent commits that moved a metric, and
the numbers of commits per year and month.

`Collection.run` prepares the analyzer and the repository, then measures.  It fails when either
cannot be had, when the history cannot be listed, or when the work is called off; a sample or a
commit that cannot be measured is left out of the report.
-/

namespace MetricHistory

/-- What is needed to collect reports. -/
structure Collection (σ : Type) where
  config : Config
  /-- Provides the analyzer of a framework. -/
  openMeasurer : Framework → Attempt σ (Measurer σ)
  /-- Provides the repository of a framework. -/
  openRepository : Framework → Attempt σ (Repository σ)
  cache : Option Cache := none
  displays : DisplayHook σ := none
  now : Time
  runId : Text

namespace Collection

variable {σ α : Type} (c : Collection σ)

/-- The fields of all log entries of a run. -/
def fields (f : Framework) : LogFields :=
  [(Text.ofString "framework", .text f.id), (Text.ofString "run_id", .text c.runId)]

/-- The moment the measured history of a framework starts. -/
def anchor (f : Framework) : Attempt σ Time :=
  match f.start? with
  | some t => pure t
  | none => throw (.other ("invalid start_date " ++ f.startDate.quoted))

/-- Opens the repository under a display that shows no steps. -/
def prepare (f : Framework) : Attempt σ (Repository σ) := do
  Attempt.log .info "Preparing repository"
    (c.fields f ++ [(Text.ofString "path", .text (c.config.paths.mirrorDir f.id))])
  let label := f.name ++ " mirror"
  c.displays.openOnce label none
  let opened : Except Failure (Repository σ) ← (c.openRepository f).run
  match opened with
  | .ok r =>
    c.displays.finish label none
    return r
  | .error e =>
    c.displays.finish label (some e)
    throw (.during ("repository for " ++ f.id) e)

/-- The cache to use with the fingerprint of the analyzer. -/
def cacheFor (f : Framework) : Action σ (Option (Cache × Text)) := do
  match c.cache with
  | none => return none
  | some cache =>
    if !cache.enabled then return none
    match ← Action.onFiles (Cache.fingerprint (c.config.paths.analyzerPath f.toFrameworkRecord)) with
    | .ok fingerprint => return some (cache, fingerprint)
    | .error e =>
      Action.log .debug "Snapshot cache disabled: analyzer script not hashable"
        (c.fields f ++ [(Text.ofString "error", .text e.message)])
      return none

/-- The result of a stage, with its display finished. -/
def settle (label : Text) (result : α × Option Failure) : Attempt σ α := do
  c.displays.finish label result.2
  match result.2 with
  | none => return result.1
  | some e => throw e

/-- Measures the framework over time. -/
def snapshots (f : Framework) (r : Repository σ) (m : Measurer σ) (anchor : Time) :
    Attempt σ (List Snapshot) := do
  let cache ← c.cacheFor f
  let label := f.name ++ " snapshots"
  let plan : SeriesPlan σ :=
    { framework := f.id, repository := r, measurer := m, anchor, subdir := f.coreSubdir
      workDir := Path.join [c.config.paths.workDir f.id, "work"]
      interval := Schedule.interval c.config.history.intervalMonths
      now := c.now, cache, fields := c.fields f }
  let taken ← c.settle label (← plan.run fun done total _ => c.displays.advance label done total)
  Attempt.log .info "Snapshot series complete"
    (c.fields f ++ [(Text.ofString "snapshots", .int taken.length)])
  return taken

/-- Measures the recent commits. -/
def recentChanges (f : Framework) (r : Repository σ) (m : Measurer σ) :
    Attempt σ (List CommitDelta) := do
  let history := c.config.history
  let recent ← Attempt.during "list recent commits"
    (r.commitsSince (c.now.addDays (-history.recentDays)))
  Attempt.log .info "Analyzing recent commits"
    (c.fields f ++ [(Text.ofString "candidates", .int recent.length),
      (Text.ofString "target", .int history.targetCommits)])
  let label := f.name ++ " commits"
  let plan : ScanPlan σ :=
    { repository := r, measurer := m, extensions := f.extensions
      workDir := Path.join [c.config.paths.workDir f.id, "commit_work"], fields := c.fields f }
  let found ← c.settle label
    (← plan.scan history.targetCommits
      (fun done total _ => c.displays.advance label done total) recent)
  Attempt.log .info "Found commits with metric changes"
    (c.fields f ++ [(Text.ofString "commits", .int found.length)])
  return found

/-- Collects the report of a framework. -/
def run (f : Framework) : Attempt σ Report := do
  let anchor ← anchor f
  let measurer ← Attempt.during ("analyzer for " ++ f.id) (c.openMeasurer f)
  let repository ← c.prepare f
  let snapshots ← c.snapshots f repository measurer anchor
  let commits ← c.recentChanges f repository measurer
  let perYear ← Attempt.during "count commits per year" repository.commitsPerYear
  let perMonth ← Attempt.during "count commits per month" repository.commitsPerMonth
  return {
    framework := f.id, generated := c.now, commitsMonthly := perMonth, snapshots, commits
    commitsPerYear := perYear }

end Collection

end MetricHistory
