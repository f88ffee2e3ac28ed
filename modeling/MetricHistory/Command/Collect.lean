import MetricHistory.Analyzer.Program
import MetricHistory.Collection.Run
import MetricHistory.Command.Options
import MetricHistory.Git.Mirror
import MetricHistory.Report.File

/-!
# Collecting on a computer

A framework is collected from its mirror with its analyzer script, and its report is written to
its place.
-/

namespace MetricHistory

namespace Command

/-- The analyzer of a framework as it is configured. -/
def analyzerOf (c : Config) (f : Framework) : AnalyzerProgram :=
  { script := c.paths.analyzerPath f.toFrameworkRecord, interpreter := c.analyzer.binary
    extensions := f.extensions
    delta := { memoryLimit := c.analyzer.deltaMemoryLimit, timeout := c.analyzer.deltaTimeout }
    full := { memoryLimit := c.analyzer.fullMemoryLimit, timeout := c.analyzer.fullTimeout } }

/-- Provides the analyzer of a framework. -/
def openAnalyzer (c : Config) (f : Framework) : Attempt Machine (Measurer Machine) := do
  let a := analyzerOf c f
  let w ← get
  match a.check w.outside.programs w.files with
  | .ok _ => return a.measurer
  | .error e => throw e

/-- Provides the repository of a framework. -/
def openMirror (c : Config) (f : Framework) : Attempt Machine (Repository Machine) := do
  let program := if c.git.binary.isEmpty then Text.ofString "git" else c.git.binary
  return (← Mirror.ensure f.repoUrl (c.paths.mirrorDir f.id) program).repository

/-- A collection from mirrors. -/
def collection (c : Config) (cache : Option Cache) (displays : DisplayHook Machine) (now : Time)
    (runId : Text) : Collection Machine :=
  { config := c, openMeasurer := openAnalyzer c, openRepository := openMirror c, cache, displays
    now, runId }

/-- Collects the report of a framework and writes it to its place. -/
def collectOne (c : Collection Machine) (id : Text) (fields : LogFields) :
    Attempt Machine Unit := do
  let some f := c.config.framework? id | throw (.unknownFramework id)
  Attempt.log .info "Collecting" (fields ++ [(Text.ofString "repo", .text f.repoUrl)])
  let report ← c.run f
  let path := c.config.paths.reportPath id
  Attempt.during "failed to write report" (Attempt.ofTask (report.write path))
  Attempt.log .info "Report written"
    (fields ++ [(Text.ofString "path", .text path),
      (Text.ofString "snapshots", .int report.snapshots.length),
      (Text.ofString "commits", .int report.commits.length),
      (Text.ofString "elapsed", .duration 0)])

/-- Collects a framework and says so in the log when that fails. -/
def collectLogged (c : Collection Machine) (id : Text) : Action Machine (Option Failure) := do
  let fields : LogFields := [(Text.ofString "framework", .text id)]
  match ← (collectOne c id fields).run with
  | .ok _ => return none
  | .error f =>
    Action.log .error "Collection failed" (fields ++ [(Text.ofString "error", .text f.message)])
    return some (.during id f)

/-- Several failures as one. -/
def joined : List Failure → Option Failure
  | [] => none
  | [f] => some f
  | fs => some (.other (Text.join "\n" (fs.map Failure.message)))

/-- Collects frameworks.  Each is attempted whatever becomes of the others. -/
def collectAll (c : Collection Machine) (ids : List Text) : Action Machine (Option Failure) := do
  let failures ← ids.mapM (collectLogged c)
  return joined (failures.filterMap id)

end Command

end MetricHistory
