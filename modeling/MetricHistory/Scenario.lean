import MetricHistory.Collection.Display
import MetricHistory.Commit.Scan
import MetricHistory.Repository

/-!
# Scenarios

A scenario is a history and an analyzer whose answers are laid down beforehand.  It shows what a
plan does with given answers without any repository, and records the questions that were asked and
the progress that was reported.

* `Scenario` holds the answers, `Rehearsal` also what was recorded.
* `Rehearsal.repository` and `Rehearsal.measurer` answer from the scenario.
* `Rehearsal.reports` and `Rehearsal.displays` record progress and call the work off in time.
-/

namespace MetricHistory

/-- The answer to a full export: a failure, or the tree that is written. -/
structure ScenarioExport where
  error : Text := []
  /-- Writes the tree below a directory. -/
  write : Text → FileSystem → FileSystem

/-- The answers about a change. -/
structure ScenarioChange where
  parent : Text := []
  parentError : Text := []
  changed : List Text := []
  changedError : Text := []
  exportError : Text := []

/-- What measuring a tree gives. -/
structure ScenarioMeasure where
  output : Text := []
  error : Text := []
  empty : Bool := false

/-- The answers of a history and an analyzer.  An error is given instead of the answer unless it
is empty. -/
structure Scenario where
  /-- Days with the commit that is newest from then on, in order. -/
  history : List (Text × Text) := []
  resolveErrors : List (Text × Text) := []
  head : Text := []
  headError : Text := []
  log : List Commit := []
  logError : Text := []
  perYear : List YearCount := []
  yearError : Text := []
  perMonth : List MonthCount := []
  monthError : Text := []
  exports : List (Text × ScenarioExport) := []
  changes : List (Text × ScenarioChange) := []
  measures : List (Text × ScenarioMeasure) := []
  /-- The directory that a tree holds when nothing else is said of it. -/
  subdir : Text := []
  /-- Opening the repository fails. -/
  repositoryError : Text := []
  /-- Providing the analyzer fails. -/
  measurerError : Text := []
  /-- The work is called off after so many steps of progress. -/
  cancelAfter : Option Nat := none

/-- What a plan lets see of its progress. -/
inductive ScenarioEvent where
  | report (done total : Nat) (label : Text)
  | display (event : DisplayEvent)

/-- The event is a step of progress. -/
def ScenarioEvent.isStep : ScenarioEvent → Bool
  | report .. => true
  | display (.advanced ..) => true
  | display _ => false

/-- A scenario with what was asked, exported and reported so far. -/
structure Rehearsal where
  scenario : Scenario := {}
  calls : List Text := []
  /-- The exported directories with the commits they hold, newest first. -/
  exported : List (Text × Text) := []
  events : List ScenarioEvent := []

namespace Rehearsal

/-- The world at the start of a rehearsal, with the files that another one left. -/
def begin (s : Scenario) (files : FileSystem) : World Rehearsal :=
  { files, canceled := s.cancelAfter == some 0, outside := { scenario := s } }

/-- Records an event, and calls the work off when it is time to. -/
def record (e : ScenarioEvent) : Action Rehearsal Unit :=
  modify fun w =>
    let events := w.outside.events ++ [e]
    let due := e.isStep && w.outside.scenario.cancelAfter == some (events.countP (·.isStep))
    { w with canceled := w.canceled || due, outside := { w.outside with events := events } }

/-- Records the reports of a plan. -/
def reports : ProgressHook Rehearsal := fun done total label => record (.report done total label)

/-- Records the displays of a collection. -/
def displays : DisplayHook Rehearsal := some fun e => record (.display e)

/-- Records a question and gives the scenario that answers it. -/
def ask (question : Text) : Attempt Rehearsal Scenario := do
  modify fun w => { w with outside := { w.outside with calls := w.outside.calls ++ [question] } }
  return (← get).outside.scenario

/-- Fails with an error unless it is empty. -/
def failUnlessEmpty (error : Text) : Attempt Rehearsal Unit :=
  if error.isEmpty then pure () else throw (.other error)

/-- Empties a directory for the files of a commit. -/
def beginExport (hash dest : Text) : Attempt Rehearsal Unit := do
  Attempt.onFiles (Files.resetDir dest)
  modify fun w =>
    { w with outside := { w.outside with exported := (dest, hash) :: w.outside.exported } }

/-- Several words in brackets. -/
def bracketed (words : List Text) : Text := "[" ++ Text.join " " words ++ "]"

/-- The history of a scenario. -/
def repository : Repository Rehearsal where
  head := do
    let s ← ask "head"
    failUnlessEmpty s.headError
    return s.head
  resolve date := do
    let day := date.date.iso
    let s ← ask ("resolve " ++ day)
    match s.resolveErrors.lookup day with
    | some e => throw (.other e)
    | none =>
      match (s.history.filter fun (d, _) => Text.le d day).getLast? with
      | some (_, hash) => return hash
      | none => throw .noCommit
  commitsSince since := do
    let s ← ask ("list_since " ++ since.rfc3339 false)
    failUnlessEmpty s.logError
    return s.log
  commitsPerYear := do
    let s ← ask "per_year"
    failUnlessEmpty s.yearError
    return s.perYear
  commitsPerMonth := do
    let s ← ask "per_month"
    failUnlessEmpty s.monthError
    return s.perMonth
  parent hash := do
    let s ← ask ("parent " ++ hash)
    let change := (s.changes.lookup hash).getD {}
    failUnlessEmpty change.parentError
    if change.parent.isEmpty then throw .noParent
    return change.parent
  changedFiles hash extensions := do
    let s ← ask ("changed " ++ hash ++ " " ++ bracketed extensions)
    let change := (s.changes.lookup hash).getD {}
    failUnlessEmpty change.changedError
    return change.changed
  exportFull hash dest := do
    let s ← ask ("export_full " ++ hash ++ " " ++ dest)
    match s.exports.lookup hash with
    | some e =>
      failUnlessEmpty e.error
      beginExport hash dest
      modify fun w => { w with files := e.write dest w.files }
    | none =>
      beginExport hash dest
      Attempt.onFiles (Files.makeDirs (Path.join [dest, s.subdir]))
  exportSparse hash paths dest := do
    let s ← ask ("export_sparse " ++ hash ++ " " ++ bracketed paths ++ " " ++ dest)
    failUnlessEmpty ((s.changes.lookup hash).getD {}).exportError
    beginExport hash dest
    return paths.length

/-- What a measurement gives when nothing else is said of it. -/
def emptyOutput : Text := "\x7b\"production\":\x7b\"loc\":0\x7d\x7d"

/-- The answer for the tree that a directory belongs to. -/
def answerFor (r : Rehearsal) (dir : Text) : ScenarioMeasure :=
  let inside := r.exported.find? fun (dest, _) => dest == dir || dir.startsWith (dest ++ "/")
  (inside.bind fun (_, hash) => r.scenario.measures.lookup hash).getD {}

/-- What measuring a directory gives. -/
def document (dir : Text) : Attempt Rehearsal Document := do
  let m := (← get).outside.answerFor dir
  if m.empty then throw .noSources
  if !m.error.isEmpty then throw (.analyzerFailed m.error)
  match Document.parse (if m.output.isEmpty then emptyOutput else m.output) with
  | .ok d => return d
  | .error e => throw (.malformedOutput e)

/-- The analyzer of a scenario. -/
def measurer : Measurer Rehearsal where
  measureFull dir := do
    let _ ← ask ("measure_full " ++ dir)
    document dir
  measure dir := fun w =>
    let act : Attempt Rehearsal Document := do
      let _ ← ask ("measure " ++ dir)
      document dir
    let (result, w) := act.run w
    (Measurement.ofAnalysis result, w)

/-- Opens the history of a scenario. -/
def openRepository : Attempt Rehearsal (Repository Rehearsal) := do
  failUnlessEmpty (← ask "open_repo").repositoryError
  return repository

/-- Provides the analyzer of a scenario. -/
def openMeasurer : Attempt Rehearsal (Measurer Rehearsal) := do
  failUnlessEmpty (← ask "new_measurer").measurerError
  return measurer

end Rehearsal

end MetricHistory
