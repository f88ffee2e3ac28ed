import MetricHistory.FileSystem.Task
import MetricHistory.FileSystem.Tree
import MetricHistory.Log.Entry

/-!
# The world a collection works in

Measuring a framework reads and writes files, asks a repository and an analyzer, writes log
entries, and can be called off at any moment.  `World σ` holds all of it as one value, where `σ`
is whatever the repository and the analyzer remember.

* `Action σ` changes the world and always gives a result.
* `Attempt σ` changes the world and may fail.  What was done before a failure stays done.
-/

namespace MetricHistory

/-- Everything a collection sees and changes. -/
structure World (σ : Type) where
  files : FileSystem := {}
  /-- The work has been called off. -/
  canceled : Bool := false
  /-- The log entries so far, in order. -/
  log : List LogEntry := []
  /-- The label of the progress display that is open. -/
  display : Option Text := none
  /-- The state of the repository and the analyzer. -/
  outside : σ

/-- A step that always gives a result. -/
abbrev Action (σ : Type) := StateM (World σ)

/-- A step that may fail. -/
abbrev Attempt (σ : Type) := ExceptT Failure (StateM (World σ))

/-- The fields that every entry of a logger carries. -/
abbrev LogFields := List (Text × LogValue)

variable {σ α : Type}

namespace Action

/-- Runs an action on files. -/
def onFiles (act : Files α) : Action σ (Except FileError α) := fun w =>
  let (result, files) := act.run w.files
  (result, { w with files := files })

/-- The work has been called off. -/
def isCanceled : Action σ Bool := return (← get).canceled

/-- Adds an entry to the log. -/
def log (level : LogLevel) (message : Text) (fields : LogFields) : Action σ Unit :=
  modify fun w =>
    { w with log := w.log ++ [{ level, message, fields, time := w.files.clock }] }

/-- Removes a scratch directory; it is only worth a warning when that fails. -/
def discard (dir : Text) (fields : LogFields) (warning : Text) : Action σ Unit := do
  match ← onFiles (Files.removeAll dir) with
  | .ok _ => return
  | .error e => log .warn warning (fields ++ [(Text.ofString "error", .text e.message)])

end Action

namespace Attempt

/-- Runs an action on files. -/
def onFiles (act : Files α) : Attempt σ α := fun w =>
  match act.run w.files with
  | (.ok a, files) => (.ok a, { w with files := files })
  | (.error e, files) => (.error (.file e), { w with files := files })

/-- Runs a task on files. -/
def ofTask (task : FileTask α) : Attempt σ α := fun w =>
  let (result, files) := task.run w.files
  (result, { w with files := files })

/-- Adds an entry to the log. -/
def log (level : LogLevel) (message : Text) (fields : LogFields) : Attempt σ Unit :=
  ExceptT.lift (Action.log level message fields)

/-- Fails when the work has been called off. -/
def checkpoint : Attempt σ Unit := do
  if (← get).canceled then throw .canceled

/-- Says what was being done when an attempt fails. -/
def during (context : Text) (act : Attempt σ α) : Attempt σ α := fun w =>
  match act.run w with
  | (.ok a, w) => (.ok a, w)
  | (.error f, w) => (.error (.during context f), w)

end Attempt

end MetricHistory
