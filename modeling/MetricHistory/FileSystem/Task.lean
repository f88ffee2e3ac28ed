import MetricHistory.Failure
import MetricHistory.FileSystem.Operations

/-!
# Tasks on files

A task works on files only, and may fail for any reason.
-/

namespace MetricHistory

/-- A step that changes files and may fail. -/
abbrev FileTask := ExceptT Failure (StateM FileSystem)

namespace FileTask

variable {α : Type}

/-- An action on files as a task. -/
def ofFiles (act : Files α) : FileTask α := fun fs =>
  match act.run fs with
  | (.ok a, fs) => (.ok a, fs)
  | (.error e, fs) => (.error (.file e), fs)

/-- Says what was being done when a task fails. -/
def during (context : Text) (task : FileTask α) : FileTask α := fun fs =>
  match task.run fs with
  | (.ok a, fs) => (.ok a, fs)
  | (.error f, fs) => (.error (.during context f), fs)

end FileTask

end MetricHistory
