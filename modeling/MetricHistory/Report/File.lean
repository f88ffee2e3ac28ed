import MetricHistory.FileSystem.Task
import MetricHistory.Report.Basic

/-!
# Report files

A report is written to a file of its own next to the place it belongs to, and moved there when
it is complete.  So a report file is only ever replaced by a complete one.
-/

namespace MetricHistory

namespace Report

/-- Removes a file that is of no use any more. -/
def dropTemp (path : Text) : FileTask Unit := fun fs =>
  let (_, fs) := (Files.remove path).run fs
  (.ok (), fs)

/-- The beginning of the name of the file that a report is written to first. -/
def tempFront (path : Text) : Text := "." ++ Path.base path ++ "."

/-- Writes a report to a file that is there, and moves it into place. -/
def fillAndMove (path temp : Text) (r : Report) : FileTask Unit := do
  match r.encode? with
  | none => throw (.other "encode report")
  | some content =>
    FileTask.during "write report" (FileTask.ofFiles do
      Files.write temp content 0o600
      Files.rename temp path)

/-- Writes a report to a path, with the directories it lies in.  When that fails, whatever was
at the path stays as it was. -/
def write (path : Text) (r : Report) : FileTask Unit := do
  let dir := Path.dir path
  FileTask.during "create report directory" (FileTask.ofFiles (Files.makeDirs dir))
  let temp ← FileTask.during "create report"
    (FileTask.ofFiles (Files.createTemp dir (tempFront path)))
  tryCatch (fillAndMove path temp r) fun f => do
    dropTemp temp
    throw f

/-- Reads the report at a path. -/
def read (path : Text) : FileTask Report := do
  let content ← FileTask.ofFiles (Files.read path)
  match parse? content with
  | none => throw (.other ("parse report " ++ path))
  | some r => return r

end Report

end MetricHistory
