import MetricHistory.Machine
import MetricHistory.Repository
import MetricHistory.Text.Blank
import MetricHistory.Text.Cut

/-!
# The analyzer program

The analyzer is a script, run by an interpreter or by itself, with a limit of memory and time
for each scale of measurement.  It writes a document; anything else is a failure.
-/

namespace MetricHistory

/-- The limits of one scale of measurement. -/
structure Profile where
  memoryLimit : Text
  timeout : Duration
deriving DecidableEq, Repr

/-- The limits for the files of a change. -/
def Profile.delta : Profile := { memoryLimit := Text.ofString "512M", timeout := 60 * Duration.second }

/-- The limits for a full tree. -/
def Profile.full : Profile := { memoryLimit := Text.ofString "2G", timeout := 600 * Duration.second }

/-- An analyzer script.  Without an interpreter it runs by itself. -/
structure AnalyzerProgram where
  script : Text
  interpreter : Text := Text.ofString "php"
  extensions : List Text
  delta : Profile := .delta
  full : Profile := .full

namespace AnalyzerProgram

variable (a : AnalyzerProgram)

/-- Checks that the script is there and its interpreter can be run. -/
def check (programs : Programs) (fs : FileSystem) : Except Failure Unit :=
  match fs.find true a.script with
  | .error e => .error (.during "analyzer script" (.file ⟨"stat", [a.script], e⟩))
  | .ok _ =>
    if a.interpreter.isEmpty then .ok ()
    else (programs.lookUp fs a.interpreter).mapError (.during "analyzer interpreter")

/-- The program and the arguments that measure a directory. -/
def commandLine (p : Profile) (dir : Text) : Text × List Text :=
  if a.interpreter.isEmpty then (a.script, [dir])
  else
    let memory :=
      if p.memoryLimit.isEmpty then []
      else [Text.ofString "-d", "memory_limit=" ++ p.memoryLimit]
    (a.interpreter, memory ++ [a.script, dir])

/-- The number of characters of an error output that a failure keeps. -/
def snippetLength : Nat := 200

/-- The part of an error output that a failure keeps. -/
def snippet (errors : Text) : Text := (Text.trim errors).truncate snippetLength

/-- The failure of a program for a reason. -/
def failed (reason errors : Text) : Failure :=
  .analyzerFailed (reason ++ ": " ++ snippet errors)

/-- The failure of a program that was stopped. -/
def stopped (cause : Failure) (p : Profile) : Failure :=
  .analyzerFailed (cause.message ++ " after " ++ p.timeout.render)

/-- What the outcome of a program says. -/
def judge (p : Profile) (o : ProgramOutcome) : Except Failure Document :=
  match o.ending with
  | .unfinished => .error (stopped .deadlineExceeded p)
  | .signaled name => .error (failed ("signal: " ++ name) o.errors)
  | .exited 0 => (Document.parse o.output).mapError .malformedOutput
  | .exited n => .error (failed ("exit status " ++ Text.ofNat n) o.errors)

/-- Runs the program on a directory with sources. -/
def launch (p : Profile) (dir : Text) (programs : Programs) (canceled : Bool) (fs : FileSystem) :
    Except Failure Document × Programs :=
  let (program, arguments) := a.commandLine p dir
  if canceled then (.error (stopped .canceled p), programs)
  else if p.timeout ≤ 0 then (.error (stopped .deadlineExceeded p), programs)
  else
    match programs.obstacle? fs program with
    | some reason => (.error (failed reason []), programs)
    | none =>
      (judge p (programs.behavior program arguments fs),
        { programs with started := programs.started ++ [(program, arguments)] })

/-- Measures a directory.  Without sources nothing is started. -/
def analyze (p : Profile) (dir : Text) (programs : Programs) (canceled : Bool) (fs : FileSystem) :
    Except Failure Document × Programs :=
  match ((hasSources dir a.extensions).run fs).1 with
  | .error e => (.error (.file e), programs)
  | .ok false => (.error .noSources, programs)
  | .ok true => a.launch p dir programs canceled fs

/-- Measures a directory on a computer. -/
def analyzeOn (p : Profile) (dir : Text) : Attempt Machine Document := fun w =>
  let (result, programs) := a.analyze p dir w.outside.programs w.canceled w.files
  (result, { w with outside := { w.outside with programs := programs } })

/-- The analyzer as a collection uses it. -/
def measurer : Measurer Machine where
  measureFull dir := a.analyzeOn a.full dir
  measure dir := fun w =>
    let (result, w) := (a.analyzeOn a.delta dir).run w
    (Measurement.ofAnalysis result, w)

end AnalyzerProgram

end MetricHistory
