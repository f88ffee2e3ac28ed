import MetricHistory.World

/-!
# Programs

What the outside world answers when a program is started.

* `Programs` is what a computer knows of programs, and those it has started.
* `Programs.lookUp` finds out before a program is needed whether it can be started, and
  `Programs.obstacle?` says why it cannot when it is.
-/

namespace MetricHistory

/-- How a program ends. -/
inductive ProgramEnd where
  | exited (status : Nat)
  | signaled (name : Text)
  /-- It does not end in time. -/
  | unfinished

/-- What a program does. -/
structure ProgramOutcome where
  output : Text := []
  errors : Text := []
  ending : ProgramEnd := .exited 0

/-- What a computer knows of programs. -/
structure Programs where
  /-- The programs that are found by their name alone. -/
  named : List Text := []
  /-- What a program does with its arguments. -/
  behavior : Text → List Text → FileSystem → ProgramOutcome := fun _ _ _ => {}
  /-- The programs that were started so far, with their arguments. -/
  started : List (Text × List Text) := []

namespace Programs

/-- A program is given by its path if its name holds a slash. -/
def isPath (program : Text) : Bool := program.contains Path.slash

/-- What is said of a program that is not found by its name. -/
def notFound (program : Text) : Text :=
  "exec: " ++ program.quoted ++ ": executable file not found in $PATH"

/-- What is said of a program that may not be run. -/
def denied : Text := "permission denied"

/-- The failure to expect when a program is started, found out beforehand. -/
def lookUp (ps : Programs) (fs : FileSystem) (program : Text) : Except Failure Unit :=
  let context := "exec: " ++ program.quoted
  if !isPath program then
    if ps.named.contains program then .ok () else .error (.other (notFound program))
  else
    match fs.find true program with
    | .error e => .error (.during context (.file ⟨"stat", [program], e⟩))
    | .ok (_, .file mode _ _) =>
      if mode &&& 0o111 = 0 then .error (.during context (.other denied)) else .ok ()
    | .ok _ => .error (.during context (.other Errno.isDirectory.text))

/-- The reason for which a program cannot be started. -/
def obstacle? (ps : Programs) (fs : FileSystem) (program : Text) : Option Text :=
  let refused (reason : Text) : Option Text := some ("fork/exec " ++ program ++ ": " ++ reason)
  if !isPath program then
    if ps.named.contains program then none else some (notFound program)
  else
    match fs.find true program with
    | .error e => refused e.text
    | .ok (_, .file mode _ _) => if mode &&& 0o111 = 0 then refused denied else none
    | .ok _ => refused denied

end Programs

end MetricHistory
