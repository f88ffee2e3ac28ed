import MetricHistory.Command.Actions

/-!
# The command line

`Command.run` reads the arguments and does what they ask for.  Without a command it collects.
-/

namespace MetricHistory

namespace Command

/-- A flag that takes a text. -/
def textFlag (name : String) (alias? : Option String) (start : String) : Flag :=
  { name := Text.ofString name, alias? := alias?.map Text.ofString, kind := .text
    start := [Text.ofString start] }

/-- A flag that takes a number. -/
def numberFlag (name : String) (alias? : Option String) (start : String) : Flag :=
  { textFlag name alias? start with kind := .number }

/-- A flag that is on or off. -/
def switchFlag (name : String) (alias? : Option String) : Flag :=
  { textFlag name alias? "false" with kind := .switch }

/-- The flag that asks for help, which every command knows. -/
def helpFlag : Flag := switchFlag "help" (some "h")

/-- The flags of a collection. -/
def collectFlags : List Flag :=
  [textFlag "framework" (some "f") "drupal", textFlag "project-dir" none "",
   numberFlag "target-count" none "0", numberFlag "recent-days" none "0",
   numberFlag "parallel" (some "p") "1", switchFlag "no-cache" none, switchFlag "no-progress" none]

/-- The flags in front of a command. -/
def rootFlags : List Flag :=
  [textFlag "config" (some "c") "",
   { textFlag "env-file" none ".env" with kind := .texts },
   switchFlag "verbose" none, textFlag "log-format" none "text"] ++ collectFlags ++
  [switchFlag "version" (some "v")]

/-- The flags of commands that print a block. -/
def outputFlags : List Flag :=
  [textFlag "format" (some "f") "text", textFlag "output" (some "o") ""]

/-- A command: its name, its flags and what it does. -/
structure Entry where
  name : Text
  flags : List Flag := []
  action : FlagScope → List Text → ShellTask Unit

/-- The flags of `init`. -/
def initFlags : List Flag :=
  [textFlag "output" (some "o") "coremetrics.toml", switchFlag "force" none]

/-- The flags of `cache clear`. -/
def clearFlags : List Flag :=
  [textFlag "framework" (some "f") "",
   { name := Text.ofString "commit", kind := .texts }]

/-- What is printed when the flags cannot be read. -/
def usageError (f : Failure) : Text := "Incorrect Usage: " ++ f.message ++ "\n\n"

/-- Runs a command on its arguments.  When help is asked for, nothing is done. -/
def Entry.run (e : Entry) (scope : FlagScope) (arguments : List Text) : ShellTask Unit := do
  match FlagValues.parse (e.flags ++ [helpFlag]) arguments with
  | .error f =>
    ShellTask.print (usageError f)
    throw f
  | .ok (own, rest) => if own.isOn "help" then return else e.action (own :: scope) rest

/-- Runs the command that the first argument names; without one nothing is done. -/
def dispatch (entries : List Entry) (scope : FlagScope) (arguments : List Text) :
    ShellTask Unit := do
  match arguments with
  | [] => return
  | word :: rest =>
    match entries.find? fun e => e.name == word with
    | some e => e.run scope rest
    | none => return

/-- The commands that look after the configuration. -/
def configEntries : List Entry :=
  [{ name := Text.ofString "validate", action := fun flags _ => validateConfig flags },
   { name := Text.ofString "show", action := fun flags _ => showConfig flags }]

/-- The commands that look after the cache. -/
def cacheEntries : List Entry :=
  [{ name := Text.ofString "stats", action := fun flags _ => cacheStats flags },
   { name := Text.ofString "clear", flags := clearFlags, action := fun flags _ => cacheClear flags }]

/-- The commands. -/
def entries : List Entry :=
  [{ name := Text.ofString "collect", flags := collectFlags, action := fun flags _ => collect flags },
   { name := Text.ofString "frameworks", flags := outputFlags
     action := fun flags _ => frameworks flags },
   { name := Text.ofString "summary", flags := outputFlags, action := summary },
   { name := Text.ofString "init", flags := initFlags
     action := fun flags _ => writeInitialConfig flags },
   { name := Text.ofString "config", action := dispatch configEntries },
   { name := Text.ofString "cache", action := dispatch cacheEntries }]

/-- Loads the environment files that are asked for. -/
def loadEnvironment (flags : FlagScope) : ShellTask Unit := do
  let s ← get
  let environment ← ShellTask.onFiles (s.environment.load (flags.texts "env-file"))
  modify fun s => { s with environment := environment }

/-- Does what the arguments after the program's name ask for. -/
def run (arguments : List Text) : ShellTask Unit := do
  match FlagValues.parse (rootFlags ++ [helpFlag]) arguments with
  | .error f =>
    ShellTask.print (usageError f)
    throw f
  | .ok (root, rest) =>
    if root.isOn "help" then return
    else if root.isOn "version" then ShellTask.print "coremetrics version dev\n"
    else
      loadEnvironment [root]
      match rest with
      | [] => collect [root]
      | word :: arguments =>
        match entries.find? fun e => e.name == word with
        | some e => e.run [root] arguments
        | none => collect [root]

/-- What one run of the command line gives: what it prints, what it logs, and its failure. -/
structure Transcript where
  output : Text
  errors : Text
  failure : Option Failure

/-- Runs the command line. -/
def Shell.execute (s : Shell) (arguments : List Text) : Transcript × Shell :=
  let fresh := { s with output := [], logging := {}, world := { s.world with log := [] } }
  let (result, after) := (run arguments).run fresh
  ({ output := after.output
     errors := after.world.log.flatMap after.logging.write
     failure := match result with
       | .ok _ => none
       | .error f => some f }, after)

end Command

end MetricHistory
