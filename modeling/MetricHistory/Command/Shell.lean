import MetricHistory.Command.Collect
import MetricHistory.Command.Environment
import MetricHistory.Command.Flag
import MetricHistory.Config.Search
import MetricHistory.Output.Block

/-!
# The shell that commands run in

A command sees a computer, the variables of its environment and what it has printed so far.
-/

namespace MetricHistory

namespace Command

/-- What a command sees and changes. -/
structure Shell where
  world : World Machine
  environment : Environment := []
  /-- What was printed so far. -/
  output : Text := []
  /-- How the log is written. -/
  logging : LogOptions := {}
  /-- The displays that progress is shown in. -/
  displays : DisplayHook Machine := none
  /-- The name of a run in the log. -/
  runId : Text := []

/-- A step of a command, which may fail. -/
abbrev ShellTask := ExceptT Failure (StateM Shell)

namespace ShellTask

variable {α : Type}

/-- Prints a text. -/
def print (t : Text) : ShellTask Unit := modify fun s => { s with output := s.output ++ t }

/-- Runs a task on files. -/
def onFiles (task : FileTask α) : ShellTask α := fun s =>
  let (result, files) := task.run s.world.files
  (result, { s with world := { s.world with files := files } })

/-- Runs an action on the world. -/
def act (action : Action Machine α) : ShellTask α := fun s =>
  let (a, world) := action.run s.world
  (.ok a, { s with world := world })

/-- Says that something was done. -/
def succeed (line : Text) : ShellTask Unit := print (Output.success false line)

/-- Says that something is amiss. -/
def warn (line : Text) : ShellTask Unit := print (Output.warning false line)

/-- The variable that names the configuration file. -/
def configVariable : Text := "COREMETRICS_CONFIG"

/-- The configuration that flags and environment ask for. -/
def loadConfig (flags : FlagScope) : ShellTask Config.Loaded := do
  let given := flags.text "config"
  let s ← get
  let path := if given.isEmpty then s.environment.value configVariable else given
  let loaded ← onFiles (Config.find path)
  let dir := flags.text "project-dir"
  if dir.isEmpty then return loaded
  let paths := { loaded.config.paths with projectDir := dir }
  return { loaded with config := { loaded.config with paths := paths } }

/-- Prints a block in the format that is asked for, to a file if one is named. -/
def render (flags : FlagScope) (block : ShellTask Output.Block) : ShellTask Unit := do
  let format := Output.Format.ofText (flags.text "format")
  let file := flags.text "output"
  if file.isEmpty then print (Output.render format false (← block))
  else
    onFiles (FileTask.ofFiles (Files.write file [] 0o666))
    let text := Output.render format false (← block)
    onFiles (FileTask.ofFiles (Files.write file text 0o666))

end ShellTask

end Command

end MetricHistory
