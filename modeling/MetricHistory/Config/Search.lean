import MetricHistory.Config.Layers
import MetricHistory.FileSystem.Task

/-!
# Finding the configuration

The configuration is read from the file that is asked for, else from the first of the usual
files that is there, else it is the stock configuration.
-/

namespace MetricHistory

namespace Config

/-- A configuration and the file it was read from, which is empty for the stock one. -/
structure Loaded where
  config : Config
  source : Text

/-- Reads the configuration in a file. -/
def load (path : Text) : FileTask Config := do
  let content ← FileTask.during ("failed to load config " ++ path)
    (FileTask.ofFiles (Files.read (Path.clean path)))
  match ofText path content with
  | .ok c => return c
  | .error fault => throw (.other (fault.message path))

/-- The directories that are searched. -/
def searchDirs : List Text := [Text.ofString ".", Text.ofString ".coremetrics"]

/-- The names of files that are searched for. -/
def searchNames : List Text :=
  ["coremetrics.toml", "coremetrics.yaml", "coremetrics.yml", "coremetrics.json",
    ".coremetrics.toml", ".coremetrics.yaml", ".coremetrics.yml", ".coremetrics.json"].map
    Text.ofString

/-- The files that are searched for, in order. -/
def candidates : List Text :=
  searchDirs.flatMap fun dir => searchNames.map fun name => Path.join [dir, name]

/-- Reads the configuration from a path, or from the first usual file when the path is empty. -/
def find (path : Text) : FileTask Loaded := do
  if !path.isEmpty then return { config := ← load path, source := path }
  match candidates.find? (← get).isThere with
  | some found => return { config := ← load found, source := found }
  | none => return { config := Config.default, source := [] }

end Config

end MetricHistory
