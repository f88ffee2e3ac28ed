import MetricHistory.Config.Problem
import MetricHistory.Settings.Json
import MetricHistory.Settings.Toml.Document
import MetricHistory.Settings.Yaml.Document

/-!
# Configuration files

A configuration file lies over the stock configuration: what it does not say stays as it is.
Sections are overlaid field by field.  A framework of the file is a record of its own; when it
has the id of a stock framework, its empty fields come from there.

* `Config.overlay?` lays the entries of a settings tree over a configuration.
* `Config.ofText` reads a configuration file, whose format follows from its name.
-/

namespace MetricHistory

namespace Config

open Setting

/-- The entries of a settings table. -/
abbrev Entries := List (Text × Setting)

/-! ### Sections -/

/-- Reads the places of files. -/
def readPaths (start : Paths) (es : Entries) : Option Paths := do
  let projectDir ← readField readText "project_dir" start.projectDir es
  let outputDir ← readField readText "output_dir" start.outputDir es
  let dataDir ← readField readText "data_dir" start.dataDir es
  let scriptsDir ← readField readText "scripts_dir" start.scriptsDir es
  some { projectDir, outputDir, dataDir, scriptsDir }

/-- Reads the settings of version control. -/
def readGit (start : GitSettings) (es : Entries) : Option GitSettings := do
  let binary ← readField readText "binary" start.binary es
  let command ← readField readInt "command_timeout_minutes" start.commandTimeoutMinutes es
  let archive ← readField readInt "archive_timeout_minutes" start.archiveTimeoutMinutes es
  some { binary, commandTimeoutMinutes := command, archiveTimeoutMinutes := archive }

/-- Reads the settings of the analyzer. -/
def readAnalyzer (start : AnalyzerSettings) (es : Entries) : Option AnalyzerSettings := do
  let binary ← readField readText "binary" start.binary es
  let deltaMemory ← readField readText "delta_memory_limit" start.deltaMemoryLimit es
  let fullMemory ← readField readText "full_memory_limit" start.fullMemoryLimit es
  let deltaTimeout ← readField readInt "delta_timeout_seconds" start.deltaTimeoutSeconds es
  let fullTimeout ← readField readInt "full_timeout_seconds" start.fullTimeoutSeconds es
  some {
    binary
    deltaMemoryLimit := deltaMemory
    fullMemoryLimit := fullMemory
    deltaTimeoutSeconds := deltaTimeout
    fullTimeoutSeconds := fullTimeout }

/-- Reads the settings of the history. -/
def readHistory (start : HistorySettings) (es : Entries) : Option HistorySettings := do
  let intervalMonths ← readField readInt "interval_months" start.intervalMonths es
  let recentDays ← readField readInt "recent_days" start.recentDays es
  let targetCommits ← readField readInt "target_commits" start.targetCommits es
  some { intervalMonths, recentDays, targetCommits }

/-- Reads the settings of the cache. -/
def readCache (start : CacheSettings) (es : Entries) : Option CacheSettings := do
  let enabled ← readField readBool "enabled" start.enabled es
  let dir ← readField readText "dir" start.dir es
  let ttlHours ← readField readInt "ttl_hours" start.ttlHours es
  some { enabled, dir, ttlHours }

/-- Reads a framework into an empty record. -/
def readFramework (es : Entries) : Option FrameworkRecord := do
  let name ← readField readText "name" [] es
  let repoUrl ← readField readText "repo_url" [] es
  let startDate ← readField readText "start_date" [] es
  let analyzer ← readField readText "analyzer" [] es
  let coreSubdir ← readField readText "core_subdir" [] es
  let extensions ← readField readTexts "extensions" [] es
  some { name, repoUrl, startDate, analyzer, coreSubdir, extensions }

/-- Reads a section: a table, a moment, which has no entries, or nothing. -/
def readSection {α : Type} (read : α → Entries → Option α) (start : α) (s : Setting) : Option α :=
  (sectionEntries? s).bind (read start)

/-! ### Frameworks -/

/-- Sets the record of a framework. -/
def setFramework (frameworks : List (Text × FrameworkRecord)) (id : Text) (r : FrameworkRecord) :
    List (Text × FrameworkRecord) :=
  match frameworks with
  | [] => [(id, r)]
  | (k, old) :: rest => if k = id then (k, r) :: rest else (k, old) :: setFramework rest id r

/-- Adds the frameworks of a table. -/
def addFrameworks (frameworks : List (Text × FrameworkRecord)) (es : Entries) :
    Option (List (Text × FrameworkRecord)) :=
  es.foldlM (fun fs (id, s) => do
    let r ← (sectionEntries? s).bind readFramework
    some (setFramework fs id r)) frameworks

mutual

/-- Reads the frameworks, from a table or from a list of tables. -/
def readFrameworks (start : List (Text × FrameworkRecord)) :
    Setting → Option (List (Text × FrameworkRecord))
  | .null => some start
  | .table es => addFrameworks start es
  | .moment zoned => if zoned then some start else none
  | .list items => readFrameworkList start items
  | _ => none

/-- Reads the frameworks of the elements of a list, one after the other. -/
def readFrameworkList (start : List (Text × FrameworkRecord)) :
    List Setting → Option (List (Text × FrameworkRecord))
  | [] => some start
  | s :: rest => (readFrameworks start s).bind fun fs => readFrameworkList fs rest

end

/-- The record of a framework, filled from the stock framework of the same id. -/
def fillStock (entry : Text × FrameworkRecord) : Text × FrameworkRecord :=
  match stockFrameworks.lookup entry.1 with
  | some base => (entry.1, entry.2.withDefaults base)
  | none => entry

/-! ### The whole -/

/-- Lays the entries of a settings tree over a configuration; `none` when a value has the wrong
kind. -/
def overlay? (start : Config) (es : Entries) : Option Config := do
  let frameworks ← readField readFrameworks "frameworks" start.frameworks es
  let paths ← readField (readSection readPaths) "paths" start.paths es
  let git ← readField (readSection readGit) "git" start.git es
  let analyzer ← readField (readSection readAnalyzer) "analyzer" start.analyzer es
  let history ← readField (readSection readHistory) "history" start.history es
  let cache ← readField (readSection readCache) "cache" start.cache es
  some { frameworks := frameworks.map fillStock, paths, git, analyzer, history, cache }

/-- The formats of configuration files. -/
inductive Format where
  | toml
  | yaml
  | json
deriving DecidableEq, Repr

/-- The format of a file with a given name. -/
def formatOf (name : Text) : Format :=
  let ext := Text.lower (Path.extension name)
  if ext == Text.ofString ".yaml" || ext == Text.ofString ".yml" then .yaml
  else if ext == Text.ofString ".json" then .json
  else .toml

/-- The entries of a settings text. -/
def Format.parse? : Format → Text → Option Entries
  | toml => Toml.parse?
  | yaml => Yaml.parse?
  | json => Settings.ofJsonText?

/-- Why a configuration file cannot be used. -/
inductive FileFault where
  | malformed
  | mistyped
  | invalid (problems : List ConfigProblem)
deriving DecidableEq, Repr

/-- The wording of a fault of the file `name`. -/
def FileFault.message (name : Text) : FileFault → Text
  | malformed => "failed to load config " ++ name
  | mistyped => "failed to decode config " ++ name
  | invalid ps => "invalid config " ++ name ++ ": " ++ problemsText ps

/-- The configuration a settings tree describes. -/
def ofEntries (es : Entries) : Except FileFault Config :=
  match overlay? default es with
  | none => .error .mistyped
  | some c => if c.problems.isEmpty then .ok c else .error (.invalid c.problems)

/-- Reads a configuration file. -/
def ofText (name content : Text) : Except FileFault Config :=
  match (formatOf name).parse? content with
  | none => .error .malformed
  | some es => ofEntries es

end Config

end MetricHistory
