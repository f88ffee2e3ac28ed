import MetricHistory.Command.Shell
import MetricHistory.Config.Tree
import MetricHistory.Report.Summary
import MetricHistory.Settings.Toml.Printer
import MetricHistory.Text.Human

/-!
# What the commands do

* `Command.collect` collects reports, `Command.summary` shows one.
* `Command.frameworks` lists the configured frameworks.
* `Command.writeInitialConfig` writes a configuration file, `Command.validateConfig` and
  `Command.showConfig` look at it.
* `Command.cacheStats` and `Command.cacheClear` look after the cache.
-/

namespace MetricHistory

namespace Command

open ShellTask

/-! ### Collecting -/

/-- The options of a collection that are given by flags. -/
def collectOptions (flags : FlagScope) : CollectOptions :=
  { targetCount := flags.number "target-count", recentDays := flags.number "recent-days"
    parallel := flags.number "parallel", noCache := flags.isOn "no-cache"
    progress := !flags.isOn "no-progress" && !flags.isOn "verbose" &&
      flags.number "parallel" == 1 }

/-- The cache that is configured. -/
def openCache (c : Config) (enabled : Bool) : FileTask Cache :=
  FileTask.ofFiles (Cache.create (c.paths.resolve c.cache.dir)
    (Duration.times c.cache.ttlHours Duration.hour) enabled)

/-- Collects the frameworks that are asked for. -/
def collect (flags : FlagScope) : ShellTask Unit := do
  let loaded ← loadConfig flags
  let options := collectOptions flags
  let (history, refused) := options.apply loaded.config.history
  if let some f := refused then throw f
  let config := { loaded.config with history := history }
  let ids ← match selectFrameworks config (flags.text "framework") with
    | .ok ids => pure ids
    | .error f => throw f
  modify fun s =>
    { s with logging :=
        { verbose := flags.isOn "verbose"
          asJson := LogOptions.isJsonFormat (flags.text "log-format") } }
  if !loaded.source.isEmpty then
    act (Action.log .debug "Loaded config" [(Text.ofString "path", .text loaded.source)])
  let cache ← onFiles (FileTask.during "failed to open cache"
    (openCache config (config.cache.enabled && !options.noCache)))
  let s ← get
  let displays := if options.progress then s.displays else none
  let failed ← act (collectAll
    (collection config (some cache) displays s.world.files.clock s.runId) ids)
  if let some f := failed then throw f

/-! ### Reports and frameworks -/

/-- Shows the summary of a report. -/
def summary (flags : FlagScope) (arguments : List Text) : ShellTask Unit := do
  match arguments with
  | [path] =>
    let report ← onFiles (Report.read path)
    match Summary.ofReport report with
    | .error e => throw (.other e.message)
    | .ok s => render flags (return s.block (← get).world.files.clock)
  | _ =>
    throw (.other ("expected exactly one report path, got " ++ Text.ofNat arguments.length))

/-- A framework as a JSON value. -/
def frameworkJson (c : Config) (f : Framework) : Json :=
  let text (t : Text) : Json := Json.ofText true t
  Json.record
    [(Text.ofString "id", text f.id), (Text.ofString "name", text f.name),
     (Text.ofString "repoUrl", text f.repoUrl), (Text.ofString "startDate", text f.startDate),
     (Text.ofString "coreSubdir", text f.coreSubdir),
     (Text.ofString "extensions", Json.list (f.extensions.map text)),
     (Text.ofString "report", text (c.paths.reportPath f.id))]

/-- The table of frameworks. -/
def frameworkTable (c : Config) : Output.Table :=
  let fs := c.frameworkIds.filterMap c.framework?
  { title := "Frameworks"
    headers := ["ID", "Name", "Since", "Core", "Extensions", "Repository"].map Text.ofString
    rows := fs.map fun f =>
      [f.id, f.name, f.startDate, f.coreSubdir, Text.join " " f.extensions, f.repoUrl]
    data := some (Json.list (fs.map (frameworkJson c))) }

/-- Lists the configured frameworks. -/
def frameworks (flags : FlagScope) : ShellTask Unit := do
  let loaded ← loadConfig flags
  render flags (return .table (frameworkTable loaded.config))

/-! ### Configuration -/

/-- The configuration file that a new project starts with. -/
def initialConfig : Text :=
  "# coremetrics configuration\n" ++
    "# Relative paths are resolved against paths.project_dir.\n\n" ++
    Toml.render Config.default.entries

/-- Writes a configuration file with the stock settings. -/
def writeInitialConfig (flags : FlagScope) : ShellTask Unit := do
  let path := flags.text "output"
  if (← get).world.files.isThere path && !flags.isOn "force" then
    throw (.other ("config file " ++ path.quoted ++ " already exists (use --force to overwrite)"))
  let dir := Path.dir path
  if dir != Path.dot then
    onFiles (FileTask.during ("failed to create directory " ++ dir.quoted)
      (FileTask.ofFiles (Files.makeDirs dir)))
  onFiles (FileTask.during "failed to write config file"
    (FileTask.ofFiles (Files.write path initialConfig 0o644)))
  succeed ("Created " ++ path)
  print "Edit this file to add frameworks or change paths and limits.\n"

/-- Says whether the configuration is valid. -/
def validateConfig (flags : FlagScope) : ShellTask Unit := do
  let loaded ← loadConfig flags
  if loaded.source.isEmpty then warn "No config file found. Default configuration is valid."
  else succeed ("Configuration valid: " ++ loaded.source)

/-- Shows the configuration. -/
def showConfig (flags : FlagScope) : ShellTask Unit := do
  let loaded ← loadConfig flags
  if loaded.source.isEmpty then print "# Default configuration (no config file found)\n"
  else print ("# Configuration from: " ++ loaded.source ++ "\n\n")
  print (Toml.render loaded.config.entries)

/-! ### Cache -/

/-- The configuration with the cache it names and the directory of that. -/
def configuredCache (flags : FlagScope) : ShellTask (Config × Cache × Text) := do
  let config := (← loadConfig flags).config
  let dir := config.paths.resolve config.cache.dir
  let cache ← onFiles (FileTask.during ("failed to open cache " ++ dir)
    (openCache config config.cache.enabled))
  return (config, cache, dir)

/-- What is said of a cache that is not used. -/
def cacheDisabled : Text := "Cache is disabled (cache.enabled = false)"

/-- Shows what the cache holds. -/
def cacheStats (flags : FlagScope) : ShellTask Unit := do
  let (_, cache, dir) ← configuredCache flags
  if !cache.enabled then warn cacheDisabled
  else
    let fs := (← get).world.files
    let stats := cache.stats fs
    if let some e := stats.failure? then throw (.file e)
    let age (d : Duration) : Text := Human.age fs.clock (fs.clock.add (-d))
    print ("Directory: " ++ dir ++ "\n")
    print ("Entries:   " ++ Human.comma stats.entries ++ "\n")
    print ("Size:      " ++ Human.bytes stats.totalSize ++ "\n")
    if 0 < stats.entries then
      print ("Oldest:    " ++ age stats.oldestAge ++ "\n")
      print ("Newest:    " ++ age stats.newestAge ++ "\n")

/-- Removes the entries of commits. -/
def invalidateCommits (cache : Cache) (f : Framework) : List Text → FileTask Unit
  | [] => return
  | commit :: rest => do
    FileTask.during ("failed to invalidate " ++ commit)
      (FileTask.ofFiles (cache.invalidate (Cache.keyOf [f.id, commit, f.coreSubdir])))
    invalidateCommits cache f rest

/-- Removes the entries of the commits that are given, or all entries. -/
def cacheClear (flags : FlagScope) : ShellTask Unit := do
  let (config, cache, dir) ← configuredCache flags
  let commits := flags.texts "commit"
  if !cache.enabled then warn cacheDisabled
  else if commits.isEmpty then
    onFiles (FileTask.during "failed to clear cache" (FileTask.ofFiles cache.clear))
    succeed ("Cleared " ++ dir)
  else
    let id := flags.text "framework"
    if id.isEmpty then throw (.other "--commit requires --framework")
    let some f := config.framework? id | throw (.unknownFramework id)
    onFiles (invalidateCommits cache f commits)
    succeed ("Invalidated " ++ Text.ofNat commits.length ++ " cached snapshot(s) of " ++ f.id)

end Command

end MetricHistory
