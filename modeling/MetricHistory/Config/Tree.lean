import MetricHistory.Config.Basic
import MetricHistory.Settings.Basic

/-!
# The configuration as a settings tree

`Config.entries` is the tree that a settings file for a configuration holds, its keys in byte
order.
-/

namespace MetricHistory

/-- An entry of a settings tree that holds a text. -/
def Setting.ofText (key : String) (t : Text) : Text × Setting := (Text.ofString key, .text t)

/-- An entry of a settings tree that holds a number. -/
def Setting.ofInt (key : String) (i : Int) : Text × Setting := (Text.ofString key, .int i)

/-- The settings of a framework. -/
def FrameworkRecord.entries (f : FrameworkRecord) : List (Text × Setting) :=
  [Setting.ofText "analyzer" f.analyzer, Setting.ofText "core_subdir" f.coreSubdir,
   (Text.ofString "extensions", .list (f.extensions.map .text)), Setting.ofText "name" f.name,
   Setting.ofText "repo_url" f.repoUrl, Setting.ofText "start_date" f.startDate]

/-- The settings of a configuration. -/
def Config.entries (c : Config) : List (Text × Setting) :=
  let frameworks := (c.frameworks.mergeSort fun a b => Text.le a.1 b.1).map fun (id, f) =>
    (id, Setting.table f.entries)
  [(Text.ofString "analyzer", .table
     [Setting.ofText "binary" c.analyzer.binary,
      Setting.ofText "delta_memory_limit" c.analyzer.deltaMemoryLimit,
      Setting.ofInt "delta_timeout_seconds" c.analyzer.deltaTimeoutSeconds,
      Setting.ofText "full_memory_limit" c.analyzer.fullMemoryLimit,
      Setting.ofInt "full_timeout_seconds" c.analyzer.fullTimeoutSeconds]),
   (Text.ofString "cache", .table
     [Setting.ofText "dir" c.cache.dir, (Text.ofString "enabled", .bool c.cache.enabled),
      Setting.ofInt "ttl_hours" c.cache.ttlHours]),
   (Text.ofString "frameworks", .table frameworks),
   (Text.ofString "git", .table
     [Setting.ofInt "archive_timeout_minutes" c.git.archiveTimeoutMinutes,
      Setting.ofText "binary" c.git.binary,
      Setting.ofInt "command_timeout_minutes" c.git.commandTimeoutMinutes]),
   (Text.ofString "history", .table
     [Setting.ofInt "interval_months" c.history.intervalMonths,
      Setting.ofInt "recent_days" c.history.recentDays,
      Setting.ofInt "target_commits" c.history.targetCommits]),
   (Text.ofString "paths", .table
     [Setting.ofText "data_dir" c.paths.dataDir, Setting.ofText "output_dir" c.paths.outputDir,
      Setting.ofText "project_dir" c.paths.projectDir,
      Setting.ofText "scripts_dir" c.paths.scriptsDir])]

end MetricHistory
