import MetricHistory.Config.Basic
import MetricHistory.Config.Memory
import MetricHistory.Text.Quoted

/-!
# What can be wrong with a configuration

`Config.problems` lists everything that keeps a configuration from being used, in a fixed
order: the frameworks by id, then history, version control, analyzer and memory limits.  A
configuration without problems is valid.
-/

namespace MetricHistory

/-- What is wrong with a framework; the first fault counts. -/
inductive FrameworkFault where
  | noRepository
  | noAnalyzer
  | noExtensions
  | badStartDate (date : Text)
deriving DecidableEq, Repr

namespace FrameworkFault

/-- The wording of a fault. -/
def message : FrameworkFault → Text
  | noRepository => "repo_url is required"
  | noAnalyzer => "analyzer is required"
  | noExtensions => "extensions must not be empty"
  | badStartDate date => "invalid start_date " ++ date.quoted

end FrameworkFault

/-- The first fault of a framework record. -/
def FrameworkRecord.fault? (f : FrameworkRecord) : Option FrameworkFault :=
  if f.repoUrl.isEmpty then some .noRepository
  else if f.analyzer.isEmpty then some .noAnalyzer
  else if f.extensions.isEmpty then some .noExtensions
  else if f.start?.isNone then some (.badStartDate f.startDate)
  else none

/-- What is wrong with a configuration. -/
inductive ConfigProblem where
  | noFrameworks
  | framework (id : Text) (fault : FrameworkFault)
  | intervalMonths (n : Int)
  | recentDays (n : Int)
  | targetCommits (n : Int)
  | gitTimeouts
  | analyzerTimeouts
  | memoryLimit (limit : Text)
deriving DecidableEq, Repr

namespace ConfigProblem

/-- The wording of a problem. -/
def message : ConfigProblem → Text
  | noFrameworks => "no frameworks configured"
  | framework id fault => "framework " ++ id ++ ": " ++ fault.message
  | intervalMonths n => "history.interval_months must be positive (got " ++ Text.ofInt n ++ ")"
  | recentDays n => "history.recent_days must be positive (got " ++ Text.ofInt n ++ ")"
  | targetCommits n => "history.target_commits must be positive (got " ++ Text.ofInt n ++ ")"
  | gitTimeouts => "git timeouts must be positive"
  | analyzerTimeouts => "analyzer timeouts must be positive"
  | memoryLimit limit => "analyzer memory limit " ++ limit.quoted

end ConfigProblem

namespace Config

/-- The problems of the frameworks, by id. -/
def frameworkProblems (c : Config) : List ConfigProblem :=
  c.frameworkIds.filterMap fun id => do
    let f ← c.framework? id
    let fault ← f.fault?
    some (.framework id fault)

/-- A problem, when the condition holds. -/
def problemIf (b : Bool) (p : ConfigProblem) : List ConfigProblem := if b then [p] else []

/-- Everything that is wrong with a configuration. -/
def problems (c : Config) : List ConfigProblem :=
  problemIf c.frameworks.isEmpty .noFrameworks ++ c.frameworkProblems ++
    problemIf (c.history.intervalMonths ≤ 0) (.intervalMonths c.history.intervalMonths) ++
    problemIf (c.history.recentDays ≤ 0) (.recentDays c.history.recentDays) ++
    problemIf (c.history.targetCommits ≤ 0) (.targetCommits c.history.targetCommits) ++
    problemIf (c.git.commandTimeoutMinutes ≤ 0 || c.git.archiveTimeoutMinutes ≤ 0) .gitTimeouts ++
    problemIf (c.analyzer.deltaTimeoutSeconds ≤ 0 || c.analyzer.fullTimeoutSeconds ≤ 0)
      .analyzerTimeouts ++
    ([c.analyzer.deltaMemoryLimit, c.analyzer.fullMemoryLimit].filter
      fun l => !Memory.isLimit l).map .memoryLimit

/-- The wording of several problems, one on each line. -/
def problemsText (ps : List ConfigProblem) : Text := Text.join "\n" (ps.map ConfigProblem.message)

end Config

end MetricHistory
