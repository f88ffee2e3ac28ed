import MetricHistory.Calendar.Time
import MetricHistory.Path

/-!
# Configuration

What a collection needs to know: the frameworks to measure, where files lie, and the limits of
the programs that are run.

* `Config` is the whole, `Config.default` the stock configuration.
* `Config.framework?` looks up a framework by its id.
* `Paths` gives the places of a framework's mirror, scratch files, report and analyzer.
-/

namespace MetricHistory

/-- What is known of a framework apart from its id. -/
structure FrameworkRecord where
  name : Text := []
  repoUrl : Text := []
  startDate : Text := []
  analyzer : Text := []
  coreSubdir : Text := []
  extensions : List Text := []
deriving DecidableEq, Repr

/-- A framework to measure. -/
structure Framework extends FrameworkRecord where
  id : Text
deriving DecidableEq, Repr

/-- Where files lie.  Relative paths start at the project directory. -/
structure Paths where
  projectDir : Text := []
  outputDir : Text := []
  dataDir : Text := []
  scriptsDir : Text := []
deriving DecidableEq, Repr

/-- How the version control program is run. -/
structure GitSettings where
  binary : Text := []
  commandTimeoutMinutes : Int := 0
  archiveTimeoutMinutes : Int := 0
deriving DecidableEq, Repr

/-- How the analyzer is run, on the files of a change and on a full tree. -/
structure AnalyzerSettings where
  binary : Text := []
  deltaMemoryLimit : Text := []
  fullMemoryLimit : Text := []
  deltaTimeoutSeconds : Int := 0
  fullTimeoutSeconds : Int := 0
deriving DecidableEq, Repr

/-- How much history is measured. -/
structure HistorySettings where
  intervalMonths : Int := 0
  recentDays : Int := 0
  targetCommits : Int := 0
deriving DecidableEq, Repr

/-- Where measurements are kept, and for how long. -/
structure CacheSettings where
  enabled : Bool := false
  dir : Text := []
  ttlHours : Int := 0
deriving DecidableEq, Repr

/-- The configuration of a collection. -/
structure Config where
  frameworks : List (Text × FrameworkRecord) := []
  paths : Paths := {}
  git : GitSettings := {}
  analyzer : AnalyzerSettings := {}
  history : HistorySettings := {}
  cache : CacheSettings := {}
deriving DecidableEq, Repr

/-! ### Stock values -/

namespace FrameworkRecord

/-- Drupal, measured since its seventh release. -/
def drupal : FrameworkRecord :=
  { name := Text.ofString "Drupal"
    repoUrl := Text.ofString "https://git.drupalcode.org/project/drupal.git"
    startDate := Text.ofString "2011-01-01"
    analyzer := Text.ofString "drupalisms.php"
    coreSubdir := Text.ofString "core"
    extensions :=
      [".php", ".module", ".inc", ".install", ".theme", ".profile", ".engine"].map Text.ofString }

/-- TYPO3, measured since its eighth version. -/
def typo3 : FrameworkRecord :=
  { name := Text.ofString "TYPO3"
    repoUrl := Text.ofString "https://github.com/TYPO3/typo3.git"
    startDate := Text.ofString "2016-01-01"
    analyzer := Text.ofString "typo3isms.php"
    coreSubdir := Text.ofString "typo3/sysext"
    extensions := [Text.ofString ".php"] }

/-- Fills the empty fields from another record, each on its own. -/
def withDefaults (f base : FrameworkRecord) : FrameworkRecord :=
  let pick (own stock : Text) : Text := if own.isEmpty then stock else own
  { name := pick f.name base.name
    repoUrl := pick f.repoUrl base.repoUrl
    startDate := pick f.startDate base.startDate
    analyzer := pick f.analyzer base.analyzer
    coreSubdir := pick f.coreSubdir base.coreSubdir
    extensions := if f.extensions.isEmpty then base.extensions else f.extensions }

end FrameworkRecord

namespace Config

/-- The stock frameworks by id. -/
def stockFrameworks : List (Text × FrameworkRecord) :=
  [(Text.ofString "drupal", .drupal), (Text.ofString "typo3", .typo3)]

/-- The stock configuration. -/
def default : Config :=
  { frameworks := stockFrameworks
    paths :=
      { projectDir := Text.ofString ".", outputDir := Text.ofString "output"
        dataDir := Text.ofString "data", scriptsDir := Text.ofString "scripts" }
    git :=
      { binary := Text.ofString "git", commandTimeoutMinutes := 10, archiveTimeoutMinutes := 5 }
    analyzer :=
      { binary := Text.ofString "php", deltaMemoryLimit := Text.ofString "512M"
        fullMemoryLimit := Text.ofString "2G", deltaTimeoutSeconds := 60
        fullTimeoutSeconds := 600 }
    history := { intervalMonths := 6, recentDays := 365, targetCommits := 100 }
    cache := { enabled := true, dir := Text.ofString "output/cache", ttlHours := 24 * 30 } }

/-! ### Frameworks -/

/-- The ids of the frameworks, in byte order. -/
def frameworkIds (c : Config) : List Text := Text.sort (c.frameworks.map (·.1))

/-- The framework with an id.  Without a name it is called by its id. -/
def framework? (c : Config) (id : Text) : Option Framework :=
  (c.frameworks.lookup id).map fun r =>
    { r with id := id, name := if r.name.isEmpty then id else r.name }

/-- What is said of an id that no framework has. -/
def unknownFramework (id : Text) : Text := "unknown framework: " ++ id

end Config

/-- The first moment that is measured, if the start date is a date. -/
def FrameworkRecord.start? (f : FrameworkRecord) : Option Time :=
  (Date.parse? f.startDate).map (Time.midnight 0)

/-! ### Places -/

namespace Paths

/-- A path as seen from the project directory. -/
def resolve (p : Paths) (path : Text) : Text :=
  if Path.isAbsolute path then path else Path.join [p.projectDir, path]

/-- Where the mirror of a framework's repository lies. -/
def mirrorDir (p : Paths) (id : Text) : Text := p.resolve (id ++ "-core")

/-- Where the scratch files of a framework lie. -/
def workDir (p : Paths) (id : Text) : Text := Path.join [p.resolve p.outputDir, id]

/-- Where the report of a framework lies. -/
def reportPath (p : Paths) (id : Text) : Text := Path.join [p.resolve p.dataDir, id ++ ".json"]

/-- Where the analyzer of a framework lies. -/
def analyzerPath (p : Paths) (f : FrameworkRecord) : Text :=
  Path.join [p.resolve p.scriptsDir, f.analyzer]

end Paths

/-! ### Limits -/

/-- The time a version control command may take. -/
def GitSettings.commandTimeout (g : GitSettings) : Duration :=
  Duration.times g.commandTimeoutMinutes Duration.minute

/-- The time an archive may take. -/
def GitSettings.archiveTimeout (g : GitSettings) : Duration :=
  Duration.times g.archiveTimeoutMinutes Duration.minute

/-- The time the analyzer may take on the files of a change. -/
def AnalyzerSettings.deltaTimeout (a : AnalyzerSettings) : Duration :=
  Duration.times a.deltaTimeoutSeconds Duration.second

/-- The time the analyzer may take on a full tree. -/
def AnalyzerSettings.fullTimeout (a : AnalyzerSettings) : Duration :=
  Duration.times a.fullTimeoutSeconds Duration.second

end MetricHistory
