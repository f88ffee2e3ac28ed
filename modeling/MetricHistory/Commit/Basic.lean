import MetricHistory.Calendar.Time
import MetricHistory.Commit.Category
import MetricHistory.Text.Cut

/-!
# Commits and their metric movement

* `Commit` is a commit as the history lists it.
* `Movement` is the signed change of the metrics between a commit and its parent.
* `CommitDelta` is an entry of the recent-commit series of a report.
* `YearCount` and `MonthCount` are the buckets of the commit histograms.
-/

namespace MetricHistory

/-- The first `n` bytes of a commit hash. -/
def shortHash (n : Nat) (hash : Text) : Text := hash.take n

/-- A commit together with the data of its log entry. -/
structure Commit where
  hash : Text
  shortHash : Text
  date : Time
  subject : Text
  category : Category
  lines : Int := 0
deriving DecidableEq, Repr

/-- The change of the metrics from a commit's parent to the commit.  A positive `mi` means that
maintainability improved. -/
structure Movement where
  loc : Int := 0
  ccn : Float := 0
  mi : Float := 0
  antipatterns : Int := 0

namespace Movement

/-- Some quality metric moved.  The line count alone does not matter. -/
def isChange (m : Movement) : Bool := m.ccn != 0 || m.mi != 0 || m.antipatterns != 0

end Movement

/-- An entry of the recent-commit series. -/
structure CommitDelta where
  hash : Text := []
  date : Text := []
  category : Category := .other []
  message : Text := []
  movement : Movement := {}

namespace CommitDelta

/-- The number of hash bytes kept in the series. -/
def hashLength : Nat := 11

/-- The number of subject characters kept in the series. -/
def messageLength : Nat := 80

/-- The entry for a commit and its movement. -/
def ofCommit (c : Commit) (m : Movement) : CommitDelta where
  hash := MetricHistory.shortHash hashLength c.hash
  date := c.date.date.long
  category := c.category
  message := c.subject.truncate messageLength
  movement := m

end CommitDelta

/-- The number of commits of a year. -/
structure YearCount where
  year : Int := 0
  commits : Int := 0
deriving DecidableEq, Repr

/-- The number of commits of a month, by category. -/
structure MonthCount where
  date : Text := []
  total : Int := 0
  features : Int := 0
  bugs : Int := 0
  maintenance : Int := 0
  unknown : Int := 0
deriving DecidableEq, Repr

namespace MonthCount

/-- Counts one more commit.  A label outside the four categories counts as unknown. -/
def add (m : MonthCount) (c : Category) : MonthCount :=
  let m := { m with total := m.total + 1 }
  match c with
  | .bug => { m with bugs := m.bugs + 1 }
  | .feature => { m with features := m.features + 1 }
  | .maintenance => { m with maintenance := m.maintenance + 1 }
  | _ => { m with unknown := m.unknown + 1 }

end MonthCount

end MetricHistory
