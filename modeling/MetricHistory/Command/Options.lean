import MetricHistory.Config.Basic
import MetricHistory.Failure

/-!
# Options of a collection

What the command line can change for one run: how many commits are kept, how far back they are
searched, and which frameworks are collected.
-/

namespace MetricHistory

namespace Command

/-- The options of a collection.  A number that is zero changes nothing. -/
structure CollectOptions where
  targetCount : Int := 0
  recentDays : Int := 0
  parallel : Int := 1
  noCache : Bool := false
  progress : Bool := false

/-- What is said of a number that has to be positive and is not. -/
def notPositive (flag : Text) (n : Int) : Failure :=
  .other ("--" ++ flag ++ " must be a positive integer (got " ++ Text.ofInt n ++ ")")

/-- Accepts positive numbers. -/
def checkPositive (flag : Text) (n : Int) : Except Failure Unit :=
  if n ≤ 0 then .error (notPositive flag n) else .ok ()

/-- The number to use: the one that is given unless it is zero. -/
def override (flag : Text) (given current : Int) : Except Failure Int := do
  if given = 0 then return current
  checkPositive flag given
  return given

namespace CollectOptions

/-- The history settings with the options applied in order up to the first that is refused. -/
def apply (o : CollectOptions) (h : HistorySettings) : HistorySettings × Option Failure :=
  match override "target-count" o.targetCount h.targetCommits with
  | .error f => (h, some f)
  | .ok target =>
    let h := { h with targetCommits := target }
    match override "recent-days" o.recentDays h.recentDays with
    | .error f => (h, some f)
    | .ok days =>
      let h := { h with recentDays := days }
      match checkPositive "parallel" o.parallel with
      | .error f => (h, some f)
      | .ok _ => (h, none)

end CollectOptions

/-- The ids of the frameworks that a name stands for: all of them, or the one it names. -/
def selectFrameworks (c : Config) (name : Text) : Except Failure (List Text) :=
  if name.isEmpty || name == Text.ofString "all" then .ok c.frameworkIds
  else if (c.framework? name).isNone then .error (.unknownFramework name)
  else .ok [name]

end Command

end MetricHistory
