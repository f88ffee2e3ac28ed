import MetricHistory.Commit.Basic
import MetricHistory.Decimal.Binary64

/-!
# Fragments

A `Fragment` is the part of a measurement that commit deltas are computed from.
`Fragment.movement` is the difference of two fragments.
-/

namespace MetricHistory

/-- The measured values of a tree that deltas compare. -/
structure Fragment where
  loc : Int := 0
  ccnSum : Float := 0
  miDebtSum : Float := 0
  antipatterns : Int := 0

namespace Fragment

/-- A rate per 1000 lines as a count, rounded toward zero; zero without lines. -/
def antipatternCount (rate : Float) (loc : Int) : Int :=
  if loc ≤ 0 then 0 else Binary64.truncate (rate * Binary64.ofInt loc / 1000)

/-- The movement from `before` to `after`.  Debt counts the other way round, so that a positive
value is an improvement. -/
def movement (before after : Fragment) : Movement where
  loc := wrap64 (after.loc - before.loc)
  ccn := after.ccnSum - before.ccnSum
  mi := before.miDebtSum - after.miDebtSum
  antipatterns := wrap64 (after.antipatterns - before.antipatterns)

end Fragment

end MetricHistory
