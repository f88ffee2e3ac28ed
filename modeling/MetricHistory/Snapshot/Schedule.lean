import MetricHistory.Calendar.Time

/-!
# The sampling schedule

A repository is sampled at midnight of the first day of certain months: January of the anchor's
year, and then every so many months, up to and including now.  `Schedule.dates` lists these
times in ascending order, on the anchor's clock.

The schedule is walked from month to month until a time lies after now (`Schedule.walk`).  How many
rounds that takes is known beforehand (`Schedule.bound`).
-/

namespace MetricHistory

namespace Schedule

/-- The cadence when none is given: twice a year. -/
def defaultInterval : Int := 6

/-- The cadence in months; one that is not positive means the default. -/
def interval (months : Int) : Int := if months ≤ 0 then defaultInterval else months

/-- The number of a month, counted from January of year 0. -/
def monthNumber (d : Date) : Int := d.year * 12 + (d.month - 1)

/-- Midnight of the first day of a month, which is counted from 1, on the anchor's clock. -/
def first (anchor : Time) (year month : Int) : Time :=
  Time.midnight anchor.offset (Date.firstOfMonth (year * 12 + (month - 1)))

/-- The months beyond December are months of the years that follow. -/
def carry (year month : Int) : Int × Int :=
  if 12 < month then carry (year + 1) (month - 12) else (year, month)
termination_by month.toNat

/-- The sampling times from a month on, up to and including now; `none` if they do not end within
that many rounds. -/
def walk (anchor now : Time) (step : Int) : Nat → Int × Int → Option (List Time)
  | 0, _ => none
  | rounds + 1, (year, month) =>
    let t := first anchor year month
    if t.after now then some []
    else (walk anchor now step rounds (carry year (month + step))).map (t :: ·)

/-- The number of samples up to now. -/
def bound (anchor now : Time) (months : Int) : Nat :=
  let last := monthNumber { now with offset := anchor.offset }.date
  ((last - anchor.date.year * 12) / interval months + 1).toNat

/-- The sampling times up to and including now. -/
def dates (anchor now : Time) (months : Int) : List Time :=
  (walk anchor now (interval months) (bound anchor now months + 1) (anchor.date.year, 1)).getD []

end Schedule

end MetricHistory
