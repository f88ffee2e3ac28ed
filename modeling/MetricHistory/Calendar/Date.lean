import MetricHistory.Text.Basic

/-!
# Calendar dates

Dates of the Gregorian calendar, extended to all years, and their day numbers.  Day 0 is
1970-01-01.

* `Date.toDays` counts the days up to a date, `Date.ofDays` inverts it.
* `Date.firstOfMonth` is the first day of a month given by its number.
* `Date.parse?` reads `YYYY-MM-DD`.
-/

namespace MetricHistory

/-- A day of the calendar. -/
structure Date where
  year : Int
  month : Nat
  day : Nat
deriving DecidableEq, Repr

namespace Date

/-- Every fourth year is a leap year, but of the full centuries only every fourth. -/
def isLeap (year : Int) : Bool := year % 4 == 0 && (year % 100 != 0 || year % 400 == 0)

/-- The number of days of a month. -/
def daysIn (year : Int) (month : Nat) : Nat :=
  if month = 2 then if isLeap year then 29 else 28
  else if month = 4 ∨ month = 6 ∨ month = 9 ∨ month = 11 then 30
  else 31

/-- The days between 1 March of year 0 and 1970-01-01. -/
def epochShift : Int := 719468

/-- The number of a day.  Years are counted from March, so that a leap day is the last day of
its year; 400 years have 146097 days. -/
def toDays (d : Date) : Int :=
  let y : Int := if d.month ≤ 2 then d.year - 1 else d.year
  let era := y / 400
  let yearOfEra := y % 400
  let fromMarch : Int := ((d.month : Int) + 9) % 12
  let dayOfYear := (153 * fromMarch + 2) / 5 + d.day - 1
  let dayOfEra := yearOfEra * 365 + yearOfEra / 4 - yearOfEra / 100 + dayOfYear
  era * 146097 + dayOfEra - epochShift

/-- The day with a given number. -/
def ofDays (days : Int) : Date :=
  let z := days + epochShift
  let era := z / 146097
  let dayOfEra := z % 146097
  let yearOfEra :=
    (dayOfEra - dayOfEra / 1460 + dayOfEra / 36524 - dayOfEra / 146096) / 365
  let dayOfYear := dayOfEra - (365 * yearOfEra + yearOfEra / 4 - yearOfEra / 100)
  let fromMarch := (5 * dayOfYear + 2) / 153
  let day := dayOfYear - (153 * fromMarch + 2) / 5 + 1
  let month := if fromMarch < 10 then fromMarch + 3 else fromMarch - 9
  let year := yearOfEra + era * 400
  ⟨if month ≤ 2 then year + 1 else year, month.toNat, day.toNat⟩

/-- The first day of the month that lies `months` months after January of year 0. -/
def firstOfMonth (months : Int) : Date := ⟨months / 12, (months % 12).toNat + 1, 1⟩

/-- A number with at least `width` digits; a sign stands before them. -/
def padded (width : Nat) (i : Int) : Text :=
  if i < 0 then "-" ++ Text.ofNatPadded width i.natAbs else Text.ofNatPadded width i.natAbs

/-- `YYYY-MM`. -/
def yearMonth (d : Date) : Text := padded 4 d.year ++ "-" ++ Text.ofNatPadded 2 d.month

/-- `YYYY-MM-DD`. -/
def iso (d : Date) : Text := d.yearMonth ++ "-" ++ Text.ofNatPadded 2 d.day

/-- The short English names of the months. -/
def monthNames : List String :=
  ["Jan", "Feb", "Mar", "Apr", "May", "Jun", "Jul", "Aug", "Sep", "Oct", "Nov", "Dec"]

/-- A date as in `Mar 05, 2024`. -/
def long (d : Date) : Text :=
  Text.ofString (monthNames.getD (d.month - 1) "") ++ " " ++ Text.ofNatPadded 2 d.day ++ ", " ++
    padded 4 d.year

/-- The value of exactly `n` digits at the front, and the rest. -/
def digits? (n : Nat) (t : Text) : Option (Nat × Text) := do
  let ds := t.take n
  if ds.length = n ∧ ds.all Text.isDigit then some (← Text.nat? ds, t.drop n) else none

/-- What follows an expected text. -/
def skip? (p : Text) (t : Text) : Option Text := Text.after? p t

/-- The day exists in the calendar. -/
def isValid (d : Date) : Bool :=
  1 ≤ d.month && d.month ≤ 12 && 1 ≤ d.day && d.day ≤ daysIn d.year d.month

/-- A date `YYYY-MM-DD` at the front of a text, and the rest; whether the day exists is left
open. -/
def front? (t : Text) : Option (Date × Text) := do
  let (year, t) ← digits? 4 t
  let t ← skip? "-" t
  let (month, t) ← digits? 2 t
  let t ← skip? "-" t
  let (day, t) ← digits? 2 t
  some (⟨year, month, day⟩, t)

/-- Reads a date `YYYY-MM-DD` of the calendar. -/
def parse? (t : Text) : Option Date := do
  let (d, rest) ← front? t
  if rest.isEmpty && d.isValid then some d else none

end Date

end MetricHistory
