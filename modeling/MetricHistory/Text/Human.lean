import MetricHistory.Calendar.Time
import MetricHistory.Decimal.Layout

/-!
# Numbers, sizes and ages for people

* `Human.comma` groups the digits of an integer by thousands.
* `Human.commaDecimal` does so for a double and keeps a number of its decimals.
* `Human.bytes` gives a size in the largest unit that fits.
* `Human.age` says how long ago a moment was, or how far ahead it is.
-/

namespace MetricHistory

namespace Human

/-- Digits in groups of three, counted from the right. -/
def group (digits : Text) : Text :=
  let first := digits.length % 3
  let rest := digits.drop first
  let groups := (List.range (rest.length / 3)).map fun i => (rest.drop (3 * i)).take 3
  Text.join "," ((if first = 0 then [] else [digits.take first]) ++ groups)

/-- An integer with its digits grouped. -/
def comma (i : Int) : Text :=
  let sign : Text := if i < 0 then "-" else ""
  sign ++ group (Text.ofNat i.natAbs)

/-- A double with its whole digits grouped and at most `places` decimals; further decimals are
cut off. -/
def commaDecimal (places : Nat) (x : Float) : Text :=
  let sign : Text := if x < 0 then "-" else ""
  let t := plainNumber (if x < 0 then 0 - x else x)
  match t.cut? (Text.byte '.') with
  | none => sign ++ group t
  | some (whole, decimals) => sign ++ group whole ++ "." ++ decimals.take places

/-- The units of sizes, each a thousand times the one before. -/
def sizeUnits : List String := ["B", "kB", "MB", "GB", "TB", "PB", "EB"]

/-- The number of times a size can be divided by a thousand.  `fuel` bounds it. -/
def thousands : Nat → Nat → Nat
  | 0, _ => 0
  | fuel + 1, n => if n < 1000 then 0 else thousands fuel (n / 1000) + 1

/-- A number of bytes in the largest unit that fits, with one decimal below ten units. -/
def bytes (n : Nat) : Text :=
  if n < 10 then Text.ofNat n ++ " B"
  else
    let e := thousands 6 n
    let tenths := (20 * n + Nat.pow 1000 e) / (2 * Nat.pow 1000 e)
    let unit := Text.ofString (sizeUnits.getD e "EB")
    let number :=
      if tenths < 100 then Text.ofNat (tenths / 10) ++ "." ++ Text.ofNat (tenths % 10)
      else Text.ofNat (roundDiv tenths 10)
    number ++ " " ++ unit

/-- One day. -/
def day : Duration := 24 * Duration.hour

/-- How an age is worded: up to a limit, as a fixed text or as a number of units. -/
inductive AgeWord where
  | fixed (text : String)
  | count (unit : Duration) (name : String)

/-- The wordings of ages by ascending limits.  A month has 30 days and a year 12 months. -/
def ageWords : List (Duration × AgeWord) :=
  [(2 * Duration.second, .fixed "1 second"),
   (Duration.minute, .count Duration.second "seconds"),
   (2 * Duration.minute, .fixed "1 minute"),
   (Duration.hour, .count Duration.minute "minutes"),
   (2 * Duration.hour, .fixed "1 hour"),
   (day, .count Duration.hour "hours"),
   (2 * day, .fixed "1 day"),
   (7 * day, .count day "days"),
   (14 * day, .fixed "1 week"),
   (30 * day, .count (7 * day) "weeks"),
   (60 * day, .fixed "1 month"),
   (360 * day, .count (30 * day) "months"),
   (540 * day, .fixed "1 year"),
   (720 * day, .fixed "2 years"),
   (37 * 360 * day, .count (360 * day) "years")]

/-- How long ago a moment was, seen from `now`. -/
def age (now moment : Time) : Text :=
  let ahead := moment.after now
  let span := if ahead then moment.sub now else now.sub moment
  let direction : Text := if ahead then " from now" else " ago"
  if span < Duration.second then "now"
  else
    match ageWords.find? fun (limit, _) => span < limit with
    | some (_, .fixed text) => Text.ofString text ++ direction
    | some (_, .count unit name) => Text.ofInt (span / unit) ++ " " ++ Text.ofString name ++ direction
    | none => "a long while" ++ direction

end Human

end MetricHistory
