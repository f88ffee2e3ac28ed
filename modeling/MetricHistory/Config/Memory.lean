import MetricHistory.Settings.Number
import MetricHistory.Text.Blank
import MetricHistory.Text.Case

/-!
# Memory limits

A memory limit is a number with an optional unit, such as `512M`, `1.5 GB` or `1,024 KiB`.
Units count in powers of 1000, those with an `i` in powers of 1024.
-/

namespace MetricHistory

namespace Memory

/-- The letters of the units, each a thousand times the one before. -/
def letters : List Char := ['k', 'm', 'g', 't', 'p', 'e']

/-- The number of bytes of a unit spelled in small letters. -/
def unit? (t : Text) : Option Nat :=
  if t.isEmpty || t == [Text.byte 'b'] then some 1
  else
    letters.zipIdx.findSome? fun (c, i) =>
      let has (ending : String) : Bool := t == Text.byte c :: Text.ofString ending
      if has "" || has "b" then some (Nat.pow 1000 (i + 1))
      else if has "i" || has "ib" then some (Nat.pow 1024 (i + 1))
      else none

/-- A byte of the number in front of the unit. -/
def isNumberByte (b : UInt8) : Bool := Text.isDigit b || b == Text.byte '.' || b == Text.byte ','

/-- The number of bytes, as the nearest double; `none` when the text is no size or the size has
more than 64 bits. -/
def size? (t : Text) : Option Float := do
  let number := (t.takeWhile isNumberByte).filter (· != Text.byte ',')
  let x ← Settings.decimal? number
  let u ← unit? (Text.lower (Text.trim (t.dropWhile isNumberByte)))
  let size := x * Binary64.ofInt u
  if size < Binary64.ofInt (Nat.pow 2 64) then some size else none

/-- The text is a memory limit: a size, `-1` for no limit, or nothing. -/
def isLimit (t : Text) : Bool := t.isEmpty || t == Text.ofString "-1" || (size? t).isSome

end Memory

end MetricHistory
