import MetricHistory.Text.Basic

/-!
# Letter case in comparisons with ASCII words

Keywords, file extensions and document keys are compared with ASCII words regardless of case.
Two characters outside ASCII have an ASCII small letter, and two belong to the case orbit of an
ASCII letter; no other character can take part in a match.

* `Text.lower` maps each character to its small letter, as far as that is ASCII.
* `Text.fold` maps each character to the ASCII capital of its case orbit.
-/

namespace MetricHistory

namespace Text

/-- The small letter of a character whose small letter is ASCII; any other character stays as
it is.  Outside ASCII these are the dotted capital I and the Kelvin sign. -/
def lowerChar (c : Char) : Char :=
  if 'A' ≤ c ∧ c ≤ 'Z' then Char.ofNat (c.toNat + 32)
  else if c.toNat = 0x130 then 'i'
  else if c.toNat = 0x212A then 'k'
  else c

/-- The text with small letters, as far as they are ASCII. -/
def lower (t : Text) : Text := Utf8.ofChars ((Utf8.chars t).map lowerChar)

/-- The ASCII capital of a character's case orbit; any other character stays as it is.  Outside
ASCII the long s and the Kelvin sign have one. -/
def foldChar (c : Char) : Char :=
  if 'a' ≤ c ∧ c ≤ 'z' then Char.ofNat (c.toNat - 32)
  else if c.toNat = 0x17F then 'S'
  else if c.toNat = 0x212A then 'K'
  else c

/-- The text with the ASCII capitals of case orbits. -/
def fold (t : Text) : Text := Utf8.ofChars ((Utf8.chars t).map foldChar)

/-- The text equals an ASCII word up to letter case. -/
def equalFold (t word : Text) : Bool := fold t == fold word

end Text

end MetricHistory
