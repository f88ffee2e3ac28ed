import MetricHistory.Text.Printable

/-!
# Quoted texts

A quoted text stands between double quotes.  Printable characters are shown as they are, quotes
and backslashes behind a backslash, the usual control characters by a letter, and everything
else by its number: a stray byte and a control character as two hexadecimal digits, other
characters as four or eight.
-/

namespace MetricHistory

namespace Text

/-- The letter that stands for a control character behind a backslash. -/
def controlLetter? (n : Nat) : Option Char :=
  match n with
  | 7 => some 'a'
  | 8 => some 'b'
  | 9 => some 't'
  | 10 => some 'n'
  | 11 => some 'v'
  | 12 => some 'f'
  | 13 => some 'r'
  | _ => none

/-- The low `count` bytes of a number in hexadecimal notation, the highest first. -/
def hexOf (count n : Nat) : Text :=
  hex ((List.range count).reverse.map fun i => UInt8.ofNat (n / Nat.pow 256 i % 256))

/-- How a character is shown between quotes. -/
def quoteChar (c : Char) : Text :=
  let n := c.toNat
  if c = '"' ∨ c = '\\' then [byte '\\', byte c]
  else if isPrintable c then Utf8.encode c
  else
    match controlLetter? n with
    | some letter => [byte '\\', byte letter]
    | none =>
      if n < 0x20 ∨ n = 0x7F then "\\x" ++ hexOf 1 n
      else if n < 0x10000 then "\\u" ++ hexOf 2 n
      else "\\U" ++ hexOf 4 n

/-- How a piece of a text is shown between quotes. -/
def quotePiece : Utf8.Piece → Text
  | .char c => quoteChar c
  | .stray b => "\\x" ++ hexByte b

/-- The text between double quotes. -/
def quoted (t : Text) : Text := "\"" ++ (Utf8.pieces t).flatMap quotePiece ++ "\""

end Text

end MetricHistory
