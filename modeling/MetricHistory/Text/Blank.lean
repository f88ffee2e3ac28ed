import MetricHistory.Text.Basic

/-!
# White space

`Text.isBlank` is the Unicode property White_Space, and `Text.trim` removes the white space
around a text.  A stray byte is never white space.
-/

namespace MetricHistory

namespace Text

/-- The character has the Unicode property White_Space. -/
def isBlank (c : Char) : Bool :=
  let n := c.toNat
  (9 ≤ n && n ≤ 13) || n == 0x20 || n == 0x85 || n == 0xA0 || n == 0x1680 ||
    (0x2000 ≤ n && n ≤ 0x200A) || n == 0x2028 || n == 0x2029 || n == 0x202F || n == 0x205F ||
    n == 0x3000

/-- The piece is a white space character. -/
def blankPiece : Utf8.Piece → Bool
  | .char c => isBlank c
  | .stray _ => false

/-- The text without the white space around it. -/
def trim (t : Text) : Text :=
  Utf8.ofPieces ((((Utf8.pieces t).dropWhile blankPiece).reverse.dropWhile blankPiece).reverse)

end Text

end MetricHistory
