import MetricHistory.Text.Utf8

/-!
# Shortening texts

`Text.take?` keeps a number of bytes and `Text.truncate` a number of characters.  A text that
fits is kept as it is; a text that is cut shows U+FFFD for its stray bytes.
-/

namespace MetricHistory

namespace Text

/-- The first `n` bytes; `none` when `n` is negative. -/
def take? (n : Int) (t : Text) : Option Text :=
  if n < 0 then none else some (t.take n.toNat)

/-- The first `n` characters. -/
def truncate (n : Nat) (t : Text) : Text :=
  let cs := Utf8.chars t
  if cs.length ≤ n then t else Utf8.ofChars (cs.take n)

/-- The first `n` characters; `none` when `n` is negative. -/
def truncate? (n : Int) (t : Text) : Option Text :=
  if n < 0 then none else some (t.truncate n.toNat)

end Text

end MetricHistory
