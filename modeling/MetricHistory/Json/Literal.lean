import MetricHistory.Decimal.Binary64
import MetricHistory.Decimal.Shortest
import MetricHistory.Text.Basic

/-!
# Literals of the document format

Numbers and strings as they are spelled in a JSON text.

* `Literal.number?` and `Literal.string?` split the literal at the front of a text from the
  rest.
* `Literal.decimal?` reads a number literal as sign, coefficient and power of ten, exactly, and
  `Literal.float?` as a double.
* `Literal.unescape` gives the text a string literal stands for, and `Literal.escape` spells a
  text as a string literal.
-/

namespace MetricHistory

namespace Literal

/-- Blank space between tokens: space, tab, line feed, carriage return. -/
def isBlank (b : UInt8) : Bool := b == 32 || b == 9 || b == 10 || b == 13

/-! ### Numbers -/

/-- Splits the digits at the front from the rest. -/
def digitRun (t : Text) : Text × Text := (t.takeWhile Text.isDigit, t.dropWhile Text.isDigit)

/-- The parts of a number literal. -/
structure NumberParts where
  negative : Bool
  whole : Text
  fraction : Text
  exponentMark : Text
  exponent : Text
deriving DecidableEq, Repr

namespace NumberParts

/-- The spelling of the parts; a fraction and an exponent are written when they have digits. -/
def spelling (p : NumberParts) : Text :=
  let sign : Text := if p.negative then "-" else ""
  let fraction : Text := if p.fraction.isEmpty then "" else "." ++ p.fraction
  sign ++ p.whole ++ fraction ++ p.exponentMark ++ p.exponent

end NumberParts

/-- The digits before the point: a lone zero, or digits that do not start with one. -/
def whole? (t : Text) : Option (Text × Text) :=
  match t with
  | [] => none
  | b :: r =>
    if b = Text.byte '0' then some ([b], r)
    else if Text.isDigit b then some (digitRun t)
    else none

/-- The fraction at the front; a point without digits is refused. -/
def fraction? (t : Text) : Option (Text × Text) :=
  match t with
  | [] => some ([], t)
  | b :: r =>
    if b = Text.byte '.' then
      let (ds, r) := digitRun r
      if ds.isEmpty then none else some (ds, r)
    else some ([], t)

/-- The exponent at the front, as its mark with the sign and its digits. -/
def exponent? (t : Text) : Option (Text × Text × Text) :=
  match t with
  | [] => some ([], [], t)
  | b :: r =>
    if b = Text.byte 'e' ∨ b = Text.byte 'E' then
      let (mark, r) :=
        match r with
        | [] => ([b], r)
        | s :: r' => if s = Text.byte '+' ∨ s = Text.byte '-' then ([b, s], r') else ([b], r)
      let (ds, r) := digitRun r
      if ds.isEmpty then none else some (mark, ds, r)
    else some ([], [], t)

/-- Splits the number literal at the front of a text from the rest. -/
def numberParts? (t : Text) : Option (NumberParts × Text) := do
  let negative := t.head? == some (Text.byte '-')
  let (whole, t) ← whole? (if negative then t.drop 1 else t)
  let (fraction, t) ← fraction? t
  let (mark, exponent, t) ← exponent? t
  some (⟨negative, whole, fraction, mark, exponent⟩, t)

/-- The number literal at the front of a text, and the rest. -/
def number? (t : Text) : Option (Text × Text) :=
  (numberParts? t).map fun (p, rest) => (p.spelling, rest)

/-- The power of ten that the last digit counts for, when the exponent has the given size. -/
def NumberParts.powerFor (p : NumberParts) (size : Nat) : Int :=
  (if p.exponentMark.contains (Text.byte '-') then -(size : Int) else size) - p.fraction.length

/-- A number literal as sign, coefficient and power of ten; `size` reads the digits of the
exponent. -/
def decimalWith? (size : Text → Nat) (literal : Text) : Option (Bool × Nat × Int) := do
  let (p, rest) ← numberParts? literal
  if !rest.isEmpty then none
  else
    let coefficient ← Text.nat? (p.whole ++ p.fraction)
    some (p.negative, coefficient, p.powerFor (size p.exponent))

/-- The exact value of a number literal: sign, coefficient, power of ten. -/
def decimal? (literal : Text) : Option (Bool × Nat × Int) :=
  decimalWith? (fun digits => (Text.nat? digits).getD 0) literal

/-- The double that a number literal is read as, the nearest one; `none` when it is beyond the
largest double.  Exponent and digits are taken as far as they are read for a double. -/
def float? (literal : Text) : Option Float := do
  let (p, _) ← numberParts? literal
  let (negative, coefficient, exponent) ← decimalWith? Binary64.exponentSize literal
  Binary64.ofDigits? negative p.fraction.length coefficient exponent

/-- The integer a literal spells without fraction and exponent, when it has 64 bits. -/
def int64? (literal : Text) : Option Int := do
  let i ← Text.int? literal
  if minInt64 ≤ i ∧ i ≤ maxInt64 then some i else none

/-- The value of a number literal is whole. -/
def isWhole (coefficient : Nat) (exponent : Int) : Bool :=
  0 ≤ exponent || coefficient == 0 ||
    ((Nat.toDigits 10 coefficient).length > (-exponent).toNat &&
      coefficient % Nat.pow 10 (-exponent).toNat == 0)

/-! ### Strings -/

/-- The value of four hexadecimal digits at the front, and the rest. -/
def hex4? (t : Text) : Option (Nat × Text) :=
  match t with
  | a :: b :: c :: d :: r => (Text.digits? 16 [a, b, c, d]).map (·, r)
  | _ => none

/-- The byte a one-letter escape stands for. -/
def shortEscape? (b : UInt8) : Option UInt8 :=
  if b = Text.byte '"' ∨ b = Text.byte '\\' ∨ b = Text.byte '/' then some b
  else if b = Text.byte 'b' then some 8
  else if b = Text.byte 'f' then some 12
  else if b = Text.byte 'n' then some 10
  else if b = Text.byte 'r' then some 13
  else if b = Text.byte 't' then some 9
  else none

/-- The body of the string literal whose opening quote was just read, and what follows its
closing quote.  A control character and an unknown escape are refused. -/
def body? : Text → Option (Text × Text)
  | [] => none
  | b :: t =>
    if b = Text.byte '"' then some ([], t)
    else if b < 32 then none
    else if b = Text.byte '\\' then
      match t with
      | [] => none
      | e :: t =>
        if e = Text.byte 'u' then
          match t with
          | w :: x :: y :: z :: t =>
            if (Text.digits? 16 [w, x, y, z]).isSome then
              (body? t).map fun (s, r) => (b :: e :: w :: x :: y :: z :: s, r)
            else none
          | _ => none
        else if (shortEscape? e).isSome then (body? t).map fun (s, r) => (b :: e :: s, r)
        else none
    else (body? t).map fun (s, r) => (b :: s, r)

/-- The first code unit of a pair, and the second. -/
def isHighSurrogate (n : Nat) : Bool := 0xD800 ≤ n && n < 0xDC00

/-- The second code unit of a pair. -/
def isLowSurrogate (n : Nat) : Bool := 0xDC00 ≤ n && n < 0xE000

/-- The character of a code unit that is no part of a pair; half a pair becomes U+FFFD. -/
def unitChar (n : Nat) : Char :=
  if isHighSurrogate n || isLowSurrogate n then Utf8.replacement else Char.ofNat n

/-- The bytes a literal body stands for.  `fuel` bounds the length of the body. -/
def unescapeBytes : Nat → Text → Text
  | 0, _ => []
  | _, [] => []
  | fuel + 1, b :: t =>
    if b = Text.byte '\\' then
      match t with
      | [] => []
      | e :: t =>
        if e = Text.byte 'u' then
          match hex4? t with
          | none => []
          | some (n, t) =>
            let low? : Option (Nat × Text) := do
              let t ← Text.after? "\\u" t
              let (m, t) ← hex4? t
              if isHighSurrogate n && isLowSurrogate m then some (m, t) else none
            match low? with
            | some (m, t) =>
              Utf8.encode (Char.ofNat (0x10000 + (n - 0xD800) * 0x400 + (m - 0xDC00))) ++
                unescapeBytes fuel t
            | none => Utf8.encode (unitChar n) ++ unescapeBytes fuel t
        else (shortEscape? e).getD e :: unescapeBytes fuel t
    else b :: unescapeBytes fuel t

/-- The text a literal body stands for, with U+FFFD for each stray byte. -/
def unescape (body : Text) : Text := Utf8.repair (unescapeBytes body.length body)

/-- How a character is spelled in a string literal.  Quotes, backslashes, control characters
and the two Unicode line separators are always escaped; `<`, `>` and `&` when the literal is
made safe for markup. -/
def escapeChar (markupSafe : Bool) (c : Char) : Text :=
  let n := c.toNat
  let unit : Text := "\\u" ++ Text.hex [UInt8.ofNat (n / 256), UInt8.ofNat (n % 256)]
  if c = '"' then "\\\""
  else if c = '\\' then "\\\\"
  else if c = '\n' then "\\n"
  else if c = '\r' then "\\r"
  else if c = '\t' then "\\t"
  else if n = 8 then "\\b"
  else if n = 12 then "\\f"
  else if n < 32 ∨ n = 0x2028 ∨ n = 0x2029 then unit
  else if markupSafe && (c == '<' || c == '>' || c == '&') then unit
  else Utf8.encode c

/-- How a piece of a text is spelled in a string literal; a stray byte as an escaped U+FFFD. -/
def escapePiece (markupSafe : Bool) : Utf8.Piece → Text
  | .char c => escapeChar markupSafe c
  | .stray _ => "\\ufffd"

/-- The body of a string literal for a text. -/
def escape (markupSafe : Bool) (t : Text) : Text :=
  (Utf8.pieces t).flatMap (escapePiece markupSafe)

end Literal

end MetricHistory
