import MetricHistory.Text.Utf8

/-!
# Operations on texts

Cutting, joining, searching and comparing byte strings, and the decimal notation of integers.
A string literal stands for its UTF-8 bytes wherever a text is expected.
-/

namespace MetricHistory

namespace Text

/-- The UTF-8 bytes of a string. -/
def ofString (s : String) : Text := s.toList.flatMap Utf8.encode

instance : Coe String Text := ⟨ofString⟩

/-- The string a text shows, with U+FFFD for each stray byte. -/
def toString (t : Text) : String := String.ofList (Utf8.chars t)

/-- The byte of an ASCII character. -/
def byte (c : Char) : UInt8 := UInt8.ofNat c.toNat

/-! ### Cutting and joining -/

/-- Cuts a text at every occurrence of a byte.  There is always one part more than there are
occurrences. -/
def splitOn (sep : UInt8) : Text → List Text
  | [] => [[]]
  | b :: t =>
    if b = sep then [] :: splitOn sep t
    else
      match splitOn sep t with
      | [] => [[b]]
      | part :: parts => (b :: part) :: parts

/-- Cuts a text at the first occurrence of a byte. -/
def cut? (sep : UInt8) (t : Text) : Option (Text × Text) :=
  match t.dropWhile (· != sep) with
  | [] => none
  | _ :: rest => some (t.takeWhile (· != sep), rest)

/-- Cuts a text at the last occurrence of a byte. -/
def cutLast? (sep : UInt8) (t : Text) : Option (Text × Text) :=
  (cut? sep t.reverse).map fun (after, before) => (before.reverse, after.reverse)

/-- The parts of a text separated by line feeds. -/
def lines (t : Text) : List Text := splitOn 10 t

/-- Joins texts with a separator between neighbours. -/
def join (sep : Text) (parts : List Text) : Text := sep.intercalate parts

/-- `n` copies of a text. -/
def replicate (n : Nat) (t : Text) : Text := (List.replicate n t).flatten

/-! ### Searching -/

/-- The text starts with `p`. -/
def startsWith (t p : Text) : Bool := p.isPrefixOf t

/-- The text ends with `s`. -/
def endsWith (t s : Text) : Bool := s.isSuffixOf t

/-- What follows `p` when the text starts with it. -/
def after? (p t : Text) : Option Text := if t.startsWith p then some (t.drop p.length) else none

/-- Some part of the text is `u`. -/
def hasPart (u : Text) : Text → Bool
  | [] => u.isEmpty
  | b :: t => u.isPrefixOf (b :: t) || hasPart u t

/-- What stands before the first occurrence of `u`, and what behind it. -/
def cutAt? (u : Text) : Text → Option (Text × Text)
  | [] => none
  | b :: t =>
    if u.isPrefixOf (b :: t) then some ([], (b :: t).drop u.length)
    else (cutAt? u t).map fun (before, behind) => (b :: before, behind)

/-- Replaces every occurrence of a byte by a text. -/
def replaceByte (b : UInt8) (u t : Text) : Text := t.flatMap fun c => if c = b then u else [c]

/-- The number of occurrences of `u` that do not overlap, counted from the front. -/
def countParts (u : Text) (t : Text) : Nat :=
  go t.length t
where
  /-- Looks at one position at a time; `fuel` bounds the positions left. -/
  go : Nat → Text → Nat
    | 0, _ => 0
    | _, [] => 0
    | fuel + 1, b :: t =>
      if u.isPrefixOf (b :: t) && !u.isEmpty then 1 + go fuel ((b :: t).drop u.length)
      else go fuel t

/-! ### Order -/

/-- The order of texts by their bytes. -/
def le : Text → Text → Bool
  | [], _ => true
  | _ :: _, [] => false
  | a :: s, b :: t => a < b || (a == b && le s t)

/-- Texts in byte order. -/
def sort (ts : List Text) : List Text := ts.mergeSort le

/-! ### ASCII letters -/

/-- The lower case of an ASCII letter, any other byte as it is. -/
def lowerByte (b : UInt8) : UInt8 := if 65 ≤ b ∧ b ≤ 90 then b + 32 else b

/-- Replaces the ASCII capitals by small letters. -/
def lowerAscii (t : Text) : Text := t.map lowerByte

/-- The byte is an ASCII digit. -/
def isDigit (b : UInt8) : Bool := 48 ≤ b && b ≤ 57

/-! ### Integers -/

/-- The decimal digits of a natural number. -/
def ofNat (n : Nat) : Text := (Nat.toDigits 10 n).map byte

/-- The decimal notation of an integer. -/
def ofInt (i : Int) : Text :=
  if i < 0 then byte '-' :: ofNat i.natAbs else ofNat i.natAbs

/-- Decimal digits, filled up with zeros on the left to at least `width` places. -/
def ofNatPadded (width n : Nat) : Text :=
  let d := ofNat n
  List.replicate (width - d.length) (byte '0') ++ d

/-- The value of a digit byte in a base up to 36, letters counting in either case. -/
def digitValue? (base : Nat) (b : UInt8) : Option Nat :=
  let l := lowerByte b
  let v := if isDigit b then b.toNat - 48 else if 97 ≤ l ∧ l ≤ 122 then l.toNat - 87 else base
  if v < base then some v else none

/-- The value of a non-empty run of digits, `none` for anything else. -/
def digits? (base : Nat) (t : Text) : Option Nat :=
  if t.isEmpty then none
  else t.foldl (fun acc b => do return (← acc) * base + (← digitValue? base b)) (some 0)

/-- The value of a non-empty run of decimal digits. -/
def nat? (t : Text) : Option Nat := digits? 10 t

/-- An optional sign followed by decimal digits. -/
def int? (t : Text) : Option Int :=
  match t with
  | [] => none
  | b :: r =>
    if b = byte '-' then (nat? r).map fun n => -(n : Int)
    else if b = byte '+' then (nat? r).map Int.ofNat
    else (nat? t).map Int.ofNat

/-- Two hexadecimal digits. -/
def hexByte (b : UInt8) : Text :=
  let digit (n : Nat) : UInt8 := if n < 10 then UInt8.ofNat (48 + n) else UInt8.ofNat (87 + n)
  [digit (b.toNat / 16), digit (b.toNat % 16)]

/-- The bytes in hexadecimal notation, two small digits each. -/
def hex (t : Text) : Text := t.flatMap hexByte

end Text

end MetricHistory
