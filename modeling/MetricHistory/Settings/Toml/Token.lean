import MetricHistory.Calendar.Time
import MetricHistory.Settings.Basic

/-!
# Tokens of TOML texts

A TOML text alternates between two modes: where a key or a table header may start, and where a
value may start.  The mode after a token depends on the innermost open bracket.

* `Toml.Token` is the type of tokens.  Keys and headers keep the text of their parts; scalars
  are read into settings at once.
* `Toml.tokens?` cuts a text into tokens; `none` when some part of it is no token.
-/

namespace MetricHistory

namespace Toml

/-- A token.  Dates, times of day and offsets are separate tokens, which together may form one
moment. -/
inductive Token where
  | key (name : List Char)
  | header (name : List Char)
  | arrayHeader (name : List Char)
  | equals
  | comma
  | listOpen
  | listClose
  | tableOpen
  | tableClose
  | scalar (s : Setting)
  | date (t : Text)
  | time (t : Text)
  | offset (t : Text)

/-! ### Characters -/

/-- A space or a tab. -/
def isSpace (c : Char) : Bool := c == ' ' || c == '\t'

/-- A character of a key without quotes. -/
def isBare (c : Char) : Bool := c.isAlphanum || c == '_' || c == '-'

/-- What follows `p` when the characters start with it. -/
def after? (p : String) (cs : List Char) : Option (List Char) :=
  if p.toList.isPrefixOf cs then some (cs.drop p.length) else none

/-- Exactly `n` digits at the front. -/
def digits? (n : Nat) (cs : List Char) : Option (List Char × List Char) :=
  let ds := cs.take n
  if ds.length == n && ds.all Char.isDigit then some (ds, cs.drop n) else none

/-! ### Strings -/

/-- A character given by its number; a number without a character gives U+FFFD. -/
def charOf (n : Nat) : Char := if n.isValidChar then Char.ofNat n else Utf8.replacement

/-- The character with `n` hexadecimal digits at the front. -/
def hexChar? (n : Nat) (cs : List Char) : Option (Char × List Char) :=
  let ds := cs.take n
  if ds.length == n then
    (Text.digits? 16 (Utf8.ofChars ds)).map fun v => (charOf v, cs.drop n)
  else none

/-- The character of a one-letter escape. -/
def escape? : Char → Option Char
  | '"' => some '"'
  | '\\' => some '\\'
  | '/' => some '/'
  | 'n' => some '\n'
  | 't' => some '\t'
  | 'r' => some '\r'
  | 'b' => some (Char.ofNat 8)
  | 'f' => some (Char.ofNat 12)
  | _ => none

/-- Blank space that a backslash removes. -/
def isFolded (c : Char) : Bool := c == ' ' || c == '\t' || c == '\n' || c == '\r'

/-- The characters up to a closing quote and what follows it, escapes replaced.  Control
characters are refused, line ends only unless `multiline`.  `fuel` bounds the characters. -/
def basicString (quote : String) (multiline : Bool) :
    Nat → List Char → Option (List Char × List Char)
  | 0, _ => none
  | fuel + 1, cs =>
    match after? quote cs with
    | some rest => some ([], rest)
    | none =>
      let continue? (c : Char) (rest : List Char) :=
        (basicString quote multiline fuel rest).map fun (s, r) => (c :: s, r)
      match cs with
      | [] => none
      | '\\' :: e :: rest =>
        if isFolded e then basicString quote multiline fuel (rest.dropWhile isFolded)
        else if e = 'u' then (hexChar? 4 rest).bind fun (c, r) => continue? c r
        else if e = 'U' then (hexChar? 8 rest).bind fun (c, r) => continue? c r
        else (escape? e).bind fun c => continue? c rest
      | c :: rest =>
        let isBreak := c == '\n' || c == '\r'
        if c = '\\' ∨ (c.toNat < 0x20 ∧ c ≠ '\t' ∧ ¬(multiline ∧ isBreak)) then none
        else continue? c rest

/-- The characters up to a closing quote, taken as they are. -/
def literalString (quote : String) : List Char → Option (List Char × List Char)
  | [] => none
  | c :: cs =>
    match after? quote (c :: cs) with
    | some rest => some ([], rest)
    | none => (literalString quote cs).map fun (s, r) => (c :: s, r)

/-- A line end right behind the opening quotes does not count. -/
def dropLineEnd (cs : List Char) : List Char :=
  match cs with
  | '\r' :: '\n' :: r => r
  | '\n' :: r => r
  | _ => cs

/-- The string value whose opening quote was just read. -/
def stringValue (quote : Char) (cs : List Char) : Option (List Char × List Char) :=
  let three := String.ofList [quote, quote, quote]
  let one := String.ofList [quote]
  match after? (String.ofList [quote, quote]) cs with
  | some rest =>
    let rest := dropLineEnd rest
    if quote = '"' then basicString three true (rest.length + 1) rest else literalString three rest
  | none => if quote = '"' then basicString one false (cs.length + 1) cs else literalString one cs

/-! ### Keys -/

/-- The text of a key up to what cannot be part of it, quotes kept and escapes replaced.  A run
of spaces belongs to a key only before a point.  `fuel` bounds the characters. -/
def keyText : Nat → List Char → Option (List Char × List Char)
  | 0, _ => none
  | fuel + 1, cs =>
    match cs with
    | [] => some ([], [])
    | '=' :: _ => some ([], cs)
    | '"' :: rest => do
      let (s, r) ← basicString "\"" true (rest.length + 1) rest
      let (k, r) ← keyText fuel r
      some ('"' :: s ++ '"' :: k, r)
    | '\'' :: rest => do
      let (s, r) ← literalString "'" rest
      let (k, r) ← keyText fuel r
      some ('\'' :: s ++ '\'' :: k, r)
    | c :: rest =>
      if isSpace c then
        let more := rest.takeWhile isSpace
        match rest.dropWhile isSpace with
        | '.' :: r => do
          let (k, r') ← keyText fuel (r.dropWhile isSpace)
          some (' ' :: more ++ '.' :: r.takeWhile isSpace ++ k, r')
        | r => some ([], r)
      else if isBare c || c == '.' then (keyText fuel rest).map fun (k, r) => (c :: k, r)
      else none

/-- The name of a table header, whose opening brackets were just read. -/
def headerName (closing : String) (cs : List Char) : Option (List Char × List Char) :=
  let name := cs.takeWhile fun c => c != ']' && c != '['
  (after? closing (cs.drop name.length)).map (name, ·)

/-! ### Numbers and moments -/

/-- Underscores of a number stand behind a digit and not at the end. -/
def underscoresFit (isDigit : Char → Bool) (before : Bool) : List Char → Bool
  | [] => true
  | c :: cs =>
    if c = '_' then before && !cs.isEmpty && underscoresFit isDigit false cs
    else underscoresFit isDigit (isDigit c) cs

/-- A hexadecimal digit. -/
def isHexDigit (c : Char) : Bool := (Text.digitValue? 16 (Text.byte c)).isSome && c.toNat < 128

/-- A number without its underscores. -/
def digitsOf (cs : List Char) : Text := Utf8.ofChars (cs.filter (· != '_'))

/-- An integer of 64 bits, signed or not. -/
def integerOf (base : Nat) (negative : Bool) (ds : Text) : Option Setting :=
  (Text.digits? base ds).bind fun n =>
    let i : Int := if negative then -(n : Int) else n
    if minInt64 ≤ i ∧ i < Nat.pow 2 64 then some (.int i) else none

/-- An integer with a base mark, whose digits come next. -/
def basedInteger (mark : Char) (base : Nat) (cs : List Char) : Option (Setting × List Char) :=
  let isPart (c : Char) : Bool :=
    c == '_' || (c.toNat < 128 && (Text.digitValue? base (Text.byte c)).isSome)
  let part := cs.takeWhile isPart
  let digit := if base = 16 then isHexDigit else Char.isDigit
  if underscoresFit digit false ('0' :: mark :: part) then
    (integerOf base false (digitsOf part)).map (·, cs.drop part.length)
  else none

/-- The characters of a decimal number, and whether they make it a float.  Points need a digit
on both sides. -/
def decimalRun (point digit float : Bool) : List Char → Option (List Char × Bool × List Char)
  | [] => if digit then some ([], float, []) else none
  | c :: cs =>
    let more (point digit float : Bool) :=
      (decimalRun point digit float cs).map fun (s, f, r) => (c :: s, f, r)
    if c = '.' then
      if point || !digit || !(cs.head?.any Char.isDigit) then none else more true digit true
    else if c = 'e' ∨ c = 'E' then
      match cs with
      | s :: cs' =>
        if s = '+' ∨ s = '-' then
          (decimalRun point digit true cs').map fun (t, f, r) => (c :: s :: t, f, r)
        else more point digit true
      | [] => more point digit true
    else if c.isDigit then more point true float
    else if c = '_' then more point digit float
    else if digit then some ([], float, c :: cs)
    else none

/-- A decimal integer or a float.  An integer of three or more digits does not start with a
zero. -/
def decimalNumber (sign : List Char) (cs : List Char) : Option (Setting × List Char) := do
  let (run, float, rest) ← decimalRun false false false cs
  let spelled := sign ++ run
  if !underscoresFit Char.isDigit false spelled then none
  else if float then
    let x ← Settings.decimal? (digitsOf spelled)
    some (.float x, rest)
  else
    let ds := digitsOf run
    if sign.isEmpty && ds.length ≥ 3 && ds.head? == some (Text.byte '0') then none
    else
      let i ← integerOf 10 (sign == ['-']) ds
      some (i, rest)

/-- The infinite float with a sign. -/
def infinity (negative : Bool) : Float :=
  Float.ofBits (if negative then 0xFFF0000000000000 else 0x7FF0000000000000)

/-- The float that is not a number. -/
def notANumber : Float := Float.ofBits 0x7FF8000000000001

/-- A number at the front. -/
def number? (cs : List Char) : Option (Setting × List Char) :=
  match cs with
  | '0' :: 'x' :: r => basedInteger 'x' 16 r
  | '0' :: 'o' :: r => basedInteger 'o' 8 r
  | '0' :: 'b' :: r => basedInteger 'b' 2 r
  | '0' :: c :: _ => if c.isAlpha then none else decimalNumber [] cs
  | s :: r =>
    if s = '+' ∨ s = '-' then
      match after? "inf" r, after? "nan" r with
      | some r, _ => some (.float (infinity (s == '-')), r)
      | _, some r => some (.float notANumber, r)
      | _, _ => decimalNumber [s] r
    else decimalNumber [] cs
  | [] => none

/-- The fraction of a second, empty without a point. -/
def fraction? (cs : List Char) : Option (List Char × List Char) :=
  match cs with
  | '.' :: r =>
    let ds := r.takeWhile Char.isDigit
    if ds.isEmpty then none else some ('.' :: ds, r.dropWhile Char.isDigit)
  | _ => some ([], cs)

/-- A time of day: two digits of hour, minute and second, and a fraction. -/
def timeOfDay? (cs : List Char) : Option (Text × List Char) := do
  let (h, cs) ← digits? 2 cs
  let cs ← after? ":" cs
  let (m, cs) ← digits? 2 cs
  let cs ← after? ":" cs
  let (s, cs) ← digits? 2 cs
  let (f, cs) ← fraction? cs
  some (Utf8.ofChars (h ++ ':' :: m ++ ':' :: s ++ f), cs)

/-- The offset behind a time of day, if there is one. -/
def offset? (cs : List Char) : Option (List Token × List Char) :=
  match cs with
  | 'Z' :: r => some ([.offset "Z"], r)
  | s :: r =>
    if s = '+' ∨ s = '-' then do
      let (h, r) ← digits? 2 r
      let r ← after? ":" r
      let (m, r) ← digits? 2 r
      some ([.offset (Utf8.ofChars (s :: h ++ ':' :: m))], r)
    else some ([], cs)
  | [] => some ([], [])

/-- A date, the time of day that may follow it behind `T` or a space, and its offset.  Only a
space or the end of the text can follow a date that has no time. -/
def dateTime? (cs : List Char) : Option (List Token × List Char) := do
  let (y, r) ← digits? 4 cs
  let r ← after? "-" r
  let (m, r) ← digits? 2 r
  let r ← after? "-" r
  let (d, r) ← digits? 2 r
  let date := Token.date (Utf8.ofChars (y ++ '-' :: m ++ '-' :: d))
  let withTime (r : List Char) : Option (List Token × List Char) := do
    let (t, r) ← timeOfDay? r
    let (o, r) ← offset? r
    some (date :: .time t :: o, r)
  match r with
  | [] => some ([date], [])
  | 'T' :: r => withTime r
  | ' ' :: r' => if (digits? 2 r').isSome then withTime r' else some ([date], r)
  | _ => none

/-- A number, a date or a time of day, which all start with a digit. -/
def digitToken? (cs : List Char) : Option (List Token × List Char) :=
  if ((digits? 2 cs).bind fun (_, r) => after? ":" r).isSome then
    (timeOfDay? cs).map fun (t, r) => ([.time t], r)
  else if ((digits? 4 cs).bind fun (_, r) => after? "-" r).isSome then dateTime? cs
  else (number? cs).map fun (s, r) => ([.scalar s], r)

/-! ### The two modes -/

/-- An open bracket. -/
inductive Bracket where
  | list
  | table
deriving DecidableEq

/-- Where the reader stands: the open brackets, innermost first, and whether a value may come. -/
structure Mode where
  open_ : List Bracket := []
  value : Bool := false

/-- What stands at the front: tokens, the mode behind them, and the rest. -/
abbrev Step := List Token × Mode × List Char

/-- Drops a comment up to the end of its line. -/
def dropComment (cs : List Char) : List Char := cs.dropWhile (· != '\n')

/-- A closing brace, which has to match the innermost bracket. -/
def closeTable (m : Mode) (rest : List Char) : Option Step :=
  match m.open_ with
  | .table :: outer => some ([.tableClose], { open_ := outer, value := true }, rest)
  | _ => none

/-- Reads where a key may start. -/
def keyStep (m : Mode) (cs : List Char) : Option Step :=
  match cs with
  | [] => some ([], m, [])
  | '\x7d' :: r => closeTable m r
  | '[' :: '[' :: r =>
    (headerName "]]" r).map fun (name, r) => ([.arrayHeader name], m, r)
  | '[' :: r => (headerName "]" r).map fun (name, r) => ([.header name], m, r)
  | '#' :: r => some ([], m, dropComment r)
  | '=' :: r => some ([.equals], { m with value := true }, r)
  | c :: r =>
    if c = '\n' ∨ c = '\r' ∨ isSpace c then some ([], m, r)
    else (keyText (cs.length + 1) cs).map fun (k, r) => ([.key k], m, r)

/-- Reads where a value may start.  A line end leads back to keys, except inside a list. -/
def valueStep (m : Mode) (cs : List Char) : Option Step :=
  let innermost := m.open_.head?
  match cs with
  | [] => some ([], m, [])
  | '=' :: r => some ([.equals], m, r)
  | '[' :: r => some ([.listOpen], { m with open_ := .list :: m.open_ }, r)
  | ']' :: r =>
    if innermost = some .list then some ([.listClose], { m with open_ := m.open_.tail }, r)
    else none
  | '\x7b' :: r => some ([.tableOpen], { open_ := .table :: m.open_, value := false }, r)
  | '\x7d' :: r => closeTable m r
  | '#' :: r => some ([], m, dropComment r)
  | '"' :: r => (stringValue '"' r).map fun (s, r) => ([.scalar (.text (Utf8.ofChars s))], m, r)
  | '\'' :: r => (stringValue '\'' r).map fun (s, r) => ([.scalar (.text (Utf8.ofChars s))], m, r)
  | ',' :: r => some ([.comma], { m with value := innermost != some .table }, r)
  | c :: r =>
    let word? (w : String) (s : Setting) : Option Step :=
      (after? w cs).map fun r => ([.scalar s], m, r)
    if c = '\n' ∨ c = '\r' then some ([], { m with value := innermost == some .list }, r)
    else if isSpace c then some ([], m, r)
    else if c = '+' ∨ c = '-' then (number? cs).map fun (s, r) => ([.scalar s], m, r)
    else if c.isDigit then (digitToken? cs).map fun (ts, r) => (ts, m, r)
    else
      word? "true" (.bool true) <|> word? "false" (.bool false) <|>
        word? "inf" (.float (infinity false)) <|> word? "nan" (.float notANumber)

/-- The tokens from a position on.  `fuel` bounds the number of steps. -/
def tokensFrom : Nat → Mode → List Char → Option (List Token)
  | 0, _, _ => none
  | fuel + 1, m, cs =>
    if cs.isEmpty then some []
    else do
      let (ts, m, rest) ← if m.value then valueStep m cs else keyStep m cs
      let more ← tokensFrom fuel m rest
      some (ts ++ more)

/-- The byte order marks a text may start with. -/
def orderMarks : List Text :=
  [[0x00, 0x00, 0xFE, 0xFF], [0xFF, 0xFE, 0x00, 0x00], [0xEF, 0xBB, 0xBF], [0xFE, 0xFF],
    [0xFF, 0xFE]]

/-- Cuts a text into tokens, a byte order mark apart. -/
def tokens? (t : Text) : Option (List Token) :=
  let body :=
    match orderMarks.find? fun mark => t.startsWith mark with
    | some mark => t.drop mark.length
    | none => t
  let cs := Utf8.chars body
  tokensFrom (cs.length + 1) {} cs

end Toml

end MetricHistory
