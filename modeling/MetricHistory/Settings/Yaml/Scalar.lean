import MetricHistory.Settings.Basic

/-!
# Scalars of YAML texts

The ways a text is written in YAML: between quotes, plain, and as a block of indented lines.
Line ends inside a quoted or plain scalar are folded: one line end becomes a space, more of them
become one line feed less.

* `Yaml.doubleQuoted` and `Yaml.singleQuoted` read up to the closing quote.
* `Yaml.plainRun` reads a plain scalar up to the end of its line, `Yaml.plainLines` goes on
  over the following lines.
* `Yaml.blockScalar?` reads a block with its header.
-/

namespace MetricHistory

namespace Yaml

/-- A space or a tab. -/
def isSpace (c : Char) : Bool := c == ' ' || c == '\t'

/-- A space, a tab or a line feed. -/
def isBlank (c : Char) : Bool := isSpace c || c == '\n'

/-- A blank character or nothing comes next. -/
def blankNext (cs : List Char) : Bool := cs.head?.all isBlank

/-- A character that divides flow collections. -/
def isFlowMark (c : Char) : Bool := c == ',' || c == '[' || c == ']' || c == '\x7b' || c == '\x7d'

/-- The characters without the blanks at their end. -/
def trimEnd (cs : List Char) : List Char := (cs.reverse.dropWhile isSpace).reverse

/-- What `breaks` line ends between two lines of a scalar become. -/
def folded (breaks : Nat) : List Char :=
  if breaks = 1 then [' '] else List.replicate (breaks - 1) '\n'

/-- The blank run at the front: the line ends in it, the spaces behind the last one, and the
rest. -/
def blankRun (breaks spaces : Nat) : List Char → Nat × Nat × List Char
  | ' ' :: r => blankRun breaks (spaces + 1) r
  | '\t' :: r => blankRun breaks (spaces + 1) r
  | '\n' :: r => blankRun (breaks + 1) 0 r
  | cs => (breaks, spaces, cs)

/-! ### Quoted scalars -/

/-- The characters of a one-letter escape. -/
def escape? : Char → Option Char
  | '0' => some (Char.ofNat 0)
  | 'a' => some (Char.ofNat 7)
  | 'b' => some (Char.ofNat 8)
  | 't' => some '\t'
  | '\t' => some '\t'
  | 'n' => some '\n'
  | 'v' => some (Char.ofNat 11)
  | 'f' => some (Char.ofNat 12)
  | 'r' => some '\r'
  | 'e' => some (Char.ofNat 27)
  | ' ' => some ' '
  | '"' => some '"'
  | '\'' => some '\''
  | '/' => some '/'
  | '\\' => some '\\'
  | 'N' => some (Char.ofNat 0x85)
  | '_' => some (Char.ofNat 0xA0)
  | 'L' => some (Char.ofNat 0x2028)
  | 'P' => some (Char.ofNat 0x2029)
  | _ => none

/-- The number of hexadecimal digits behind an escape letter. -/
def escapeDigits? : Char → Option Nat
  | 'x' => some 2
  | 'u' => some 4
  | 'U' => some 8
  | _ => none

/-- The character with `n` hexadecimal digits at the front. -/
def hexChar? (n : Nat) (cs : List Char) : Option (Char × List Char) :=
  let ds := cs.take n
  if ds.length != n then none
  else (Text.digits? 16 (Utf8.ofChars ds)).bind fun v =>
    if v.isValidChar then some (Char.ofNat v, cs.drop n) else none

/-- A blank run inside quotes: folded when it holds line ends, else kept. -/
def quotedBlank (cs : List Char) : List Char × List Char :=
  let (breaks, _, rest) := blankRun 0 0 cs
  if breaks = 0 then (cs.takeWhile isSpace, rest) else (folded breaks, rest)

/-- The characters up to a closing double quote, and what follows it.  `fuel` bounds them. -/
def doubleQuoted : Nat → List Char → Option (List Char × List Char)
  | 0, _ => none
  | fuel + 1, cs =>
    match cs with
    | [] => none
    | '"' :: rest => some ([], rest)
    | '\\' :: '\n' :: rest => doubleQuoted fuel (blankRun 0 0 rest).2.2
    | '\\' :: e :: rest => do
      let (c, rest) ←
        match escapeDigits? e with
        | some n => hexChar? n rest
        | none => (escape? e).map (·, rest)
      let (s, r) ← doubleQuoted fuel rest
      some (c :: s, r)
    | c :: rest =>
      if isBlank c then
        let (blank, rest) := quotedBlank cs
        (doubleQuoted fuel rest).map fun (s, r) => (blank ++ s, r)
      else (doubleQuoted fuel rest).map fun (s, r) => (c :: s, r)

/-- The characters up to a closing single quote, and what follows it; a quote is written
twice.  `fuel` bounds them. -/
def singleQuoted : Nat → List Char → Option (List Char × List Char)
  | 0, _ => none
  | fuel + 1, cs =>
    match cs with
    | [] => none
    | '\'' :: '\'' :: rest => (singleQuoted fuel rest).map fun (s, r) => ('\'' :: s, r)
    | '\'' :: rest => some ([], rest)
    | c :: rest =>
      if isBlank c then
        let (blank, rest) := quotedBlank cs
        (singleQuoted fuel rest).map fun (s, r) => (blank ++ s, r)
      else (singleQuoted fuel rest).map fun (s, r) => (c :: s, r)

/-- The scalar behind an opening quote. -/
def quoted? (quote : Char) (cs : List Char) : Option (List Char × List Char) :=
  if quote = '"' then doubleQuoted (cs.length + 1) cs else singleQuoted (cs.length + 1) cs

/-! ### Plain scalars -/

/-- The characters of a plain scalar on one line, and the rest.  It ends before a colon that is
followed by a blank, before a comment, and in a flow collection before one of its marks. -/
def plainRun (flow blankBefore : Bool) : List Char → List Char × List Char
  | [] => ([], [])
  | c :: r =>
    let ends := c == '\n' || (c == ':' && (blankNext r || (flow && r.head?.any isFlowMark))) ||
      (c == '#' && blankBefore) || (flow && isFlowMark c)
    if ends then ([], c :: r)
    else
      let (s, rest) := plainRun flow (isSpace c) r
      (c :: s, rest)

/-- A plain scalar may start here. -/
def plainStarts (flow : Bool) (cs : List Char) : Bool :=
  match cs with
  | [] => false
  | c :: r =>
    if c = '-' then !blankNext r && !(flow && r.head?.any isFlowMark)
    else if c = '?' ∨ c = ':' then !flow && !blankNext r
    else !("#,[]\x7b\x7d&*!|>'\"%@`".toList.contains c) && !isBlank c

/-- The lines that continue a plain scalar: those indented deeper than `parent`, or all in a
flow collection.  `fuel` bounds the lines. -/
def plainLines (flow : Bool) (parent : Int) : Nat → List Char → List Char × List Char
  | 0, cs => ([], cs)
  | fuel + 1, cs =>
    let (breaks, spaces, rest) := blankRun 0 0 cs
    let (line, rest') := plainRun flow true rest
    if breaks = 0 ∨ line.isEmpty ∨ (¬flow ∧ (spaces : Int) ≤ parent) then ([], cs)
    else
      let (more, rest'') := plainLines flow parent fuel rest'
      (folded breaks ++ trimEnd line ++ more, rest'')

/-! ### Block scalars -/

/-- What happens to the line ends behind a block. -/
inductive Chomping where
  | strip
  | clip
  | keep
deriving DecidableEq

/-- The header of a block behind its mark: chomping and indentation in either order. -/
def blockHeader? (cs : List Char) : Option (Chomping × Option Nat × List Char) :=
  let line := cs.takeWhile (· != '\n')
  let marks := line.takeWhile fun c => !isSpace c
  let tail := (line.drop marks.length).dropWhile isSpace
  let chomping := if marks.contains '-' then .strip else if marks.contains '+' then .keep else .clip
  let digits := marks.filter Char.isDigit
  let digit := digits.head?.map fun c => c.toNat - 48
  let signs := marks.filter fun c => c == '-' || c == '+'
  if marks.length = digits.length + signs.length ∧ digits.length ≤ 1 ∧ signs.length ≤ 1 ∧
      digit ≠ some 0 ∧ (tail.isEmpty ∨ tail.head? = some '#') then
    some (chomping, digit, (cs.drop line.length).drop 1)
  else none

/-- The leading spaces of a line. -/
def indentOf (line : List Char) : Nat := (line.takeWhile (· == ' ')).length

/-- The indentation of a block: that of its first line with text, or of a longer blank line
before it, and deeper than its parent. -/
def blockIndent (parent : Int) : List (List Char) → Nat
  | [] => max 1 (parent + 1).toNat
  | line :: rest =>
    if line.all (· == ' ') then max line.length (blockIndent parent rest)
    else max (indentOf line) (max 1 (parent + 1).toNat)

/-- The lines of a block without their indentation, and the lines behind it. -/
def blockLines (indent : Nat) : List (List Char) → List (List Char) × List (List Char)
  | [] => ([], [])
  | line :: rest =>
    if indent ≤ indentOf line ∨ line.all (· == ' ') then
      let (ls, r) := blockLines indent rest
      (line.drop indent :: ls, r)
    else ([], line :: rest)

/-- Where the text of a block stands: what has been written, whether a line end is pending,
whether the last line started with a blank, and the empty lines since. -/
structure BlockState where
  written : List Char := []
  pending : Bool := false
  deep : Bool := false
  empty : Nat := 0

/-- Adds a line to a block.  Between two lines that start at the margin a folded block has a
space in the place of the line end. -/
def BlockState.add (literal : Bool) (s : BlockState) (line : List Char) : BlockState :=
  match line with
  | [] => { s with empty := s.empty + 1 }
  | c :: _ =>
    let deep := isSpace c
    let joint : List Char :=
      if !s.pending then []
      else if !literal && !s.deep && !deep then if s.empty = 0 then [' '] else []
      else ['\n']
    { written := s.written ++ joint ++ List.replicate s.empty '\n' ++ line
      pending := true, deep := deep, empty := 0 }

/-- The text of a block. -/
def blockText (literal : Bool) (chomping : Chomping) (ended : Bool) (lines : List (List Char)) :
    List Char :=
  let s := lines.foldl (BlockState.add literal) {}
  let last : List Char := if s.pending && (ended || s.empty != 0) then ['\n'] else []
  match chomping with
  | .strip => s.written
  | .clip => s.written ++ last
  | .keep => s.written ++ last ++ List.replicate s.empty '\n'

/-- The parts of the characters separated by line feeds. -/
def linesOf : List Char → List (List Char)
  | [] => [[]]
  | '\n' :: cs => [] :: linesOf cs
  | c :: cs =>
    match linesOf cs with
    | [] => [[c]]
    | l :: ls => (c :: l) :: ls

/-- Reads a block scalar behind its mark.  `parent` is the indentation around it. -/
def blockScalar? (literal : Bool) (parent : Int) (cs : List Char) :
    Option (List Char × List Char) := do
  let (chomping, digit, rest) ← blockHeader? cs
  let all := linesOf rest
  let ended := all.getLast? == some []
  let lines := if ended then all.dropLast else all
  let indent := match digit with
    | some d => (max parent 0).toNat + d
    | none => blockIndent parent lines
  let (block, behind) := blockLines indent lines
  let restText := ['\n'].intercalate behind ++ (if ended && !behind.isEmpty then ['\n'] else [])
  some (blockText literal chomping (ended || !behind.isEmpty) block, restText)

end Yaml

end MetricHistory
