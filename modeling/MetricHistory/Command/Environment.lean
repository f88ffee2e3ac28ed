import MetricHistory.FileSystem.Task
import MetricHistory.Text.Blank
import MetricHistory.Text.Quoted

/-!
# Environment files

An environment file sets variables, one on a line: `NAME=value`.  A value may stand in quotes,
`export` may stand in front, and `#` starts a comment.

* `Environment.parse` reads the assignments of a file.
* `Environment.load` adds them to the variables that are set; those that are set stay.
-/

namespace MetricHistory

/-- Variables with their values. -/
abbrev Environment := List (Text × Text)

namespace Environment

/-- The value of a variable, empty when it is not set. -/
def value (env : Environment) (name : Text) : Text := (env.lookup name).getD []

/-- The byte is white space within a line. -/
def isLineSpace (b : UInt8) : Bool := b == 32 || b == 9 || b == 11 || b == 12 || b == 13

/-- The byte is white space. -/
def isAnySpace (b : UInt8) : Bool := isLineSpace b || b == 10

/-- The byte can be part of a name. -/
def isNameByte (b : UInt8) : Bool :=
  Text.isDigit b || (65 ≤ b && b ≤ 90) || (97 ≤ b && b ≤ 122) || b == 95 || b == 46

/-- Removes white space within a line at both ends. -/
def trimLine (t : Text) : Text :=
  ((t.dropWhile isLineSpace).reverse.dropWhile isLineSpace).reverse

/-- Skips white space and comments.  `fuel` bounds the number of comments. -/
def skipComments : Nat → Text → Text
  | 0, t => t
  | fuel + 1, t =>
    let t : Text := t.dropWhile isAnySpace
    if t.head? == some (Text.byte '#') then skipComments fuel (t.dropWhile (· != 10)) else t

/-- Removes `export` in front of a name. -/
def dropExport (t : Text) : Text :=
  match Text.after? "export" t with
  | some rest => if rest.head?.any isLineSpace then rest.dropWhile isLineSpace else t
  | none => t

/-- What is said of a byte that cannot stand in a name. -/
def badName (b : UInt8) (t : Text) : Failure :=
  .other ("unexpected character " ++ Text.quoted [b] ++ " in variable name near " ++ t.quoted)

/-- The name in front of a value, and what follows it.  Without a sign there is no name. -/
def name (t : Text) : Except Failure (Text × Text) :=
  let isSign (b : UInt8) : Bool := b == Text.byte '=' || b == Text.byte ':'
  let before := t.takeWhile fun b => !isSign b
  match before.find? fun b => !isNameByte b && !isLineSpace b with
  | some b => .error (badName b t)
  | none =>
    match t.dropWhile fun b => !isSign b with
    | [] => .ok ([], t.dropWhile isLineSpace)
    | _ :: rest => .ok (trimLine before, rest.dropWhile isLineSpace)

/-- Cuts off a comment, which starts with `#` after white space. -/
def dropComment (previous : UInt8) : Text → Text
  | [] => []
  | b :: t =>
    if b == Text.byte '#' && isLineSpace previous then [] else b :: dropComment b t

/-- The byte can be part of the name of a variable that is replaced by its value. -/
def isVariableByte (b : UInt8) : Bool := Text.isDigit b || (65 ≤ b && b ≤ 90) || b == 95

/-- Replaces `$NAME` by its value, with or without braces.  `fuel` bounds the length. -/
def expand (vars : Environment) : Nat → Text → Text
  | 0, t => t
  | _, [] => []
  | fuel + 1, b :: t =>
    if b == Text.byte '\\' && t.head? == some (Text.byte '$') then
      Text.byte '$' :: expand vars fuel (t.drop 1)
    else if b == Text.byte '$' then
      let braced := t.head? == some (Text.byte '{')
      let rest := if braced then t.drop 1 else t
      let named := rest.takeWhile isVariableByte
      let left := rest.drop named.length
      let left := if left.head? == some (Text.byte '}') then left.drop 1 else left
      if named.isEmpty then b :: expand vars fuel t
      else vars.value named ++ expand vars fuel left
    else b :: expand vars fuel t

/-- Replaces the escapes of a value in double quotes. -/
def unescape : Text → Text
  | 92 :: 110 :: t => 10 :: unescape t
  | 92 :: 114 :: t => 13 :: unescape t
  | 92 :: 36 :: t => 92 :: 36 :: unescape t
  | 92 :: b :: t => b :: unescape t
  | b :: t => b :: unescape t
  | [] => []

/-- The text up to a quote that no backslash stands before, and what follows it. -/
def quotedPart? (quote previous : UInt8) : Text → Option (Text × Text)
  | [] => none
  | b :: t =>
    if b == quote && previous != Text.byte '\\' then some ([], t)
    else (quotedPart? quote b t).map fun (part, rest) => (b :: part, rest)

/-- The value in front of a text, and what follows it. -/
def valueAt (vars : Environment) (t : Text) : Except Failure (Text × Text) :=
  match t with
  | [] => .ok ([], [])
  | q :: inner =>
    if q == Text.byte '"' || q == Text.byte '\'' then
      match quotedPart? q q inner with
      | none => .error (.other ("unterminated quoted value " ++ t.takeWhile (· != 10)))
      | some (part, rest) =>
        if q == Text.byte '"' then
          let plain := unescape part
          .ok (expand vars plain.length plain, rest)
        else .ok (part, rest)
    else
      let isEnd (b : UInt8) : Bool := b == 10 || b == 13
      let line := t.takeWhile fun b => !isEnd b
      let plain := trimLine (dropComment 0 line)
      .ok (expand vars plain.length plain, t.dropWhile fun b => !isEnd b)

/-- The assignments from a place on, after those that are known.  `fuel` bounds their number. -/
def parseFrom : Nat → Environment → Text → Except Failure Environment
  | 0, vars, _ => .ok vars
  | fuel + 1, vars, t =>
    let t := skipComments t.length t
    if t.isEmpty then .ok vars
    else do
      let (key, rest) ← name (dropExport t)
      let (v, rest) ← valueAt vars rest
      parseFrom fuel ((key, v) :: vars) rest

/-- The assignments of a file, the last one first. -/
def parse (content : Text) : Except Failure Environment :=
  parseFrom (content.length + 1) [] content

/-- Adds assignments to the variables that are set; those that are set stay. -/
def adopt (env new : Environment) : Environment :=
  new.foldr (fun (key, _) env =>
    if (env.lookup key).isSome then env else env ++ [(key, new.value key)]) env

/-- Loads environment files in order.  Files without a name and files that are missing are
passed over. -/
def load (env : Environment) : List Text → FileTask Environment
  | [] => return env
  | path :: rest => do
    if path.isEmpty then load env rest
    else
      let fs ← get
      match (Files.read path).run fs with
      | (.error e, _) =>
        if e.errno == .noEntry then load env rest
        else throw (.during ("failed to load " ++ path) (.file e))
      | (.ok content, _) =>
        match parse content with
        | .error f => throw (.during ("failed to load " ++ path) f)
        | .ok new => load (env.adopt new) rest

end Environment

end MetricHistory
