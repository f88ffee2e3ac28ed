import MetricHistory.Settings.Yaml.Node
import MetricHistory.Settings.Yaml.Scalar

/-!
# Reading YAML texts

`Yaml.parse?` reads the first document of a YAML text into the entries of its table.  Block
collections are told apart by the column they start at, flow collections by their brackets.
Anchors, aliases and the tag of texts are understood; keys that are no scalars, directives and
the other tags are not.
-/

namespace MetricHistory

namespace Yaml

/-- A position: the text ahead, the column, whether only blanks stand before it on its line, and
the anchors set so far. -/
structure Cursor where
  ahead : List Char
  column : Nat := 0
  fresh : Bool := true
  anchors : List (List Char × Node) := []

/-- Skips blanks, line ends and comments.  Where a line of a block starts, a tab is refused. -/
def skipRun (flow comment tab fresh : Bool) (column : Nat) :
    List Char → Option (List Char × Nat × Bool)
  | [] => some ([], column, fresh)
  | c :: r =>
    if c = '\n' then skipRun flow false false true 0 r
    else if comment then skipRun flow true tab fresh (column + 1) r
    else if c = ' ' then skipRun flow false tab fresh (column + 1) r
    else if c = '\t' then skipRun flow false (tab || (fresh && !flow)) fresh (column + 1) r
    else if tab then none
    else if c = '#' then skipRun flow true false fresh (column + 1) r
    else some (c :: r, column, fresh)

namespace Cursor

/-- The next position that is neither blank nor part of a comment. -/
def skip (flow : Bool) (c : Cursor) : Option Cursor :=
  (skipRun flow false false c.fresh c.column c.ahead).map fun (ahead, column, fresh) =>
    { c with ahead := ahead, column := column, fresh := fresh }

/-- The position behind the next `n` characters of the line. -/
def advance (n : Nat) (c : Cursor) : Cursor :=
  { c with ahead := c.ahead.drop n, column := c.column + n, fresh := false }

/-- The same line at another text. -/
def goto (ahead : List Char) (c : Cursor) : Cursor := { c with ahead := ahead, fresh := false }

/-- Nothing is left. -/
def atEnd (c : Cursor) : Bool := c.ahead.isEmpty

/-- An entry of a block list starts here. -/
def atDash (c : Cursor) : Bool :=
  match c.ahead with
  | '-' :: r => blankNext r
  | _ => false

end Cursor

/-- The name behind an anchor, alias or tag mark. -/
def nameRun (flow : Bool) (cs : List Char) : List Char :=
  cs.takeWhile fun c => !isBlank c && !(flow && isFlowMark c)

/-- The node with a tag: under the tag of texts a plain scalar is a text. -/
def tagged? (tag : List Char) (n : Node) : Option Node :=
  if tag = "!str".toList ∨ tag = [] then
    match n with
    | .scalar _ t => some (.scalar false t)
    | _ => if tag = [] then some n else none
  else none

/-! ### Flow collections -/

mutual

/-- The node of a flow collection that starts here.  `fuel` bounds the depth and length. -/
def flowNode : Nat → Cursor → Option (Node × Cursor)
  | 0, _ => none
  | fuel + 1, c => do
    let c ← c.skip true
    match c.ahead with
    | '[' :: r => flowItems fuel [] (c.goto r)
    | '\x7b' :: r => flowEntries fuel [] (c.goto r)
    | '"' :: r => (quoted? '"' r).map fun (s, r) => (.scalar false (Utf8.ofChars s), c.goto r)
    | '\'' :: r => (quoted? '\'' r).map fun (s, r) => (.scalar false (Utf8.ofChars s), c.goto r)
    | '*' :: r =>
      let name := nameRun true r
      (c.anchors.find? fun (k, _) => k == name).map fun (_, n) => (n, c.goto (r.drop name.length))
    | '&' :: r => do
      let name := nameRun true r
      let (n, c) ← flowNode fuel (c.goto (r.drop name.length))
      some (n, { c with anchors := (name, n) :: c.anchors })
    | '!' :: r => do
      let tag := nameRun true r
      let (n, c) ← flowNode fuel (c.goto (r.drop tag.length))
      let n ← tagged? tag n
      some (n, c)
    | cs =>
      if plainStarts true cs then
        let (line, rest) := plainRun true false cs
        let (more, rest) := plainLines true 0 rest.length rest
        some (.scalar true (Utf8.ofChars (trimEnd line ++ more)), c.goto rest)
      else none

/-- The rest of a list in brackets, `done` being its elements so far in reverse. -/
def flowItems : Nat → List Node → Cursor → Option (Node × Cursor)
  | 0, _, _ => none
  | fuel + 1, done, c => do
    let c ← c.skip true
    match c.ahead with
    | ']' :: r => some (.list done.reverse, c.goto r)
    | _ =>
      let (n, c) ← flowNode fuel c
      let c ← c.skip true
      let (n, c) ←
        match c.ahead with
        | ':' :: r => do
          let (v, c) ← flowValue fuel (c.goto r)
          some (.table [(n, v)], c)
        | _ => some (n, c)
      match c.ahead with
      | ',' :: r => flowItems fuel (n :: done) (c.goto r)
      | ']' :: r => some (.list (n :: done).reverse, c.goto r)
      | _ => none

/-- The rest of a table in braces, `done` being its entries so far in reverse. -/
def flowEntries : Nat → List (Node × Node) → Cursor → Option (Node × Cursor)
  | 0, _, _ => none
  | fuel + 1, done, c => do
    let c ← c.skip true
    match c.ahead with
    | '\x7d' :: r => some (.table done.reverse, c.goto r)
    | _ =>
      let (k, c) ← flowNode fuel c
      let c ← c.skip true
      let (v, c) ←
        match c.ahead with
        | ':' :: r => flowValue fuel (c.goto r)
        | _ => some (Node.empty, c)
      match c.ahead with
      | ',' :: r => flowEntries fuel ((k, v) :: done) (c.goto r)
      | '\x7d' :: r => some (.table ((k, v) :: done).reverse, c.goto r)
      | _ => none

/-- The value behind a colon, which may be left out, and the next position. -/
def flowValue : Nat → Cursor → Option (Node × Cursor)
  | 0, _ => none
  | fuel + 1, c => do
    let c ← c.skip true
    if c.ahead.head?.any fun x => x == ',' || x == ']' || x == '\x7d' then some (Node.empty, c)
    else
      let (v, c) ← flowNode fuel c
      let c ← c.skip true
      some (v, c)

end

/-! ### Block collections -/

/-- The number of characters of a text that are left unread in `rest`. -/
def consumed (cs rest : List Char) : List Char := cs.take (cs.length - rest.length)

/-- A node that may be a key: a quoted, plain or flow node on one line, with the text behind it
and whether a colon follows.  `parent` is the indentation around it. -/
def simpleNode (parent : Int) (c : Cursor) : Option (Node × Bool × Cursor) := do
  let colonNext (cs : List Char) : Bool :=
    match cs.dropWhile isSpace with
    | ':' :: r => blankNext r
    | _ => false
  let closed (n : Node) (c' : Cursor) : Option (Node × Bool × Cursor) :=
    let isKey := colonNext c'.ahead
    if isKey && (consumed c.ahead c'.ahead).contains '\n' then none
    else some (n, isKey, if isKey then c'.goto ((c'.ahead.dropWhile isSpace).drop 1) else c')
  match c.ahead with
  | '"' :: r => do
    let (s, r) ← quoted? '"' r
    closed (.scalar false (Utf8.ofChars s)) (c.goto r)
  | '\'' :: r => do
    let (s, r) ← quoted? '\'' r
    closed (.scalar false (Utf8.ofChars s)) (c.goto r)
  | '[' :: _ | '\x7b' :: _ => do
    let (n, c') ← flowNode (2 * c.ahead.length + 2) c
    closed n c'
  | '*' :: r => do
    let name := nameRun false r
    let (_, n) ← c.anchors.find? fun (k, _) => k == name
    closed n (c.goto (r.drop name.length))
  | cs =>
    if !plainStarts false cs then none
    else
      let (line, rest) := plainRun false false cs
      match rest with
      | ':' :: r => some (.scalar true (Utf8.ofChars (trimEnd line)), true, c.goto r)
      | _ =>
        let (more, rest) := plainLines false parent rest.length rest
        match rest with
        | ':' :: _ => none
        | _ => some (.scalar true (Utf8.ofChars (trimEnd line ++ more)), false, c.goto rest)

mutual

/-- The node of a block below the indentation `parent`, empty when nothing is indented deeper.
On the line of its key a block collection starts only if `compact`. -/
def blockNode : Nat → Int → Bool → Cursor → Option (Node × Cursor)
  | 0, _, _, _ => none
  | fuel + 1, parent, compact, c => do
    let c ← c.skip false
    if c.atEnd || (c.fresh && (c.column : Int) ≤ parent) then some (Node.empty, c)
    else if c.atDash then
      if c.fresh || compact then blockList fuel c.column [] c else none
    else
      match c.ahead with
      | '|' :: r => blockText? c (blockScalar? true parent r)
      | '>' :: r => blockText? c (blockScalar? false parent r)
      | '&' :: r => do
        let name := nameRun false r
        let (n, c) ← blockNode fuel parent compact (c.advance (name.length + 1))
        some (n, { c with anchors := (name, n) :: c.anchors })
      | '!' :: r => do
        let tag := nameRun false r
        let (n, c) ← blockNode fuel parent compact (c.advance (tag.length + 1))
        let n ← tagged? tag n
        some (n, c)
      | _ => do
        let (n, isKey, c') ← simpleNode parent c
        if !isKey then some (n, c')
        else if c.fresh || compact then blockTable fuel c.column [] n c'
        else none
where
  /-- A block scalar with the position behind it, at the start of a line. -/
  blockText? (c : Cursor) (read : Option (List Char × List Char)) : Option (Node × Cursor) :=
    read.map fun (s, rest) =>
      (.scalar false (Utf8.ofChars s), { c with ahead := rest, column := 0, fresh := true })

/-- The rest of a block list whose dashes stand at `column`. -/
def blockList : Nat → Nat → List Node → Cursor → Option (Node × Cursor)
  | 0, _, _, _ => none
  | fuel + 1, column, done, c => do
    let (n, c) ← blockNode fuel column true (c.advance 1)
    let c ← c.skip false
    if c.atEnd || (c.fresh && c.column < column) then some (.list (n :: done).reverse, c)
    else if !c.fresh || column < c.column then none
    else if c.atDash then blockList fuel column (n :: done) c
    else some (.list (n :: done).reverse, c)

/-- The rest of a block table whose keys stand at `column`, behind the colon of a key. -/
def blockTable : Nat → Nat → List (Node × Node) → Node → Cursor → Option (Node × Cursor)
  | 0, _, _, _, _ => none
  | fuel + 1, column, done, key, c => do
    let c ← c.skip false
    let (v, c) ←
      if c.fresh && c.column == column && c.atDash then blockList fuel column [] c
      else blockNode fuel column false c
    let done := (key, v) :: done
    let c ← c.skip false
    if c.atEnd || (c.fresh && c.column < column) then some (.table done.reverse, c)
    else if !c.fresh || column < c.column || c.atDash then none
    else do
      let (key, isKey, c) ← simpleNode column c
      if isKey then blockTable fuel column done key c else none

end

/-! ### Documents -/

/-- A line that marks the start or the end of a document. -/
def isMarker (line : List Char) : Bool :=
  let mark := line.take 3
  (mark == "---".toList || mark == "...".toList) && blankNext (line.drop 3)

/-- The lines of the first document; what follows the start marker on its line comes first, and
the flag says that there is a marker. -/
def firstDocument (lines : List (List Char)) : Bool × List (List Char) :=
  let isSilent (line : List Char) : Bool :=
    let text := line.dropWhile (· == ' ')
    text.isEmpty || text.head? == some '#'
  let upToMarker (ls : List (List Char)) : List (List Char) :=
    if ls.any isMarker then ls.takeWhile (fun l => !isMarker l) ++ [[]] else ls
  let body := lines.dropWhile isSilent
  match body with
  | [] => (false, [])
  | line :: rest =>
    if line.take 3 == "---".toList && isMarker line then
      (true, (' ' :: ' ' :: ' ' :: line.drop 3) :: upToMarker rest)
    else (false, upToMarker body)

/-- A character that may stand in a text. -/
def isAllowed (c : Char) : Bool :=
  let n := c.toNat
  n == 0x09 || n == 0x0A || (0x20 ≤ n && n ≤ 0x7E) || n == 0x85 ||
    (0xA0 ≤ n && n ≠ 0xFEFF && n ≠ 0xFFFE && n ≠ 0xFFFF)

/-- Line ends as line feeds. -/
def lineFeeds : List Char → List Char
  | '\r' :: '\n' :: cs => '\n' :: lineFeeds cs
  | '\r' :: cs => '\n' :: lineFeeds cs
  | c :: cs => c :: lineFeeds cs
  | [] => []

/-- Reads the first document of a text into the entries of its table. -/
def parse? (t : Text) : Option (List (Text × Setting)) := do
  let t := (Text.after? [0xEF, 0xBB, 0xBF] t).getD t
  let cs := lineFeeds (Utf8.chars t)
  if !Utf8.valid t || !cs.all isAllowed then none
  else
    let (marked, lines) := firstDocument (linesOf cs)
    let ahead := ['\n'].intercalate lines
    let c : Cursor := { ahead := ahead, fresh := !marked }
    let (n, c) ← blockNode (2 * ahead.length + 4) (-1) false c
    let c ← c.skip false
    if c.atEnd then n.entries? else none

end Yaml

end MetricHistory
