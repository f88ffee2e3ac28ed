import MetricHistory.Settings.Toml.Node
import MetricHistory.Settings.Toml.Token

/-!
# Reading TOML texts

`Toml.parse?` reads a TOML text into the entries of its root table.  A key may be set once, a
header may appear once, and a list of tables grows by one table with every header of its own.
-/

namespace MetricHistory

namespace Toml

/-! ### Dotted keys -/

/-- The parts of a dotted key, each bare or quoted, with points between them.  `fuel` bounds the
parts. -/
def keyParts : Nat → List Char → Option (List Text)
  | 0, _ => none
  | fuel + 1, cs =>
    match cs.dropWhile isSpace with
    | [] => some []
    | '\'' :: r => quotedPart fuel '\'' r
    | '"' :: r => quotedPart fuel '"' r
    | '.' :: r =>
      if r.head?.any fun c => isBare c || c == '\'' || c == '"' || c == ' ' then keyParts fuel r
      else none
    | c :: r =>
      if isBare c then
        let part := (c :: r).takeWhile isBare
        let rest := (c :: r).dropWhile isBare
        let fits :=
          match rest with
          | [] => true
          | d :: _ => d == '.' || (isSpace d && ((rest.dropWhile isSpace).head?.all (· == '.')))
        if fits then (keyParts fuel rest).map (Utf8.ofChars part :: ·) else none
      else none
where
  /-- A part whose opening quote was just read. -/
  quotedPart (fuel : Nat) (quote : Char) (cs : List Char) : Option (List Text) :=
    match cs.dropWhile (· != quote) with
    | [] => none
    | _ :: rest =>
      (keyParts fuel rest).map (Utf8.ofChars (cs.takeWhile (· != quote)) :: ·)

/-- The parts of a dotted key, at least one. -/
def path? (cs : List Char) : Option (List Text) :=
  (keyParts (cs.length + 1) cs).bind fun parts => if parts.isEmpty then none else some parts

/-! ### Values -/

/-- A time of day that exists. -/
def isTimeOfDay (t : Text) : Bool := (Time.parse? ("2000-01-01T" ++ t ++ "Z")).isSome

/-- The moment that a date and what follows it form. -/
def moment? (date : Text) (rest : List Token) : Option (Setting × List Token) :=
  match rest with
  | .time t :: .offset o :: rest =>
    if (Time.parse? (date ++ "T" ++ t ++ o)).isSome then some (.moment true, rest) else none
  | .time t :: rest =>
    if (Date.parse? date).isSome && isTimeOfDay t then some (.moment false, rest) else none
  | _ => if (Date.parse? date).isSome then some (.moment false, rest) else none

/-- A list whose elements are all tables is a list of tables. -/
def listNode (items : List Node) : Node :=
  let isTable : Node → Bool
    | .table .. => true
    | _ => false
  if !items.isEmpty && items.all isTable then .tables items
  else .value (.list (settingList items))

mutual

/-- The value at the front.  `fuel` bounds the tokens. -/
def value? : Nat → List Token → Option (Node × List Token)
  | 0, _ => none
  | fuel + 1, ts =>
    match ts with
    | .scalar s :: rest => some (.value s, rest)
    | .date d :: rest => (moment? d rest).map fun (s, r) => (.value s, r)
    | .time t :: rest => if isTimeOfDay t then some (.value (.moment false), rest) else none
    | .listOpen :: rest => (items? fuel rest).map fun (ns, r) => (listNode ns, r)
    | .tableOpen :: rest => (inline? fuel none [] rest).map fun (fs, r) => (.table true fs, r)
    | _ => none

/-- The elements of a list up to its closing bracket; a comma may stand behind the last. -/
def items? : Nat → List Token → Option (List Node × List Token)
  | 0, _ => none
  | fuel + 1, ts =>
    match ts with
    | .listClose :: rest => some ([], rest)
    | _ => do
      let (n, rest) ← value? fuel ts
      match rest with
      | .listClose :: rest => some ([n], rest)
      | .comma :: rest => do
        let (ns, rest) ← items? fuel rest
        some (n :: ns, rest)
      | _ => none

/-- The fields of a table in braces.  `comma` says whether the token before was a comma, none
at the start; no comma stands before the closing brace. -/
def inline? : Nat → Option Bool → Fields → List Token → Option (Fields × List Token)
  | 0, _, _, _ => none
  | fuel + 1, comma, fields, ts =>
    match ts with
    | .tableClose :: rest => if comma = some true then none else some (fields, rest)
    | .comma :: rest => if comma = some true then none else inline? fuel (some true) fields rest
    | .key k :: .equals :: rest =>
      if comma = some false then none
      else do
        let path ← path? k
        let (n, rest) ← value? fuel rest
        inline? fuel (some false) (put n fields path) rest
    | _ => none

end

/-! ### Documents -/

/-- What has been read so far: the tree, the table that keys go to, and the headers seen. -/
structure Reading where
  root : Fields := []
  current : List Text := []
  seen : List (List Char) := []

/-- Reads the header of a table. -/
def Reading.header? (r : Reading) (name : List Char) : Option Reading := do
  if r.seen.contains name then none
  else
    let path ← path? name
    let root ← update? (fun (_, fields) => some fields) false r.root path
    match find? root path with
    | some (.table true _) => none
    | _ => some { root := root, current := path, seen := r.seen ++ [name] }

/-- Reads the header of an element of a list of tables.  Headers below the list may appear
again in the new element. -/
def Reading.arrayHeader? (r : Reading) (name : List Char) : Option Reading := do
  let path ← path? name
  let root := openPath r.root path.dropLast
  let elements ←
    match find? root path with
    | none => some []
    | some (.tables elements) => some elements
    | some _ => none
  let below := name ++ ['.']
  some {
    root := put (.tables (elements ++ [.table false []])) root path
    current := path
    seen := r.seen.filter (fun k => !below.isPrefixOf k) ++ [name] }

/-- Sets a key of the current table. -/
def Reading.assign? (r : Reading) (key : List Char) (node : Node) : Option Reading := do
  let path ← path? key
  let last ← path.getLast?
  let set : Bool × Fields → Option Fields := fun (closed, fields) =>
    if closed || (lookup last fields).isSome then none else some (store last node fields)
  let root ← update? set false r.root (r.current ++ path.dropLast)
  some { r with root := root }

/-- Reads all tokens.  `fuel` bounds their number. -/
def Reading.run? : Nat → Reading → List Token → Option Reading
  | 0, _, _ => none
  | fuel + 1, r, ts =>
    match ts with
    | [] => some r
    | .header name :: rest => (r.header? name).bind fun r => r.run? fuel rest
    | .arrayHeader name :: rest => (r.arrayHeader? name).bind fun r => r.run? fuel rest
    | .key k :: .equals :: rest => do
      let (node, rest) ← value? (2 * rest.length + 1) rest
      let r ← r.assign? k node
      r.run? fuel rest
    | _ => none

/-- Reads a text into the entries of its root table. -/
def parse? (t : Text) : Option (List (Text × Setting)) := do
  let ts ← tokens? t
  let r ← Reading.run? (ts.length + 1) {} ts
  some (settings r.root)

end Toml

end MetricHistory
