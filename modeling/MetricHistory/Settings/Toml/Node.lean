import MetricHistory.Settings.Basic

/-!
# The tree a TOML text builds

Keys and headers fill a tree of tables piece by piece.  A table written in braces is closed:
nothing is added to it afterwards.  A path through a list of tables always means its last
element.

* `Toml.Node` is the tree, `Toml.Fields` the contents of a table.
* `Toml.find?` looks up a path, `Toml.update?` changes the table at a path, creating the tables
  on the way, and `Toml.put` stores a node at a path whatever was there.
* `Toml.Node.setting` forgets how the tree was written.
-/

namespace MetricHistory

namespace Toml

/-- A node: a value, a table, or a list of tables. -/
inductive Node where
  | value (s : Setting)
  | table (closed : Bool) (fields : List (Text × Node))
  | tables (elements : List Node)

instance : Inhabited Node := ⟨.table false []⟩

/-- The contents of a table. -/
abbrev Fields := List (Text × Node)

/-- The node of a key. -/
def lookup (key : Text) (fields : Fields) : Option Node :=
  (fields.find? fun (k, _) => k == key).map (·.2)

/-- Stores a node under a key, in the place of the old one or at the end. -/
def store (key : Text) (node : Node) : Fields → Fields
  | [] => [(key, node)]
  | (k, old) :: rest => if k = key then (k, node) :: rest else (k, old) :: store key node rest

/-- The contents of a table, or of the last table of a list. -/
def Node.contents? : Node → Option (Bool × Fields)
  | .table closed fields => some (closed, fields)
  | .tables elements =>
    match elements.getLast? with
    | some (.table closed fields) => some (closed, fields)
    | _ => none
  | .value _ => none

/-- The node with new contents, in its last table when it is a list. -/
def Node.withFields (node : Node) (fields : Fields) : Node :=
  match node with
  | .tables elements =>
    match elements.getLast? with
    | some (.table closed _) => .tables (elements.dropLast ++ [.table closed fields])
    | _ => node
  | .table closed _ => .table closed fields
  | .value _ => node

/-- The node at a path, which has at least one key. -/
def find? (fields : Fields) : List Text → Option Node
  | [] => none
  | [key] => lookup key fields
  | key :: rest => do
    let node ← lookup key fields
    let (_, inner) ← node.contents?
    find? inner rest

/-- Changes the table at a path, creating the tables on the way.  A value on the way is an
error. -/
def update? (change : Bool × Fields → Option Fields) (closed : Bool) (fields : Fields) :
    List Text → Option Fields
  | [] => change (closed, fields)
  | key :: rest => do
    let node := (lookup key fields).getD (.table false [])
    let (closed, inner) ← node.contents?
    let inner ← update? change closed inner rest
    some (store key (node.withFields inner) fields)

/-- Creates the tables of a path as far as no value is in the way. -/
def openPath (fields : Fields) (path : List Text) : Fields :=
  match path with
  | [] => fields
  | key :: rest =>
    let node := (lookup key fields).getD (.table false [])
    match node.contents? with
    | none => fields
    | some (_, inner) => store key (node.withFields (openPath inner rest)) fields

/-- Stores a node at a path.  A value on the way is passed by: the rest of the path then starts
at the table that holds it. -/
def put (node : Node) (fields : Fields) : List Text → Fields
  | [] => fields
  | [key] => store key node fields
  | key :: rest =>
    let next := (lookup key fields).getD (.table false [])
    match next.contents? with
    | none => put node fields rest
    | some (_, inner) => store key (next.withFields (put node inner rest)) fields

mutual

/-- The setting a node stands for. -/
def Node.setting : Node → Setting
  | .value s => s
  | .table _ fields => .table (settings fields)
  | .tables elements => .list (settingList elements)

/-- The settings of the fields of a table. -/
def settings : List (Text × Node) → List (Text × Setting)
  | [] => []
  | (key, node) :: rest => (key, node.setting) :: settings rest

/-- The settings of the elements of a list. -/
def settingList : List Node → List Setting
  | [] => []
  | node :: rest => node.setting :: settingList rest

end

end Toml

end MetricHistory
