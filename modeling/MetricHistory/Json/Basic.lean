import MetricHistory.Json.Literal

/-!
# JSON documents

`Json` is the tree of a JSON text together with everything the text leaves to the writer: the
spelling of numbers and strings and the blank space between tokens.  So a parsed document can
be written back unchanged.

* `Json.source` is the text the tree was read from.
* `Json.compact` is that text without blank space.
* `Json.indented` lays the text out over several lines, two spaces per level.
-/

namespace MetricHistory

mutual

/-- A JSON value as it was spelled. -/
inductive Json where
  | null
  | bool (b : Bool)
  | number (literal : Text)
  | string (body : Text)
  | array (blank : Text) (items : JsonItems)
  | object (blank : Text) (members : JsonMembers)

/-- The elements of an array, each with the blank space before and after it. -/
inductive JsonItems where
  | nil
  | cons (before : Text) (value : Json) (after : Text) (rest : JsonItems)

/-- The members of an object, each with the blank space around its key and its value. -/
inductive JsonMembers where
  | nil
  | cons (before key middle₁ middle₂ : Text) (value : Json) (after : Text) (rest : JsonMembers)

end

instance : Inhabited Json := ⟨.null⟩

/-- The blank space inside an array or object counts only when it is empty, so an element list
knows whether a comma stands before it. -/
def JsonItems.isNil : JsonItems → Bool
  | .nil => true
  | .cons .. => false

/-- There is no member. -/
def JsonMembers.isNil : JsonMembers → Bool
  | .nil => true
  | .cons .. => false

namespace Json

/-- The two spellings of a truth value. -/
def boolText (b : Bool) : Text := if b then "true" else "false"

mutual

/-- The text of a value, blank space included. -/
def source : Json → Text
  | .null => "null"
  | .bool b => boolText b
  | .number literal => literal
  | .string body => "\"" ++ body ++ "\""
  | .array blank items => "[" ++ blank ++ itemsSource items ++ "]"
  | .object blank members => "\x7b" ++ blank ++ membersSource members ++ "\x7d"

/-- The text between the brackets of an array. -/
def itemsSource : JsonItems → Text
  | .nil => []
  | .cons before value after rest =>
    before ++ source value ++ after ++ (if rest.isNil then "" else ",") ++ itemsSource rest

/-- The text between the braces of an object. -/
def membersSource : JsonMembers → Text
  | .nil => []
  | .cons before key middle₁ middle₂ value after rest =>
    before ++ "\"" ++ key ++ "\"" ++ middle₁ ++ ":" ++ middle₂ ++ source value ++ after ++
      (if rest.isNil then "" else ",") ++ membersSource rest

end

/-- The spelling of a literal body in a text made safe for markup: `<`, `>`, `&` and the two
Unicode line separators become escapes. -/
def markupSafeBody (body : Text) : Text :=
  (Utf8.pieces body).flatMap fun
    | .char c =>
      if c = '<' ∨ c = '>' ∨ c = '&' ∨ c.toNat = 0x2028 ∨ c.toNat = 0x2029 then
        Literal.escapeChar true c
      else Utf8.encode c
    | .stray b => [b]

mutual

/-- The value with every string and key made safe for markup. -/
def markupSafe : Json → Json
  | .string body => .string (markupSafeBody body)
  | .array blank items => .array blank (itemsMarkupSafe items)
  | .object blank members => .object blank (membersMarkupSafe members)
  | j => j

/-- The elements with every string made safe for markup. -/
def itemsMarkupSafe : JsonItems → JsonItems
  | .nil => .nil
  | .cons before value after rest => .cons before (markupSafe value) after (itemsMarkupSafe rest)

/-- The members with every string and key made safe for markup. -/
def membersMarkupSafe : JsonMembers → JsonMembers
  | .nil => .nil
  | .cons before key middle₁ middle₂ value after rest =>
    .cons before (markupSafeBody key) middle₁ middle₂ (markupSafe value) after
      (membersMarkupSafe rest)

end

mutual

/-- The text of a value without any blank space. -/
def compact : Json → Text
  | .null => "null"
  | .bool b => boolText b
  | .number literal => literal
  | .string body => "\"" ++ body ++ "\""
  | .array _ items => "[" ++ itemsCompact items ++ "]"
  | .object _ members => "\x7b" ++ membersCompact members ++ "\x7d"

/-- The elements without blank space, commas between them. -/
def itemsCompact : JsonItems → Text
  | .nil => []
  | .cons _ value _ rest =>
    compact value ++ (if rest.isNil then "" else ",") ++ itemsCompact rest

/-- The members without blank space, commas between them. -/
def membersCompact : JsonMembers → Text
  | .nil => []
  | .cons _ key _ _ value _ rest =>
    "\"" ++ key ++ "\":" ++ compact value ++ (if rest.isNil then "" else ",") ++
      membersCompact rest

end

/-- A line feed and the indentation of a level. -/
def newline (level : Nat) : Text := 10 :: Text.replicate level "  "

mutual

/-- The text of a value over several lines, an element or member on each; `level` is the depth
the value stands at.  Empty arrays and objects stay short. -/
def indented (level : Nat) : Json → Text
  | .null => "null"
  | .bool b => boolText b
  | .number literal => literal
  | .string body => "\"" ++ body ++ "\""
  | .array _ items =>
    if items.isNil then "[]"
    else "[" ++ itemsIndented (level + 1) items ++ newline level ++ "]"
  | .object _ members =>
    if members.isNil then "\x7b\x7d"
    else "\x7b" ++ membersIndented (level + 1) members ++ newline level ++ "\x7d"

/-- The elements, each on a line of its own. -/
def itemsIndented (level : Nat) : JsonItems → Text
  | .nil => []
  | .cons _ value _ rest =>
    newline level ++ indented level value ++ (if rest.isNil then "" else ",") ++
      itemsIndented level rest

/-- The members, each on a line of its own. -/
def membersIndented (level : Nat) : JsonMembers → Text
  | .nil => []
  | .cons _ key _ _ value _ rest =>
    newline level ++ "\"" ++ key ++ "\": " ++ indented level value ++
      (if rest.isNil then "" else ",") ++ membersIndented level rest

end

/-! ### Building values -/

/-- The elements of a list. -/
def ofItems : List Json → JsonItems
  | [] => .nil
  | j :: js => .cons [] j [] (ofItems js)

/-- The members of a list, the keys spelled as literal bodies. -/
def ofMembers : List (Text × Json) → JsonMembers
  | [] => .nil
  | (key, j) :: js => .cons [] key [] [] j [] (ofMembers js)

/-- An array of the given values. -/
def list (items : List Json) : Json := .array [] (ofItems items)

/-- An object whose keys are plain words. -/
def record (members : List (Text × Json)) : Json := .object [] (ofMembers members)

/-- A string value. -/
def ofText (markupSafe : Bool) (t : Text) : Json := .string (Literal.escape markupSafe t)

/-- An integer value. -/
def ofInt (i : Int) : Json := .number (Text.ofInt i)

/-! ### Looking inside -/

/-- The elements of an array. -/
def itemList : JsonItems → List Json
  | .nil => []
  | .cons _ value _ rest => value :: itemList rest

/-- The members of an object, their keys decoded, in document order. -/
def memberList : JsonMembers → List (Text × Json)
  | .nil => []
  | .cons _ key _ _ value _ rest => (Literal.unescape key, value) :: memberList rest

/-- The members of an object, none for any other value. -/
def members? : Json → Option (List (Text × Json))
  | .object _ members => some (memberList members)
  | _ => none

/-- The elements of an array, none for any other value. -/
def items? : Json → Option (List Json)
  | .array _ items => some (itemList items)
  | _ => none

end Json

end MetricHistory
