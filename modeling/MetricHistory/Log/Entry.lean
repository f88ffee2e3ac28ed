import MetricHistory.Calendar.Time
import MetricHistory.Json.Normal
import MetricHistory.Output.Style

/-!
# Log entries

A log entry has a level, a message and fields.  It is written as a line for people, with the
fields sorted by key and values quoted where they could be misread, or as a JSON object.

* `LogEntry.console` and `LogEntry.json` are the two forms.
* `LogOptions.write` drops entries below the level that is asked for.
-/

namespace MetricHistory

/-- The levels of log entries, the gravest first. -/
inductive LogLevel where
  | panic
  | fatal
  | error
  | warn
  | info
  | debug
  | trace
deriving DecidableEq, Repr

namespace LogLevel

/-- The position in the order of gravity. -/
def rank : LogLevel → Nat
  | panic => 0
  | fatal => 1
  | error => 2
  | warn => 3
  | info => 4
  | debug => 5
  | trace => 6

/-- The name of a level in documents. -/
def name : LogLevel → Text
  | panic => "panic"
  | fatal => "fatal"
  | error => "error"
  | warn => "warning"
  | info => "info"
  | debug => "debug"
  | trace => "trace"

/-- The levels, the gravest first. -/
def all : List LogLevel := [panic, fatal, error, warn, info, debug, trace]

/-- The level with a name, which may be shortened to `warn`. -/
def ofName? (word : Text) : Option LogLevel :=
  if word == Text.ofString "warn" then some warn else all.find? fun l => l.name == word

/-- The level at a position in the order of gravity.  What has no place there counts as
information. -/
def ofRank (n : Int) : LogLevel := (all.find? fun l => (l.rank : Int) == n).getD info

/-- The tag of a level on a terminal. -/
def tag : LogLevel → Text
  | panic | fatal | error => "[ERROR]"
  | warn => "[WARN]"
  | info => "[INFO]"
  | debug | trace => "[DEBUG]"

/-- The style of a tag. -/
def style : LogLevel → Output.Style
  | panic | fatal => .boldRed
  | error => .red
  | warn => .yellow
  | info => .cyan
  | debug | trace => .grey

end LogLevel

/-- The value of a log field. -/
inductive LogValue where
  | text (t : Text)
  | int (i : Int)
  | duration (d : Duration)
  | json (j : Json)

namespace LogValue

/-- The value for people. -/
def shown : LogValue → Text
  | text t => t
  | int i => Text.ofInt i
  | duration d => d.render
  | json j => j.display

/-- The value in a document. -/
def toJson : LogValue → Json
  | text t => Json.ofText true t
  | int i => Json.ofInt i
  | duration d => Json.ofInt d
  | json j => j.normal

/-- A byte that makes a value ambiguous between its neighbours. -/
def needsQuotes (b : UInt8) : Bool := b == 32 || b == 9 || b == 34 || b == 61

/-- The text of a value on a line: quoted when it holds a space, a tab, a quote or an equals
sign. -/
def lineText (t : Text) : Text := if t.any needsQuotes then t.quoted else t

end LogValue

/-- A log entry.  Its time counts only in documents. -/
structure LogEntry where
  level : LogLevel
  message : Text
  fields : List (Text × LogValue) := []
  time : Time := Time.zero

namespace LogEntry

/-- The fields by key. -/
def sortedFields (e : LogEntry) : List (Text × LogValue) :=
  e.fields.mergeSort fun a b => Text.le a.1 b.1

/-- The fields as they follow the message on a line. -/
def fieldsText (fields : List (Text × LogValue)) : Text :=
  fields.flatMap fun (key, v) => " " ++ key ++ "=" ++ LogValue.lineText v.shown

/-- The entry as a line. -/
def console (colored : Bool) (e : LogEntry) : Text :=
  e.level.style.paint colored e.level.tag ++ " " ++ e.message ++ fieldsText e.sortedFields ++ "\n"

/-- The key of a field in a document; the keys of the entry itself are taken. -/
def jsonKey (key : Text) : Text :=
  if ["time", "msg", "level"].any fun k => key == Text.ofString k then "fields." ++ key else key

/-- The entry as a JSON object on a line. -/
def json (e : LogEntry) : Text :=
  let own : List (Text × Json) :=
    [(Text.ofString "level", Json.ofText true e.level.name),
     (Text.ofString "msg", Json.ofText true e.message),
     (Text.ofString "time", Json.ofText true (e.time.rfc3339 false))]
  let all := (e.fields.map fun (key, v) => (jsonKey key, v.toJson)) ++ own
  let members := all.foldl (fun ms (k, j) => Json.insertMember k j ms) []
  (Json.record (members.map fun (k, j) => (Literal.escape true k, j))).compact ++ "\n"

end LogEntry

/-- How log entries are written. -/
structure LogOptions where
  verbose : Bool := false
  asJson : Bool := false
  colored : Bool := false

namespace LogOptions

/-- The entry is grave enough to be written. -/
def admits (o : LogOptions) (level : LogLevel) : Bool :=
  level.rank ≤ (if o.verbose then LogLevel.debug else LogLevel.info).rank

/-- What is written for an entry. -/
def write (o : LogOptions) (e : LogEntry) : Text :=
  if !o.admits e.level then []
  else if o.asJson then e.json
  else e.console o.colored

/-- The format a word names; only `json`, in any case, names the document form. -/
def isJsonFormat (word : Text) : Bool := word.equalFold "json"

end LogOptions

end MetricHistory
