import MetricHistory.Blake3
import MetricHistory.FileSystem.Task
import MetricHistory.FileSystem.Tree
import MetricHistory.Json.Decode
import MetricHistory.Json.Parser

/-!
# The cache of measurements

A cache is a directory of entry files.  An entry is found by its key, which says what was
measured, and counts only for its fingerprint, which says what measured it.

* `Cache.get` looks up a key; entries that cannot be read or are too old are removed.
* `Cache.set` stores an entry, replacing the file of its key in one step.
* `Cache.invalidate` and `Cache.clear` remove entries, `Cache.stats` counts them.
-/

namespace MetricHistory

/-- An entry of a cache. -/
structure CacheEntry where
  key : Text := []
  fingerprint : Text := []
  stored : Time := Time.zero
  data : Text := []

namespace CacheEntry

/-- The members of an entry; `none` when its data are not JSON or its time has no notation. -/
def encode? (e : CacheEntry) : Option Text := do
  let data ← Json.parse? e.data
  if !e.stored.isStrict then none
  else
    some (Json.compact (Json.record
      [(Text.ofString "key", Json.ofText true e.key),
       (Text.ofString "fingerprint", Json.ofText true e.fingerprint),
       (Text.ofString "stored", Json.ofText true (e.stored.rfc3339 true)),
       (Text.ofString "data", data.markupSafe)]))

/-- Reads the members of an entry. -/
def ofMembers (start : CacheEntry) (ms : List (Text × Json)) : Option CacheEntry := do
  return {
    key := ← Json.field "key" Json.decodeText start.key ms
    fingerprint := ← Json.field "fingerprint" Json.decodeText start.fingerprint ms
    stored := ← Json.field "stored" Json.decodeTime start.stored ms
    data := Json.rawField "data" start.data ms }

/-- Reads an entry. -/
def parse? (t : Text) : Option CacheEntry :=
  (Json.parse? t).bind (Json.decodeRecord ofMembers {})

end CacheEntry

/-- A cache: its directory, how long entries count (for ever unless positive), and whether it is
used at all. -/
structure Cache where
  dir : Text := []
  ttl : Duration := 0
  enabled : Bool := false

/-- What a cache holds, or why it cannot be counted. -/
structure CacheStats where
  entries : Nat := 0
  totalSize : Nat := 0
  oldestAge : Duration := 0
  newestAge : Duration := 0
  failure? : Option FileError := none

namespace Cache

/-- Opens a cache.  The directory of a cache that is not used is not touched. -/
def create (dir : Text) (ttl : Duration) (enabled : Bool) : Files Cache := do
  if !enabled then return {}
  Files.makeDirs dir
  return { dir, ttl, enabled }

/-- The key with the given parts. -/
def keyOf (parts : List Text) : Text := Text.join "|" parts

/-- The fingerprint of a file. -/
def fingerprint (path : Text) : Files Text := return Blake3.hashHex (← Files.read path)

/-- The file that holds the entry of a key. -/
def entryPath (c : Cache) (key : Text) : Text :=
  Path.join [c.dir, Blake3.hashHex key ++ ".json"]

/-- Removes a file if that is possible. -/
def drop (path : Text) : StateM FileSystem Unit := do
  let _ ← (Files.remove path).run

/-- The entry is too old at a moment. -/
def isExpired (c : Cache) (now : Time) (e : CacheEntry) : Bool :=
  0 < c.ttl && c.ttl < now.sub e.stored

/-- The data stored under a key by the same fingerprint, unless they are too old. -/
def get (c : Cache) (key fingerprint : Text) : StateM FileSystem (Option Text) := do
  if !c.enabled then return none
  let path := c.entryPath key
  match ← (Files.read path).run with
  | .error _ => return none
  | .ok raw =>
    match CacheEntry.parse? raw with
    | none =>
      drop path
      return none
    | some e =>
      if e.key != key || e.fingerprint != fingerprint then return none
      else if c.isExpired (← getThe FileSystem).clock e then
        drop path
        return none
      else return some e.data

/-- Stores data under a key.  The entry is written to a file of its own and moved into place. -/
def set (c : Cache) (key fingerprint data : Text) : FileTask Unit := do
  if !c.enabled then return
  let entry : CacheEntry := { key, fingerprint, stored := (← getThe FileSystem).clock, data }
  match entry.encode? with
  | none => throw (.other "entry cannot be encoded")
  | some raw =>
    FileTask.ofFiles do
      Files.makeDirs c.dir
      let temp ← Files.createTemp c.dir ".entry-"
      Files.write temp raw 0o600
      Files.rename temp (c.entryPath key)

/-- Removes the entry of a key, if there is one. -/
def invalidate (c : Cache) (key : Text) : Files Unit := do
  if !c.enabled then return
  tryCatch (Files.remove (c.entryPath key)) fun e =>
    if e.errno == .noEntry then pure () else throw e

/-- Removes all entries with the directory they are in. -/
def clear (c : Cache) : Files Unit := do
  if !c.enabled then return
  Files.removeAll c.dir

/-- The sizes and times of the entry files below a directory, or of the entry file or link that is
there in place of a directory.  A directory that is missing has none. -/
def entryFiles (fs : FileSystem) (dir : Text) : Except Errno (List (Nat × Option Time)) :=
  match fs.entries dir with
  | .error e => .error e
  | .ok none => .ok []
  | .ok (some found) => .ok (found.filterMap fun (name, n) =>
      if Path.extension name != Text.ofString ".json" then none
      else
        match n with
        | .dir => none
        | .file _ content modified => some (content.length, some modified)
        | .link target => some (target.length, none))

/-- The earlier of two moments, as far as they are known. -/
def earlier (a b : Time) : Time := if a.isZero || a.after b then b else a

/-- The later of two moments, as far as they are known. -/
def later (a b : Time) : Time := if a.isZero || b.after a then b else a

/-- What the cache holds. -/
def stats (c : Cache) (fs : FileSystem) : CacheStats :=
  if !c.enabled then {}
  else
    match entryFiles fs c.dir with
    | .error e => { failure? := some ⟨"lstat", [c.dir], e⟩ }
    | .ok found =>
      let times := found.filterMap (·.2)
      let age (t : Time) : Duration := if t.isZero then 0 else fs.clock.sub t
      { entries := found.length
        totalSize := (found.map (·.1)).foldl (· + ·) 0
        oldestAge := age (times.foldl earlier Time.zero)
        newestAge := age (times.foldl later Time.zero) }

end Cache

end MetricHistory
