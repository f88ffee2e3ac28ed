import MetricHistory.Calendar.Time
import MetricHistory.Path

/-!
# Version control stores

A store holds revisions: each has a hash, the hashes of its parents, a tree of files, two dates
and a message.

* `Store.revision?` finds a revision by its hash, and `Store.add` adds one.
* `Store.history` lists what is reachable from the head, newest first.
-/

namespace MetricHistory

namespace Git

/-- The kinds of files that a tree holds. -/
inductive FileKind where
  | plain
  | executable
  | link
deriving DecidableEq, Repr

/-- A file of a tree.  The content of a link is its text. -/
structure Blob where
  kind : FileKind
  content : Text
deriving DecidableEq, Repr

/-- The files of a tree by their paths, in byte order. -/
abbrev Tree := List (Text × Blob)

/-- A tree without some paths and with other files in their place. -/
def Tree.edit (tree : Tree) (removed : List Text) (written : Tree) : Tree :=
  let gone := removed ++ written.map (·.1)
  (tree.filter (fun (path, _) => !gone.contains path) ++ written).mergeSort
    fun a b => Text.le a.1 b.1

/-- A commit as a store holds it. -/
structure Revision where
  hash : Text
  parents : List Text
  tree : Tree
  committed : Time
  authored : Time
  message : Text

/-- A repository: its revisions, the newest one, and where it was copied from. -/
structure Store where
  revisions : List Revision := []
  head : Option Text := none
  origin : Option (List Text) := none

/-- The revision with a hash. -/
def Store.revision? (s : Store) (hash : Text) : Option Revision :=
  s.revisions.find? fun r => r.hash == hash

/-- Adds a revision, which becomes the head. -/
def Store.add (s : Store) (r : Revision) : Store :=
  { s with revisions := s.revisions ++ [r], head := some r.hash }

/-- Puts a revision behind those that are not older. -/
def insertByDate (r : Revision) : List Revision → List Revision
  | [] => [r]
  | q :: rest =>
    if r.committed.seconds ≤ q.committed.seconds then q :: insertByDate r rest else r :: q :: rest

/-- Adds the parents that were not met before; `none` when one is missing in the store. -/
def Store.enqueue (s : Store) : List Text → List Text → List Revision →
    Option (List Text × List Revision)
  | [], met, queue => some (met, queue)
  | hash :: rest, met, queue =>
    if met.contains hash then s.enqueue rest met queue
    else
      match s.revision? hash with
      | none => none
      | some r => s.enqueue rest (hash :: met) (insertByDate r queue)

/-- Takes revisions from a queue, newest first, and adds their parents to it.  What is older
than `since` is left out together with what is only reachable through it. -/
def Store.walk (s : Store) (since : Option Int) :
    Nat → List Text → List Revision → Option (List Revision)
  | 0, _, _ => some []
  | _, _, [] => some []
  | fuel + 1, met, r :: queue =>
    if since.any fun start => r.committed.seconds < start then s.walk since fuel met queue
    else
      match s.enqueue r.parents met queue with
      | none => none
      | some (met, queue) => (s.walk since fuel met queue).map (r :: ·)

/-- The revisions that are reachable from the head, newest first; `none` when the store has no
head or misses a parent. -/
def Store.history (s : Store) (since : Option Int) : Option (List Revision) := do
  let head ← s.head
  let r ← s.revision? head
  s.walk since (s.revisions.length + 1) [head] [r]

/-! ### Messages -/

/-- The byte is white space in a message. -/
def isSpace (b : UInt8) : Bool := b == 32 || (9 ≤ b && b ≤ 13)

/-- A line without the white space at its end. -/
def trimEnd (line : Text) : Text := (line.reverse.dropWhile isSpace).reverse

/-- The first paragraph of a message on one line. -/
def subject (message : Text) : Text :=
  let lines := (Text.lines message).map trimEnd
  Text.join " " ((lines.dropWhile List.isEmpty).takeWhile fun l => !l.isEmpty)

end Git

end MetricHistory
