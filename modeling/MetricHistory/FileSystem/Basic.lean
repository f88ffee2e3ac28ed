import MetricHistory.Calendar.Time
import MetricHistory.Path

/-!
# File systems

A file system is a finite map from places to nodes.  A place is the list of names that leads
from the root to it; the root is always a directory.

* `FileSystem.node?`, `FileSystem.put`, `FileSystem.erase` and `FileSystem.eraseBelow` are the
  map operations.
* `FileSystem.locate` follows a path the way an operating system does: step by step, through
  symbolic links, with `..` applied to the directory reached so far.
* `FileError` is what an operation can fail with.
-/

namespace MetricHistory

/-- The reasons for which an operation on files fails. -/
inductive Errno where
  | noEntry
  | exists
  | notDirectory
  | isDirectory
  | notEmpty
  | tooManyLinks
  | invalid
  /-- A name that is asked for leads into another directory. -/
  | separator
deriving DecidableEq, Repr

/-- The wording of a reason. -/
def Errno.text : Errno → Text
  | noEntry => "no such file or directory"
  | «exists» => "file exists"
  | notDirectory => "not a directory"
  | isDirectory => "is a directory"
  | notEmpty => "directory not empty"
  | tooManyLinks => "too many levels of symbolic links"
  | invalid => "invalid argument"
  | separator => "pattern contains path separator"

/-- A failed operation: what was tried on which paths, and why it failed. -/
structure FileError where
  operation : Text
  paths : List Text
  errno : Errno
deriving DecidableEq, Repr

/-- The wording of a failed operation. -/
def FileError.message (e : FileError) : Text :=
  Text.join " " (e.operation :: e.paths) ++ ": " ++ e.errno.text

/-- What can be at a place. -/
inductive FileNode where
  | dir
  | file (mode : Nat) (content : Text) (modified : Time)
  | link (target : Text)
deriving DecidableEq, Repr

/-- The node is a directory. -/
def FileNode.isDir : FileNode → Bool
  | dir => true
  | _ => false

/-- The names that lead from the root to a place. -/
abbrev Place := List Text

/-- A file system, with the directory that relative paths start at, the clock that stamps changes
and the permission bits that new files do not get. -/
structure FileSystem where
  nodes : List (Place × FileNode) := []
  current : Place := []
  clock : Time := Time.zero
  mask : Nat := 0o022

namespace FileSystem

/-- The node at a place. -/
def node? (fs : FileSystem) (p : Place) : Option FileNode :=
  if p.isEmpty then some .dir else fs.nodes.lookup p

/-- Removes what is at a place, and nothing else. -/
def erase (fs : FileSystem) (p : Place) : FileSystem :=
  { fs with nodes := fs.nodes.filter fun (q, _) => q != p }

/-- Puts a node at a place, replacing what was there. -/
def put (fs : FileSystem) (p : Place) (n : FileNode) : FileSystem :=
  { fs with nodes := (fs.nodes.filter fun (q, _) => q != p) ++ [(p, n)] }

/-- Removes a place and everything below it. -/
def eraseBelow (fs : FileSystem) (p : Place) : FileSystem :=
  { fs with nodes := fs.nodes.filter fun (q, _) => !p.isPrefixOf q }

/-- The permission bits of a new file: those that are asked for and not withheld. -/
def granted (fs : FileSystem) (mode : Nat) : Nat := (mode &&& 0o777) &&& (0o777 ^^^ fs.mask)

/-- The names in a directory with their nodes, in byte order. -/
def children (fs : FileSystem) (p : Place) : List (Text × FileNode) :=
  (fs.nodes.filterMap fun (q, n) =>
    if p.isPrefixOf q && q.length == p.length + 1 then q.getLast?.map (·, n) else none).mergeSort
      fun a b => Text.le a.1 b.1

/-! ### Following paths -/

/-- The number of links that are followed on the way to one place. -/
def linkLimit : Nat := 40

/-- The steps of a path.  A slash at the end asks for a directory. -/
def steps (path : Text) : List Text :=
  let parts := (path.splitOn Path.slash).filter fun c => !c.isEmpty
  if path.endsWith [Path.slash] then parts ++ [Path.dot] else parts

/-- The place a walk starts at. -/
def start (fs : FileSystem) (path : Text) : Place :=
  if Path.isAbsolute path then [] else fs.current

/-- Walks from a directory.  Only the last step may lead to a place where nothing is; a link
there is followed if `follow` is set.  At most `links` links are followed. -/
def walk (fs : FileSystem) (follow : Bool) (links : Nat) (at_ : Place) :
    List Text → Except Errno (Place × Option FileNode)
  | [] => .ok (at_, some .dir)
  | step :: rest =>
    if step = Path.dot then fs.walk follow links at_ rest
    else if step = Path.dotdot then fs.walk follow links at_.dropLast rest
    else
      let place := at_ ++ [step]
      match fs.node? place with
      | none => if rest.isEmpty then .ok (place, none) else .error .noEntry
      | some .dir => fs.walk follow links place rest
      | some (.file mode content modified) =>
        if rest.isEmpty then .ok (place, some (.file mode content modified))
        else .error .notDirectory
      | some (.link target) =>
        if rest.isEmpty && !follow then .ok (place, some (.link target))
        else if target.isEmpty then .error .noEntry
        else
          match links with
          | 0 => .error .tooManyLinks
          | links + 1 =>
            fs.walk follow links (if Path.isAbsolute target then [] else at_) (steps target ++ rest)
termination_by todo => (links, todo.length)

/-- The place a path leads to and what is there. -/
def locate (fs : FileSystem) (follow : Bool) (path : Text) :
    Except Errno (Place × Option FileNode) :=
  if path.isEmpty then .error .noEntry
  else fs.walk follow linkLimit (fs.start path) (steps path)

/-- The place and the node of a path that leads to something. -/
def find (fs : FileSystem) (follow : Bool) (path : Text) : Except Errno (Place × FileNode) :=
  match fs.locate follow path with
  | .error e => .error e
  | .ok (_, none) => .error .noEntry
  | .ok (place, some n) => .ok (place, n)

/-- The path leads to something, links followed. -/
def isThere (fs : FileSystem) (path : Text) : Bool :=
  match fs.find true path with
  | .ok _ => true
  | .error _ => false

/-- The path leads to a directory, links followed. -/
def isDir (fs : FileSystem) (path : Text) : Bool :=
  match fs.find true path with
  | .ok (_, n) => n.isDir
  | .error _ => false

end FileSystem

end MetricHistory
