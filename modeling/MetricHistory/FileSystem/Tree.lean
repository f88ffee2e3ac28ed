import MetricHistory.FileSystem.Operations

/-!
# Directory trees

`FileSystem.below` lists everything below a directory: the names of each directory in byte
order, each directory followed by what is below it.  Links are listed and not followed.
-/

namespace MetricHistory

namespace FileSystem

/-- Everything below a place with the way to it.  `fuel` bounds the depth. -/
def belowPlace (fs : FileSystem) : Nat → Place → List Text → List (List Text × FileNode)
  | 0, _, _ => []
  | fuel + 1, place, way =>
    (fs.children place).flatMap fun (name, n) =>
      let way := way ++ [name]
      (way, n) :: (if n.isDir then fs.belowPlace fuel (place ++ [name]) way else [])

/-- The length of the longest place. -/
def depth (fs : FileSystem) : Nat := (fs.nodes.map fun (p, _) => p.length).foldl max 0

/-- Everything below the directory that a path leads to. -/
def below (fs : FileSystem) (path : Text) : List (List Text × FileNode) :=
  match fs.find true path with
  | .ok (place, .dir) => fs.belowPlace (fs.depth + 1) place []
  | _ => []

/-- The entries of a walk that starts at a path: its own when it is no directory, else what is
below it.  A link at the end of the path is an entry and not followed.  `none` when nothing is
at the path. -/
def entries (fs : FileSystem) (path : Text) : Except Errno (Option (List (Text × FileNode))) :=
  match fs.find false path with
  | .error .noEntry => .ok none
  | .error e => .error e
  | .ok (place, .dir) =>
    .ok (some ((fs.belowPlace (fs.depth + 1) place []).map fun (way, n) =>
      (way.getLast?.getD [], n)))
  | .ok (_, n) => .ok (some [(Path.base path, n)])

end FileSystem

/-- Some entry below a directory that is no directory itself has one of the extensions.  A
directory that is missing has no entries. -/
def hasSources (dir : Text) (extensions : List Text) : Files Bool := do
  match (← get).entries dir with
  | .error e => Files.fail "lstat" dir e
  | .ok none => return false
  | .ok (some es) => return es.any fun (name, n) => !n.isDir && Path.hasExtension name extensions

end MetricHistory
