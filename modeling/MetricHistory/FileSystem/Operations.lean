import MetricHistory.FileSystem.Basic

/-!
# Operations on files

The operations of an operating system as actions that change a file system and may fail.  What
was done before a failure stays done.  New files get the permission bits that are asked for,
less those that the mask withholds; a file that is there keeps its own.  The bits are kept and
not enforced: nothing fails for want of a permission.
-/

namespace MetricHistory

/-- An action on files. -/
abbrev Files := ExceptT FileError (StateM FileSystem)

namespace Files

/-- Fails with the reason for which an operation on a path failed. -/
def fail {α : Type} (operation path : Text) (e : Errno) : Files α :=
  throw ⟨operation, [path], e⟩

/-- What a path leads to, for an operation that fails when it leads nowhere. -/
def find (operation : Text) (follow : Bool) (path : Text) : Files (Place × FileNode) := do
  match (← get).find follow path with
  | .ok found => return found
  | .error e => fail operation path e

/-- The place of a path and what is there, if anything. -/
def locate (operation : Text) (follow : Bool) (path : Text) :
    Files (Place × Option FileNode) := do
  match (← get).locate follow path with
  | .ok found => return found
  | .error e => fail operation path e

/-- The node of a path, links followed. -/
def stat (path : Text) : Files FileNode := return (← find "stat" true path).2

/-- The node of a path, a link at its end not followed. -/
def lstat (path : Text) : Files FileNode := return (← find "lstat" false path).2

/-- The content of a file. -/
def read (path : Text) : Files Text := do
  match ← find "open" true path with
  | (_, .file _ content _) => return content
  | _ => fail "read" path .isDirectory

/-- Gives a file new content, creating it if there is none. -/
def write (path content : Text) (mode : Nat) : Files Unit := do
  let fs ← get
  match ← locate "open" true path with
  | (place, none) => set (fs.put place (.file (fs.granted mode) content fs.clock))
  | (place, some (.file old _ _)) => set (fs.put place (.file old content fs.clock))
  | (_, some _) => fail "open" path .isDirectory

/-- The path without the slashes at its end. -/
def withoutSlashes (path : Text) : Text :=
  let trimmed : Text := (path.reverse.dropWhile (· == Path.slash)).reverse
  if trimmed.isEmpty then path else trimmed

/-- Creates a directory.  Slashes at the end of its path do not count. -/
def makeDir (path : Text) : Files Unit := do
  match (← get).locate false (withoutSlashes path) with
  | .ok (place, none) => modify fun fs => fs.put place .dir
  | .ok (_, some _) => fail "mkdir" path .exists
  | .error e => fail "mkdir" path e

/-- The path without its last component and the slashes before it. -/
def parentPath (path : Text) : Text :=
  let trimmed : Text := (path.reverse.dropWhile (· == Path.slash)).reverse
  let above : Text := (trimmed.reverse.dropWhile (· != Path.slash)).reverse
  let bare : Text := (above.reverse.dropWhile (· == Path.slash)).reverse
  if bare.isEmpty && !above.isEmpty then [Path.slash] else bare

/-- Creates a directory and those it lies in.  `fuel` bounds their number. -/
def makeDirsUpTo : Nat → Text → Files Unit
  | 0, path => makeDir path
  | fuel + 1, path => do
    match (← get).find true path with
    | .ok (_, .dir) => return
    | .ok _ => fail "mkdir" path .notDirectory
    | .error _ =>
      let parent := parentPath path
      if !parent.isEmpty && parent.length < path.length then makeDirsUpTo fuel parent
      match (← get).locate false (withoutSlashes path) with
      | .ok (place, none) => modify fun fs => fs.put place .dir
      | .ok (_, some .dir) => return
      | .ok (_, some _) => fail "mkdir" path .exists
      | .error e => fail "mkdir" path e

/-- Creates a directory and those it lies in, as far as they are missing. -/
def makeDirs (path : Text) : Files Unit := makeDirsUpTo path.length path

/-- Removes a file, a link or an empty directory. -/
def remove (path : Text) : Files Unit := do
  match ← find "remove" false path with
  | (place, .dir) =>
    if ((← get).children place).isEmpty then modify fun fs => fs.erase place
    else fail "remove" path .notEmpty
  | (place, _) => modify fun fs => fs.erase place

/-- Removes whatever is at a path, with everything below it.  Links are removed, not followed;
it is no failure when nothing is there. -/
def removeAll (path : Text) : Files Unit := do
  if path.isEmpty then return
  if Path.base path == Path.dot then fail "RemoveAll" path .invalid
  match (← get).locate false path with
  | .ok (_, none) => return
  | .ok (place, some _) => modify fun fs => fs.eraseBelow place
  | .error .noEntry => return
  | .error e => fail "unlinkat" (Path.base path) e

/-- Moves a node to another place, replacing a file or link there but no directory. -/
def rename (old new : Text) : Files Unit := do
  let refuse {α : Type} (e : Errno) : Files α := throw ⟨"rename", [old, new], e⟩
  match (← get).find false old with
  | .error e => refuse e
  | .ok (source, n) =>
    match (← get).locate false new with
    | .error e => refuse e
    | .ok (_, some .dir) => refuse .exists
    | .ok (target, there) =>
      if n.isDir && there.isSome then refuse .notDirectory
      else if n.isDir && source.isPrefixOf target then refuse .invalid
      else
        modify fun fs =>
          let moved := fs.nodes.filterMap fun (q, m) =>
            if source.isPrefixOf q then some (target ++ q.drop source.length, m) else none
          let rest := (fs.eraseBelow source).erase target
          { rest with nodes := rest.nodes ++ moved }

/-- Creates a symbolic link. -/
def symlink (target path : Text) : Files Unit := do
  match (← get).locate false path with
  | .error e => throw ⟨"symlink", [target, path], e⟩
  | .ok (_, some _) => throw ⟨"symlink", [target, path], .exists⟩
  | .ok (place, none) => modify fun fs => fs.put place (.link target)

/-- The first number whose file name is free in a directory.  One of more numbers than there
are nodes always is. -/
def freeName (fs : FileSystem) (dir front : Text) : Text :=
  let name (i : Nat) : Text := Path.join [dir, front ++ Text.ofNat i]
  let free (i : Nat) : Bool :=
    match fs.locate false (name i) with
    | .ok (_, some _) => false
    | _ => true
  name (((List.range (fs.nodes.length + 1)).find? free).getD (fs.nodes.length + 1))

/-- Creates an empty file under a name that nothing had, and gives that name. -/
def createTemp (dir front : Text) : Files Text := do
  if front.contains Path.slash then fail "createtemp" (front ++ "*") .separator
  let path := freeName (← get) dir front
  match ← locate "open" false path with
  | (place, none) =>
    modify fun fs => fs.put place (.file (fs.granted 0o600) [] fs.clock)
    return path
  | _ => fail "open" path .exists

/-- Removes whatever is at a path and creates an empty directory there. -/
def resetDir (path : Text) : Files Unit := do
  removeAll path
  makeDirs path

end Files

end MetricHistory
