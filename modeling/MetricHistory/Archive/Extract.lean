import MetricHistory.FileSystem.Task

/-!
# Unpacking archives

An archive is a sequence of entries.  Directories, files and links are recreated below a
destination; everything else is passed over.

* A name that leads out of the destination stops the extraction.
* A link whose text leads out of the destination is left out.
-/

namespace MetricHistory

/-- The kinds of archive entries. -/
inductive EntryKind where
  | directory
  | file
  | symlink
  /-- Anything else, which is passed over. -/
  | special
deriving DecidableEq, Repr

/-- An entry of an archive. -/
structure ArchiveEntry where
  kind : EntryKind
  name : Text
  /-- The text of a link. -/
  link : Text := []
  /-- The permission bits of a file. -/
  mode : Nat := 0
  /-- The content of a file. -/
  content : Text := []
deriving DecidableEq, Repr

namespace Archive

/-- Where the entry with a name goes. -/
def target (dest name : Text) : FileTask Text :=
  match Path.safeJoin? dest name with
  | some path => pure path
  | none => throw (.unsafePath name)

/-- The permission bits to ask for; a file without any gets the usual ones. -/
def permissions (mode : Nat) : Nat :=
  if mode &&& 0o777 = 0 then 0o644 else mode &&& 0o777

/-- Writes a file with the directories it lies in. -/
def writeFile (path content : Text) (mode : Nat) : Files Unit := do
  Files.makeDirs (Path.dir path)
  Files.write path content (permissions mode)

/-- Creates a link with the directories it lies in. -/
def makeLink (path link : Text) : Files Unit := do
  Files.makeDirs (Path.dir path)
  Files.symlink link path

/-- Recreates one entry below the destination. -/
def extractEntry (dest : Text) (e : ArchiveEntry) : FileTask Unit := do
  match e.kind with
  | .directory => FileTask.ofFiles (Files.makeDirs (← target dest e.name))
  | .file => FileTask.ofFiles (writeFile (← target dest e.name) e.content e.mode)
  | .symlink =>
    let path ← target dest e.name
    if Path.linkInside dest e.name e.link then FileTask.ofFiles (makeLink path e.link)
  | .special => return

/-- Recreates the entries below the destination, in order, up to the first failure. -/
def extract (dest : Text) : List ArchiveEntry → FileTask Unit
  | [] => pure ()
  | e :: rest => do
    extractEntry dest e
    extract dest rest

end Archive

end MetricHistory
