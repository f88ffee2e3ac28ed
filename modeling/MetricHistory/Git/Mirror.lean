import MetricHistory.Archive.Extract
import MetricHistory.Commit.Log
import MetricHistory.Git.Log
import MetricHistory.Machine
import MetricHistory.Repository

/-!
# Mirrors

A mirror is a local copy of a framework's repository.  `Mirror.ensure` makes or refreshes it, and
`Mirror.repository` answers the questions of a collection from it.

Questions about history run a version control command, which fails when the program cannot be
started, when the work was called off, or with a status.  Questions about trees read the store
itself.
-/

namespace MetricHistory

/-- A local copy of a repository, and the program that works with it. -/
structure Mirror where
  path : Text
  program : Text := Text.ofString "git"

namespace Mirror

variable {α : Type}

/-- The place of a path that leads to a directory. -/
def placeOf (w : World Machine) (path : Text) : Option Place :=
  match w.files.find true path with
  | .ok (place, .dir) => some place
  | _ => none

/-- The store at a path. -/
def storeAt (w : World Machine) (path : Text) : Option Git.Store :=
  (placeOf w path).bind fun place => w.outside.stores.lookup place

/-- Puts a store at a place. -/
def setStore (place : Place) (s : Git.Store) (w : World Machine) : World Machine :=
  let others := w.outside.stores.filter fun (p, _) => p != place
  { w with outside := { w.outside with stores := others ++ [(place, s)] } }

/-- The reason for which a command cannot be run in a directory. -/
def dirObstacle? (fs : FileSystem) (program dir : Text) : Option Text :=
  let path : Text := if Programs.isPath program then program else "/usr/bin/" ++ program
  let refused (e : Errno) : Option Text := some ("fork/exec " ++ path ++ ": " ++ e.text)
  if dir.isEmpty then none
  else
    match fs.find true dir with
    | .ok (_, .dir) => none
    | .ok _ => refused .notDirectory
    | .error e => refused e

/-- The reason for which the program cannot be started in a directory. -/
def obstacle? (m : Mirror) (w : World Machine) (dir : Text) : Option Text :=
  (w.outside.programs.obstacle? w.files m.program).or (dirObstacle? w.files m.program dir)

/-- The reason that a command gives when it refuses what it was asked. -/
def refusal : Text := "exit status 128"

/-- Runs a command in a directory.  `act` is what it does when it can be started; `none` is a
refusal. -/
def command (m : Mirror) (dir : Text) (arguments : List Text)
    (act : World Machine → Option (α × World Machine)) : Attempt Machine α := fun w =>
  let fail (reason : Text) : Except Failure α := .error (.command arguments reason)
  if w.canceled then (fail Failure.canceled.message, w)
  else
    match m.obstacle? w dir with
    | some reason => (fail reason, w)
    | none =>
      match act w with
      | some (a, w) => (.ok a, w)
      | none => (fail refusal, w)

/-- Runs a command that only reads the mirror. -/
def query (m : Mirror) (arguments : List Text) (read : Git.Store → Option α) :
    Attempt Machine α :=
  m.command m.path arguments fun w =>
    match (storeAt w m.path).bind read with
    | some a => some (a, w)
    | none => none

/-! ### Making a mirror -/

/-- Copies the repository at a path or address. -/
def clone (m : Mirror) (url : Text) : Attempt Machine Unit :=
  m.command [] [Text.ofString "clone", Text.ofString "--bare", url, m.path] fun w => do
    let origin ← placeOf w url
    let store ← w.outside.stores.lookup origin
    let (made, files) := (Files.makeDirs m.path).run w.files
    if made matches .error _ then none
    else
      let w := { w with files := files }
      let place ← placeOf w m.path
      some ((), setStore place { store with origin := some origin } w)

/-- Fetches what is new where the mirror was copied from. -/
def refresh (m : Mirror) : Attempt Machine Unit :=
  m.command m.path (["fetch", "origin", "--tags"].map Text.ofString) fun w => do
    let place ← placeOf w m.path
    let store ← w.outside.stores.lookup place
    let origin ← store.origin
    let remote ← w.outside.stores.lookup origin
    let _ ← remote.head
    some ((), setStore place { remote with origin := some origin } w)

/-- Checks that a mirror can be read. -/
def checkOpen (m : Mirror) : Attempt Machine Unit := do
  if (storeAt (← get) m.path).isNone then
    throw (.during ("open repository " ++ m.path) (.other "repository does not exist"))

/-- Opens a mirror that is there. -/
def openAt (path program : Text) : Attempt Machine Mirror := do
  let m : Mirror := { path, program }
  m.checkOpen
  return m

/-- Makes a mirror, or refreshes the one that is there. -/
def ensure (url path program : Text) : Attempt Machine Mirror := do
  let m : Mirror := { path, program }
  match (← get).files.find true path with
  | .ok _ => Attempt.during ("refresh mirror " ++ path) m.refresh
  | .error .noEntry =>
    Attempt.onFiles (Files.makeDirs (Path.dir path))
    Attempt.during ("clone " ++ url) (m.clone url)
  | .error e => throw (.file ⟨"stat", [path], e⟩)
  m.checkOpen
  return m

/-! ### Questions about history -/

/-- The hash of the newest commit. -/
def head (m : Mirror) : Attempt Machine Text :=
  m.query (["rev-parse", "HEAD"].map Text.ofString) fun s => s.head

/-- The last second of a day that commits may have. -/
def endOfDay (d : Date) : Int := d.toDays * 86400 + 86399

/-- The hash of the newest commit up to the end of a day. -/
def resolve (m : Mirror) (date : Time) : Attempt Machine Text := do
  let before := "--before=" ++ date.date.iso ++ "T23:59:59"
  let found ← m.query [Text.ofString "rev-list", Text.ofString "-1", before, Text.ofString "HEAD"]
    fun s => do
      let history ← s.history none
      some (history.find? fun r => r.committed.seconds ≤ endOfDay date.date)
  match found with
  | some r => return r.hash
  | none => throw .noCommit

/-- The commits from a moment on, newest first. -/
def commitsSince (m : Mirror) (since : Time) : Attempt Machine (List Commit) := do
  let log ← m.query
    [Text.ofString "log", "--since=" ++ since.rfc3339 false, Text.ofString "--shortstat",
      Text.ofString "--format=%x1e%H%x00%cI%x00%s", Text.ofString "HEAD"]
    fun s => (s.history (some since.seconds)).map s.commitLog
  return CommitLog.parse log

/-- The number of commits in each year. -/
def commitsPerYear (m : Mirror) : Attempt Machine (List YearCount) := do
  let log ← m.query (["log", "--date=format:%Y", "--format=%ad", "HEAD"].map Text.ofString)
    fun s => (s.history none).map Git.yearLog
  return CommitLog.yearCounts log

/-- The number of commits in each month by category. -/
def commitsPerMonth (m : Mirror) : Attempt Machine (List MonthCount) := do
  let log ← m.query (["log", "--date=format:%Y-%m", "--format=%ad%x00%s", "HEAD"].map Text.ofString)
    fun s => (s.history none).map Git.monthLog
  return CommitLog.monthCounts log

/-! ### Questions about trees -/

/-- The revision with a hash. -/
def revision (m : Mirror) (hash : Text) : Attempt Machine Git.Revision := do
  match (storeAt (← get) m.path).bind fun s => s.revision? hash with
  | some r => return r
  | none => throw (.during ("commit " ++ hash) (.other "object not found"))

/-- The first parent of a commit. -/
def parent (m : Mirror) (hash : Text) : Attempt Machine Text := do
  match (← m.revision hash).parents with
  | [] => throw .noParent
  | p :: _ => return p

/-- The paths with one of the extensions that a commit changed.  Root commits and merges change
none. -/
def changedFiles (m : Mirror) (hash : Text) (extensions : List Text) :
    Attempt Machine (List Text) := do
  let r ← m.revision hash
  match r.parents with
  | [p] =>
    let before ← Attempt.during ("parent of " ++ hash) (m.revision p)
    if (← get).canceled then throw (.during ("diff " ++ hash) (.other "operation canceled"))
    let paths := (Git.changes before.tree r.tree).map (·.newPath)
    return (paths.filter fun p => Path.hasExtension p extensions).eraseDups
  | _ => return []

/-! ### Exports -/

/-- The directories that the files of a tree lie in, with those above them. -/
def directoriesOf (path : Text) : List Text :=
  let parts := (path.splitOn Path.slash).dropLast
  (List.range parts.length).map fun n => Text.join [Path.slash] (parts.take (n + 1))

/-- The archive entry of a file. -/
def fileEntry (path : Text) (b : Git.Blob) : ArchiveEntry :=
  match b.kind with
  | .plain => { kind := .file, name := path, mode := 0o664, content := b.content }
  | .executable => { kind := .file, name := path, mode := 0o775, content := b.content }
  | .link => { kind := .symlink, name := path, link := b.content }

/-- The archive of a tree: each directory before what it holds. -/
def archiveOf (tree : Git.Tree) : List ArchiveEntry :=
  (tree.foldl (fun (done : List ArchiveEntry × List Text) (path, b) =>
    let new := (directoriesOf path).filter fun d => !done.2.contains d
    (done.1 ++ new.map (fun d => { kind := .directory, name := d ++ "/", mode := 0o775 }) ++
      [fileEntry path b], done.2 ++ new)) ([], [])).1

/-- The revision that a name stands for: a hash, or the newest one. -/
def named (s : Git.Store) (name : Text) : Option Git.Revision :=
  if name == Text.ofString "HEAD" || name == Text.ofString "master" then s.head.bind s.revision?
  else s.revision? name

/-- Replaces a directory by the tree of a commit. -/
def exportFull (m : Mirror) (hash dest : Text) : Attempt Machine Unit := do
  Attempt.onFiles (Files.resetDir dest)
  let arguments := [Text.ofString "archive", Text.ofString "--format=tar", hash]
  let w ← get
  match m.obstacle? w m.path with
  | some reason => throw (.command arguments reason)
  | none =>
    if w.canceled then throw (.command arguments Failure.canceled.message)
    match (storeAt w m.path).bind fun s => named s hash with
    | none => throw (.command arguments refusal)
    | some r =>
      Attempt.during ("extract " ++ hash) (Attempt.ofTask (Archive.extract dest (archiveOf r.tree)))

/-- Writes the files of a tree that are asked for, and counts them. -/
def writePaths (dest : Text) (tree : Git.Tree) : Nat → List Text → Attempt Machine Nat
  | written, [] => return written
  | written, path :: rest => do
    Attempt.checkpoint
    match tree.lookup path with
    | none => writePaths dest tree written rest
    | some b =>
      Attempt.ofTask do
        let target ← Archive.target dest path
        FileTask.ofFiles (Archive.writeFile target b.content 0o644)
      writePaths dest tree (written + 1) rest

/-- Replaces a directory by some files of a commit, and gives their number. -/
def exportSparse (m : Mirror) (hash : Text) (paths : List Text) (dest : Text) :
    Attempt Machine Nat := do
  Attempt.onFiles (Files.resetDir dest)
  if paths.isEmpty then return 0
  let r ← m.revision hash
  writePaths dest r.tree 0 paths

/-- The history of a framework as its mirror tells it. -/
def repository (m : Mirror) : Repository Machine where
  head := m.head
  resolve := m.resolve
  commitsSince := m.commitsSince
  commitsPerYear := m.commitsPerYear
  commitsPerMonth := m.commitsPerMonth
  parent := m.parent
  changedFiles := m.changedFiles
  exportFull := m.exportFull
  exportSparse := m.exportSparse

end Mirror

end MetricHistory
