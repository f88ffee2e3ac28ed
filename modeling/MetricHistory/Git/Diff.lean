import MetricHistory.Git.Store

/-!
# Differences between trees

* `Git.changes` compares two trees path by path; a file that only moved counts as one change.
* `Git.changedLines` counts the lines that were added and removed.
-/

namespace MetricHistory

namespace Git

/-- A file that differs between two trees. -/
inductive Change where
  | added (path : Text) (blob : Blob)
  | deleted (path : Text) (blob : Blob)
  | modified (path : Text) (before after : Blob)
  | moved (source target : Text)
deriving DecidableEq, Repr

namespace Change

/-- The path that a change is listed by: where the file was, or is if it is new. -/
def oldPath : Change → Text
  | added p _ | deleted p _ | modified p _ _ => p
  | moved p _ => p

/-- Where the file is, or was if it is gone. -/
def newPath : Change → Text
  | added p _ | deleted p _ | modified p _ _ => p
  | moved _ p => p

end Change

/-- The paths of two trees, in byte order. -/
def allPaths (before after : Tree) : List Text :=
  (Text.sort ((before ++ after).map (·.1))).eraseDups

/-- The change at a path. -/
def changeAt (before after : Tree) (path : Text) : Option Change :=
  match before.lookup path, after.lookup path with
  | none, none => none
  | none, some b => some (.added path b)
  | some a, none => some (.deleted path a)
  | some a, some b => if a = b then none else some (.modified path a b)

/-- The changes from one tree to another, path by path. -/
def plainChanges (before after : Tree) : List Change :=
  (allPaths before after).filterMap (changeAt before after)

/-! ### Moves -/

/-- The number of places at which two texts agree before they first differ. -/
def agreement : Text → Text → Nat
  | a :: s, b :: t => if a = b then agreement s t + 1 else 0
  | _, _ => 0

/-- The directory of a path with its slash, and the name after it. -/
def splitPath (p : Text) : Text × Text :=
  match p.cutLast? Path.slash with
  | none => ([], p)
  | some (dir, name) => (dir ++ [Path.slash], name)

/-- How much of two directories agrees, from the front and from the end, in percent. -/
def dirLikeness (a b : Text) : Nat × Nat :=
  let longest := max a.length b.length
  if longest = 0 then (100, 100)
  else
    let front := agreement a b * 100 / longest
    (front, if front = 100 then 100 else agreement a.reverse b.reverse * 100 / longest)

/-- How alike two paths are, in percent: directories and names count half each. -/
def likeness (a b : Text) : Nat :=
  let (aDir, aName) := splitPath a
  let (bDir, bName) := splitPath b
  let (front, back) := dirLikeness aDir bDir
  let names := agreement aName.reverse bName.reverse * 100 / max aName.length bName.length
  ((front + back) * 25 + names * 50) / 100

/-- The first of the paths that are most like a path, if any is like it at all. -/
def mostLike? (path : Text) (others : List Text) : Option Text :=
  (others.foldl (fun (best : Option Text × Nat) other =>
    let score := likeness path other
    if best.2 < score then (some other, score) else best) (none, 0)).1

/-- Pairs paths, the most alike first and of equally alike ones the last first, until one side
is used up. -/
def pairUp : List (Text × Text) → List (Text × Text) → List (Text × Text)
  | done, [] => done
  | done, (source, target) :: rest =>
    if done.any fun (s, t) => s == source || t == target then pairUp done rest
    else pairUp (done ++ [(source, target)]) rest

/-- All pairs of sources and targets, the most alike first. -/
def rankedPairs (sources targets : List Text) : List (Text × Text) :=
  let pairs := sources.flatMap fun s => targets.map fun t => (s, t)
  let scored := pairs.map fun (s, t) => (likeness t s, s, t)
  ((scored.mergeSort fun a b => decide (a.1 ≤ b.1)).reverse).map (·.2)

/-- What became of the files with one content: the moves, and the paths that are still new.  A
path with its kind is given for each file that is new and for each that is gone. -/
def matchMoves (new gone : List (Text × FileKind)) : List (Text × Text) × List Text :=
  let kind (files : List (Text × FileKind)) (p : Text) : Option FileKind := files.lookup p
  let keep := new.map (·.1)
  match new, gone with
  | _, [] => ([], keep)
  | [(target, k)], [(source, l)] => if k = l then ([(source, target)], []) else ([], keep)
  | [(target, k)], _ =>
    match mostLike? target (gone.map (·.1)) with
    | some source => if kind gone source = some k then ([(source, target)], []) else ([], [])
    | none => ([], [])
  | _, [(source, l)] =>
    match mostLike? source keep with
    | some target =>
      if kind new target = some l then ([(source, target)], keep.filter (· != target))
      else ([], keep)
    | none => ([], keep)
  | _, _ =>
    let moves := pairUp [] (rankedPairs (gone.map (·.1)) keep)
    (moves, keep.filter fun t => !moves.any fun (_, u) => u == t)

/-- The new and the gone files with a content. -/
def filesWith (content : Text) (changes : List Change) :
    List (Text × FileKind) × List (Text × FileKind) :=
  (changes.filterMap fun
    | .added p b => if b.content = content then some (p, b.kind) else none
    | _ => none,
   changes.filterMap fun
    | .deleted p b => if b.content = content then some (p, b.kind) else none
    | _ => none)

/-- Replaces the additions and deletions of one content by moves. -/
def joinMoves (changes : List Change) (content : Text) : List Change :=
  let (new, gone) := filesWith content changes
  if new.isEmpty || gone.isEmpty then changes
  else
    let (moves, left) := matchMoves new gone
    (changes.filter fun
      | .added p b => b.content != content || left.contains p
      | .deleted p b => b.content != content || !moves.any fun (s, _) => s == p
      | _ => true) ++ moves.map fun (s, t) => .moved s t

/-- The changes from one tree to another in the order of the old paths.  A file that is gone and
a new one with the same content are one change. -/
def changes (before after : Tree) : List Change :=
  let plain := plainChanges before after
  let contents := (plain.filterMap fun
    | .added _ b => some b.content
    | _ => none).eraseDups
  (contents.foldl joinMoves plain).mergeSort fun a b => Text.le a.oldPath b.oldPath

/-! ### Lines -/

/-- The lines of a content; what follows the last line feed counts if there is anything. -/
def contentLines (content : Text) : List Text :=
  let parts := Text.lines content
  if parts.getLast? == some [] then parts.dropLast else parts

/-- One row of the table of longest common subsequences, from the row before. -/
def commonRow (x : Text) : List Text → List Nat → Nat → Nat → List Nat
  | y :: ys, up :: ups, diagonal, left =>
    let here := if x = y then diagonal + 1 else max up left
    here :: commonRow x ys ups up here
  | _, _, _, _ => []

/-- The greatest number of lines that two lists share in order. -/
def commonLines (xs ys : List Text) : Nat :=
  (xs.foldl (fun row x => commonRow x ys row 0 0) (List.replicate ys.length 0)).getLastD 0

/-- Drops what two lists have in common at their front. -/
def dropCommon : List Text → List Text → List Text × List Text
  | x :: xs, y :: ys => if x = y then dropCommon xs ys else (x :: xs, y :: ys)
  | xs, ys => (xs, ys)

/-- The numbers of lines to add and to remove to get from one content to another. -/
def lineChange (before after : Text) : Nat × Nat :=
  let (xs, ys) := dropCommon (contentLines before) (contentLines after)
  let (xs, ys) := dropCommon xs.reverse ys.reverse
  let shared := commonLines xs ys
  (ys.length - shared, xs.length - shared)

/-- The content is no text. -/
def isBinary (content : Text) : Bool := (content.take 8000).contains 0

/-- The numbers of added and removed lines of a file; none for what is no text. -/
def fileChange (before after : Text) : Nat × Nat :=
  if isBinary before || isBinary after then (0, 0) else lineChange before after

/-- Removes the first element that is equal to another. -/
def dropOne (content : Text) : List Text → Option (List Text)
  | [] => none
  | c :: cs => if c = content then some cs else (dropOne content cs).map (c :: ·)

/-- The contents that are only on one side, moved files left out. -/
def unmatched : List Text → List Text → List Text × List Text
  | [], gone => ([], gone)
  | c :: new, gone =>
    match dropOne c gone with
    | some gone => unmatched new gone
    | none =>
      let (new, gone) := unmatched new gone
      (c :: new, gone)

/-- The size of a difference. -/
structure DiffSize where
  files : Nat
  insertions : Nat
  deletions : Nat
deriving DecidableEq, Repr

/-- The size of the difference between two trees. -/
def diffSize (before after : Tree) : DiffSize :=
  let plain := plainChanges before after
  let new := plain.filterMap fun
    | .added _ b => some b.content
    | _ => none
  let gone := plain.filterMap fun
    | .deleted _ b => some b.content
    | _ => none
  let (newLeft, goneLeft) := unmatched new gone
  let counts := plain.filterMap (fun
      | .modified _ a b => some (fileChange a.content b.content)
      | _ => none) ++
    newLeft.map (fileChange []) ++ goneLeft.map fun c => fileChange c []
  { files := plain.length - (gone.length - goneLeft.length)
    insertions := (counts.map (·.1)).foldl (· + ·) 0
    deletions := (counts.map (·.2)).foldl (· + ·) 0 }

end Git

end MetricHistory
