import MetricHistory.Text.Basic

/-!
# Slash-separated paths

Lexical operations on paths, which never look at a file system.

* `Path.Normal` is a path without empty and `.` components in which `..` stands only at the
  front of a relative path; `Path.normalize` brings any path into this form.
* `Path.clean`, `Path.join`, `Path.dir`, `Path.base` and `Path.extension` work on texts.
* `Path.safeJoin?` joins a name onto a root and refuses names that leave the root.
* `Path.linkInside` says whether a link text stays below the root.
-/

namespace MetricHistory

namespace Path

/-- The separator of components. -/
def slash : UInt8 := Text.byte '/'

/-- The component that means the directory itself. -/
def dot : Text := Text.ofString "."

/-- The component that means the directory above. -/
def dotdot : Text := Text.ofString ".."

/-- A path is rooted when it starts at the top of the tree. -/
def isAbsolute (p : Text) : Bool := p.head? == some slash

/-- A normalized path. -/
structure Normal where
  rooted : Bool
  parts : List Text
deriving DecidableEq, Repr

namespace Normal

/-- Goes one component further down, or up for `..`.  There is nothing above the root, and a
relative path that is exhausted keeps its `..`. -/
def step (p : Normal) (component : Text) : Normal :=
  if component = dotdot then
    match p.parts.getLast? with
    | none => if p.rooted then p else { p with parts := [dotdot] }
    | some last =>
      if last = dotdot then { p with parts := p.parts ++ [dotdot] }
      else { p with parts := p.parts.dropLast }
  else { p with parts := p.parts ++ [component] }

/-- The text of a normalized path. -/
def render (p : Normal) : Text :=
  if p.rooted then slash :: Text.join [slash] p.parts
  else if p.parts.isEmpty then dot
  else Text.join [slash] p.parts

end Normal

/-- The components of a path that mean something. -/
def components (p : Text) : List Text :=
  (p.splitOn slash).filter fun c => !c.isEmpty && c != dot

/-- The normal form of a path. -/
def normalize (p : Text) : Normal :=
  (components p).foldl Normal.step ⟨isAbsolute p, []⟩

/-- The shortest path with the same lexical meaning. -/
def clean (p : Text) : Text := (normalize p).render

/-- Joins path elements, skipping empty ones. -/
def join (elements : List Text) : Text :=
  let given := elements.filter fun e => !e.isEmpty
  if given.isEmpty then [] else clean (Text.join [slash] given)

/-- All but the last component. -/
def dir (p : Text) : Text :=
  match p.cutLast? slash with
  | none => dot
  | some (before, _) => clean (before ++ [slash])

/-- The last component. -/
def base (p : Text) : Text :=
  if p.isEmpty then dot
  else
    let trimmed : Text := (p.reverse.dropWhile (· == slash)).reverse
    if trimmed.isEmpty then [slash]
    else
      match trimmed.cutLast? slash with
      | none => trimmed
      | some (_, last) => last

/-- The end of the last component from its last point on. -/
def extension (p : Text) : Text :=
  let last := match p.cutLast? slash with
    | none => p
    | some (_, last) => last
  match last.cutLast? (Text.byte '.') with
  | none => []
  | some (_, ext) => Text.byte '.' :: ext

/-- The components left of two lists after their common beginning. -/
def afterCommon : List Text → List Text → List Text × List Text
  | a :: as, b :: bs => if a = b then afterCommon as bs else (a :: as, b :: bs)
  | as, bs => (as, bs)

/-- The way from `base` to `target`; `none` when there is none that is known lexically. -/
def relative? (base target : Normal) : Option (List Text) :=
  if base.rooted != target.rooted then none
  else
    let (up, down) := afterCommon base.parts target.parts
    if up.head? == some dotdot then none
    else some (up.map (fun _ => dotdot) ++ down)

/-- The target lies at the base or below it. -/
def isInside (base target : Normal) : Bool :=
  match relative? base target with
  | none => false
  | some way => way.head? != some dotdot

/-- Joins a name onto a root; `none` when the name leads out of the root. -/
def safeJoin? (root name : Text) : Option Text :=
  let target := join [root, name]
  if isInside (normalize root) (normalize target) then some target else none

/-- The link `name -> link` stays below the root.  Empty and absolute links never do. -/
def linkInside (root name link : Text) : Bool :=
  !link.isEmpty && !isAbsolute link && (safeJoin? root (join [dir name, link])).isSome

/-- The path ends with one of the extensions. -/
def hasExtension (path : Text) (extensions : List Text) : Bool :=
  extensions.any path.endsWith

end Path

end MetricHistory
