import MetricHistory.Proofs.FileSystem.Removal

/-!
# Programs on files, step by step

An action on files says what it leaves, and not what is there on the way.  A `FileProgram` is an
action as a tree of single operations, each of which changes the files at once: what somebody else
may see while it runs are its states (`FileProgram.states`).

* `FileProgram.run_bind` and `FileProgram.mem_states_bind` : programs in a row;
* `FileProgram.makeDirs_run` : the directories of a path are made one by one;
* `FileProgram.makeDirs_states` : **on the way nothing but directories is new**.
-/

namespace MetricHistory

open FileSystem

/-- A single operation on files, and what it answers. -/
inductive FileOp : Type → Type where
  | find (follow : Bool) (path : Text) : FileOp (Place × FileNode)
  | makeDir (path : Text) : FileOp Unit
  | createTemp (dir front : Text) : FileOp Text
  | write (path content : Text) : FileOp Unit
  | rename (old new : Text) : FileOp Unit
  | remove (path : Text) : FileOp Unit

/-- What an operation does. -/
def FileOp.act {α : Type} : FileOp α → Files α
  | find follow path => Files.find (if follow then "stat" else "lstat") follow path
  | makeDir path => Files.makeDir path
  | createTemp dir front => Files.createTemp dir front
  | write path content => Files.write path content 0o600
  | rename old new => Files.rename old new
  | remove path => Files.remove path

/-- Operations in a row, each of which depends on the answers to those before it. -/
inductive FileProgram (α : Type) : Type 1 where
  | done (a : α)
  | step {β : Type} (op : FileOp β) (next : Except FileError β → FileProgram α)

namespace FileProgram

variable {α β : Type} {fs mid : FileSystem}

/-- What a program leads to, and the files it leaves. -/
def run : FileProgram α → FileSystem → α × FileSystem
  | done a, fs => (a, fs)
  | step op next, fs => (next (op.act.run fs).1).run (op.act.run fs).2

/-- The files before each operation of a program and after the last one. -/
def states : FileProgram α → FileSystem → List FileSystem
  | done _, fs => [fs]
  | step op next, fs => fs :: (next (op.act.run fs).1).states (op.act.run fs).2

/-- Goes on with what a program leads to. -/
def bind : FileProgram α → (α → FileProgram β) → FileProgram β
  | done a, k => k a
  | step op next, k => step op fun answer => (next answer).bind k

theorem run_bind (p : FileProgram α) (k : α → FileProgram β) (fs : FileSystem) :
    (p.bind k).run fs = (k (p.run fs).1).run (p.run fs).2 := by
  induction p generalizing fs with
  | done a => rfl
  | step op next ih => exact ih _ _

theorem start_mem_states (p : FileProgram α) (fs : FileSystem) : fs ∈ p.states fs := by
  cases p with
  | done a => exact List.mem_singleton.2 rfl
  | step op next => exact List.mem_cons_self

/-- The states of programs in a row are those of the one and those of the other. -/
theorem mem_states_bind (p : FileProgram α) (k : α → FileProgram β) :
    mid ∈ (p.bind k).states fs ↔
      mid ∈ p.states fs ∨ mid ∈ (k (p.run fs).1).states (p.run fs).2 := by
  induction p generalizing fs with
  | done a =>
    have hstart := start_mem_states (k a) fs
    rw [bind, run, states, List.mem_singleton]
    exact ⟨.inr, fun h => h.elim (fun heq => heq ▸ hstart) id⟩
  | step op next ih =>
    rw [bind, states, states, run, List.mem_cons, List.mem_cons, ih, or_assoc]

theorem run_mem_states (p : FileProgram α) (fs : FileSystem) : (p.run fs).2 ∈ p.states fs := by
  induction p generalizing fs with
  | done a => exact List.mem_singleton.2 rfl
  | step op next ih => exact List.mem_cons_of_mem _ (ih _ _)

/-! ### Making directories -/

/-- Creates a directory unless it is there. -/
def makeLast (path : Text) : FileProgram (Except FileError Unit) :=
  step (.makeDir path) fun
    | .ok _ => done (.ok ())
    | .error e => step (.find false (Files.withoutSlashes path)) fun
      | .ok (_, .dir) => done (.ok ())
      | _ => done (.error e)

/-- Creates a directory and those it lies in.  `fuel` bounds their number. -/
def makeDirsUpTo : Nat → Text → FileProgram (Except FileError Unit)
  | 0, path => step (.makeDir path) done
  | fuel + 1, path => step (.find true path) fun
    | .ok (_, .dir) => done (.ok ())
    | .ok _ => done (.error ⟨"mkdir", [path], .notDirectory⟩)
    | .error _ =>
      if !(Files.parentPath path).isEmpty && (Files.parentPath path).length < path.length then
        (makeDirsUpTo fuel (Files.parentPath path)).bind fun
          | .error e => done (.error e)
          | .ok _ => makeLast path
      else makeLast path

/-- Creates a directory and those it lies in, as far as they are missing. -/
def makeDirs (path : Text) : FileProgram (Except FileError Unit) := makeDirsUpTo path.length path

theorem find_act (follow : Bool) (path : Text) (fs : FileSystem) :
    (FileOp.find follow path).act.run fs =
      ((fs.find follow path).mapError (⟨if follow then "stat" else "lstat", [path], ·⟩), fs) := by
  rw [FileOp.act, Files.find, run_get_bind]
  rcases fs.find follow path with e | found <;> rfl

theorem makeDir_act (path : Text) (fs : FileSystem) :
    (FileOp.makeDir path).act.run fs =
      match fs.locate false (Files.withoutSlashes path) with
      | .ok (place, none) => (.ok (), fs.put place .dir)
      | .ok (_, some _) => (.error ⟨"mkdir", [path], .exists⟩, fs)
      | .error e => (.error ⟨"mkdir", [path], e⟩, fs) := by
  rw [FileOp.act, Files.makeDir, run_get_bind]
  rcases fs.locate false (Files.withoutSlashes path) with e | ⟨place, _ | n⟩ <;> rfl

theorem makeLast_run (path : Text) (fs : FileSystem) :
    (makeLast path).run fs = Files.makeLast path fs := by
  rw [makeLast, run, makeDir_act, Files.makeLast]
  cases hl : fs.locate false (Files.withoutSlashes path) with
  | error e =>
    dsimp only
    rw [run, find_act, FileSystem.find, hl]
    rfl
  | ok found =>
    obtain ⟨place, _ | n⟩ := found
    · rfl
    · dsimp only
      rw [run, find_act, FileSystem.find, hl]
      cases n <;> rfl

/-- **The directories of a path are made one by one.** -/
theorem makeDirs_run (path : Text) (fs : FileSystem) :
    (makeDirs path).run fs = (Files.makeDirs path).run fs := by
  have hall : ∀ fuel path fs,
      (makeDirsUpTo fuel path).run fs = (Files.makeDirsUpTo fuel path).run fs := by
    intro fuel
    induction fuel with
    | zero =>
      intro path fs
      rfl
    | succ fuel ih =>
      intro path fs
      rw [Files.makeDirsUpTo_run, makeDirsUpTo, run, find_act]
      rcases fs.find true path with e | ⟨place, _ | _ | _⟩
      · simp only [Except.mapError]
        split
        · rw [run_bind, ih]
          rcases (Files.makeDirsUpTo fuel (Files.parentPath path)).run fs with ⟨e | u, fs'⟩
          · rfl
          · exact makeLast_run path fs'
        · exact makeLast_run path fs
      · rfl
      · rfl
      · rfl
  exact hall path.length path fs

theorem makeDir_grows (hs : fs.Sound) (path : Text) :
    fs.Grows ((FileOp.makeDir path).act.run fs).2 := by
  rw [makeDir_act]
  rcases hl : fs.locate false (Files.withoutSlashes path) with e | ⟨place, _ | n⟩
  · exact hs.grows_refl
  · obtain ⟨hnone, d, c, rfl, hd⟩ := locate_free hs hl
    exact hs.grows_put hd hnone
  · exact hs.grows_refl

theorem makeLast_states (hs : fs.Sound) (path : Text) (h : mid ∈ (makeLast path).states fs) :
    fs.Grows mid := by
  have hgrows := makeDir_grows hs path
  rw [makeLast, states] at h
  rcases List.mem_cons.1 h with rfl | h
  · exact hs.grows_refl
  generalize (FileOp.makeDir path).act.run fs = made at h hgrows
  obtain ⟨e | u, fs'⟩ := made
  · -- the second operation only looks
    dsimp only at h
    rw [states, find_act] at h
    rcases List.mem_cons.1 h with rfl | h
    · exact hgrows
    · split at h <;> exact List.mem_singleton.1 h ▸ hgrows
  · exact List.mem_singleton.1 h ▸ hgrows

/-- **While directories are made, nothing else is new.** -/
theorem makeDirs_states (hs : fs.Sound) (path : Text) (h : mid ∈ (makeDirs path).states fs) :
    fs.Grows mid := by
  have hall : ∀ fuel path fs, fs.Sound → ∀ mid ∈ (makeDirsUpTo fuel path).states fs,
      fs.Grows mid := by
    intro fuel
    induction fuel with
    | zero =>
      intro path fs hs mid h
      rcases List.mem_cons.1 h with rfl | h
      · exact hs.grows_refl
      · exact List.mem_singleton.1 h ▸ makeDir_grows hs path
    | succ fuel ih =>
      intro path fs hs mid h
      rw [makeDirsUpTo, states, find_act] at h
      rcases List.mem_cons.1 h with rfl | h
      · exact hs.grows_refl
      generalize fs.find true path = found at h
      rcases found with e | ⟨place, _ | _ | _⟩
      · change mid ∈ (if _ then _ else _ : FileProgram (Except FileError Unit)).states fs at h
        split at h
        · have hparent := ih (Files.parentPath path) fs hs
          rcases (mem_states_bind _ _).1 h with h | h
          · exact hparent mid h
          · -- the directory above is made first, and only then the last name
            have hmade := hparent _ (run_mem_states _ fs)
            split at h
            · exact List.mem_singleton.1 h ▸ hmade
            · exact hmade.trans (makeLast_states hmade.sound path h)
        · exact makeLast_states hs path h
      · exact List.mem_singleton.1 h ▸ hs.grows_refl
      · exact List.mem_singleton.1 h ▸ hs.grows_refl
      · exact List.mem_singleton.1 h ▸ hs.grows_refl
  exact hall path.length path fs hs mid h

end FileProgram

end MetricHistory
