import Mathlib.Data.List.Induction
import MetricHistory.FileSystem.Operations
import MetricHistory.Proofs.Action
import MetricHistory.Proofs.FileSystem.Walk

/-!
# Making directories

What `Files.makeDirs` does on a normalized path depends on how far the path leads
(`FileSystem.Course`): all the way to a directory, up to a place where nothing is, or up to
something that leads to no directory.

* `Files.makeDirs_there` : nothing is done when the directory is there.
* `Files.makeDirs_missing` : the missing directories are made, from the first one on.
* `Files.makeDirs_blocked` : nothing is made behind a file or a link that leads nowhere.

On any path, `Files.makeDirs` adds directories and changes nothing else (`Files.makeDirs_grows`).
-/

namespace MetricHistory

namespace FileSystem

variable {fs : FileSystem} {links left : Nat} {at_ d : Place} {xs ys : List Text}

/-- Puts the directories on the way down from a directory by names. -/
def plantDirs (fs : FileSystem) (d : Place) : List Text → FileSystem
  | [] => fs
  | c :: cs => (fs.put (d ++ [c]) .dir).plantDirs (d ++ [c]) cs

theorem plantDirs_concat (fs : FileSystem) (d : Place) (cs : List Text) (c : Text) :
    fs.plantDirs d (cs ++ [c]) = (fs.plantDirs d cs).put (d ++ cs ++ [c]) .dir := by
  induction cs generalizing fs d with
  | nil => simp [plantDirs]
  | cons x cs ih => simp [plantDirs, ih]

@[simp] theorem plantDirs_current (fs : FileSystem) (d : Place) (cs : List Text) :
    (fs.plantDirs d cs).current = fs.current := by
  induction cs generalizing fs d with
  | nil => rfl
  | cons x cs ih => exact ih _ _

@[simp] theorem plantDirs_clock (fs : FileSystem) (d : Place) (cs : List Text) :
    (fs.plantDirs d cs).clock = fs.clock := by
  induction cs generalizing fs d with
  | nil => rfl
  | cons x cs ih => exact ih _ _

@[simp] theorem plantDirs_mask (fs : FileSystem) (d : Place) (cs : List Text) :
    (fs.plantDirs d cs).mask = fs.mask := by
  induction cs generalizing fs d with
  | nil => rfl
  | cons x cs ih => exact ih _ _

theorem granted_congr {fs' : FileSystem} (h : fs'.mask = fs.mask) (mode : ℕ) :
    fs'.granted mode = fs.granted mode := by
  rw [granted, h, granted]

@[simp] theorem plantDirs_granted (fs : FileSystem) (d : Place) (cs : List Text) (mode : ℕ) :
    (fs.plantDirs d cs).granted mode = fs.granted mode :=
  granted_congr (plantDirs_mask fs d cs) mode

theorem node?_plantDirs_of {zs ws : List Text} (hz : zs ≠ []) :
    (fs.plantDirs d (zs ++ ws)).node? (d ++ zs) = some .dir := by
  induction ws using List.reverseRecOn with
  | nil =>
    rcases List.eq_nil_or_concat zs with rfl | ⟨init, c, rfl⟩
    · exact absurd rfl hz
    · rw [List.append_nil, List.concat_eq_append, plantDirs_concat, node?_put (by simp)]
      simp
  | append_singleton ws w ih =>
    rw [← List.append_assoc, plantDirs_concat, node?_put (by simp)]
    simp [ih]

theorem node?_plantDirs_last {cs : List Text} (hcs : cs ≠ []) :
    (fs.plantDirs d cs).node? (d ++ cs) = some .dir := by
  have h : (fs.plantDirs d (cs ++ [])).node? (d ++ cs) = some .dir := node?_plantDirs_of hcs
  rwa [List.append_nil] at h

theorem node?_plantDirs_other {cs : List Text} {p : Place}
    (h : ∀ zs ws, cs = zs ++ ws → zs ≠ [] → p ≠ d ++ zs) :
    (fs.plantDirs d cs).node? p = fs.node? p := by
  induction cs using List.reverseRecOn with
  | nil => rfl
  | append_singleton cs c ih =>
    rw [plantDirs_concat, node?_put (by simp), if_neg, ih]
    · intro zs ws hcs hz
      exact h zs (ws ++ [c]) (by simp [hcs]) hz
    · rw [List.append_assoc]
      exact h (cs ++ [c]) [] (by simp) (by simp)

theorem Sound.node?_eq_none (hs : fs.Sound) {c : Text} (h : fs.node? (d ++ [c]) = none)
    (cs : List Text) : fs.node? (d ++ c :: cs) = none := by
  by_cases hcs : cs = []
  · rw [hcs]; exact h
  · have := hs.below_none (p := d ++ [c]) (by rw [h]; simp) hcs
    rwa [List.append_assoc] at this

theorem node?_plantDirs_of_some (hs : fs.Sound) {c : Text} (h : fs.node? (d ++ [c]) = none)
    (cs : List Text) {p : Place} {n : FileNode} (hp : fs.node? p = some n) :
    (fs.plantDirs d (c :: cs)).node? p = some n := by
  rw [node?_plantDirs_other, hp]
  rintro zs ws hcs hz rfl
  cases zs with
  | nil => exact hz rfl
  | cons z zs =>
    rw [List.cons_append, List.cons.injEq] at hcs
    rw [← hcs.1, hs.node?_eq_none h] at hp
    simp at hp

theorem reaches_names {cs : List Text} (hn : ∀ c ∈ cs, Path.IsName c)
    (h : ∀ zs ws, cs = zs ++ ws → zs ≠ [] → fs.node? (d ++ zs) = some .dir) :
    Reaches fs links d cs links (d ++ cs) := by
  induction cs generalizing d with
  | nil => simpa using Reaches.here links d
  | cons c cs ih =>
    have hc := hn c (by simp)
    have hrest : Reaches fs links (d ++ [c]) cs links (d ++ [c] ++ cs) := by
      refine ih (fun e he => hn e (by simp [he])) fun zs ws hcs hz => ?_
      rw [List.append_assoc]
      exact h (c :: zs) ws (by simp [hcs]) (by simp)
    rw [List.append_assoc] at hrest
    exact .down hc.ne_dot hc.ne_dotdot (h [c] cs rfl (by simp)) hrest

theorem reaches_plantDirs {cs : List Text} (hn : ∀ c ∈ cs, Path.IsName c) :
    Reaches (fs.plantDirs d cs) links d cs links (d ++ cs) :=
  reaches_names hn fun _ _ hcs hz => hcs ▸ node?_plantDirs_of hz

theorem Reaches.plantDirs {xs : List Text} (hs : fs.Sound) {c : Text}
    (hx : Reaches fs links at_ xs left d) (h : fs.node? (d ++ [c]) = none) {cs : List Text}
    (hn : ∀ a ∈ c :: cs, Path.IsName a) :
    Reaches (fs.plantDirs d (c :: cs)) links at_ (xs ++ c :: cs) left (d ++ c :: cs) :=
  (hx.mono (.of_node? fun _ _ hp => node?_plantDirs_of_some hs h cs hp)).trans (reaches_plantDirs hn)

theorem node?_plantDirs_next (hs : fs.Sound) {c : Text} (h : fs.node? (d ++ [c]) = none)
    (cs : List Text) (e : Text) :
    (fs.plantDirs d (c :: cs)).node? (d ++ c :: cs ++ [e]) = none := by
  rw [node?_plantDirs_other, List.append_assoc, List.cons_append, hs.node?_eq_none h]
  intro zs ws hcs _ heq
  rw [List.append_assoc] at heq
  have h₁ := congrArg List.length (List.append_cancel_left heq)
  have h₂ := congrArg List.length hcs
  simp only [List.length_append, List.length_cons, List.length_nil] at h₁ h₂
  omega

theorem Sound.plantDirs (hs : fs.Sound) (hd : fs.node? d = some .dir) {c : Text}
    (h : fs.node? (d ++ [c]) = none) (cs : List Text) : (fs.plantDirs d (c :: cs)).Sound := by
  induction cs using List.reverseRecOn with
  | nil => exact hs.put hd (by rw [h]; simp) .dir
  | append_singleton cs e ih =>
    rw [← List.cons_append, plantDirs_concat]
    refine ih.put (node?_plantDirs_last (by simp)) ?_ .dir
    rw [node?_plantDirs_next hs h]
    simp

/-- Directories have been added where nothing was, and nothing else has changed. -/
structure Grows (fs fs' : FileSystem) : Prop where
  keep : ∀ {p : Place} {n : FileNode}, fs.node? p = some n → fs'.node? p = some n
  new : ∀ {p : Place} {n : FileNode}, fs'.node? p = some n → n ≠ .dir → fs.node? p = some n
  current : fs'.current = fs.current
  clock : fs'.clock = fs.clock
  mask : fs'.mask = fs.mask
  sound : fs'.Sound

theorem Sound.grows_refl (hs : fs.Sound) : fs.Grows fs := ⟨id, fun h _ => h, rfl, rfl, rfl, hs⟩

theorem Grows.trans {fs₁ fs₂ fs₃ : FileSystem} (h : fs₁.Grows fs₂) (h' : fs₂.Grows fs₃) :
    fs₁.Grows fs₃ where
  keep hp := h'.keep (h.keep hp)
  new hp hn := h.new (h'.new hp hn) hn
  current := h'.current.trans h.current
  clock := h'.clock.trans h.clock
  mask := h'.mask.trans h.mask
  sound := h'.sound

theorem Sound.grows_put (hs : fs.Sound) {c : Text} (hd : fs.node? d = some .dir)
    (h : fs.node? (d ++ [c]) = none) : fs.Grows (fs.put (d ++ [c]) .dir) := by
  have hnode : ∀ q, (fs.put (d ++ [c]) .dir).node? q =
      if q = d ++ [c] then some .dir else fs.node? q :=
    node?_put (by simp) _
  refine ⟨fun {p n} hp => ?_, fun {p n} hp hn => ?_, rfl, rfl, rfl,
    hs.put hd (by simp [h]) .dir⟩
  · rw [hnode, if_neg (by rintro rfl; simp [h] at hp), hp]
  · rw [hnode] at hp
    split at hp
    · exact absurd (Option.some.inj hp).symm hn
    · exact hp

/-! ### How far a path leads -/

/-- How far steps lead from a place. -/
inductive Course (fs : FileSystem) (links : Nat) (at_ : Place) (ps : List Text) : Prop
  /-- They lead to a directory. -/
  | there (left : Nat) (d : Place) (h : Reaches fs links at_ ps left d)
  /-- They lead to a directory in which the next name is free. -/
  | missing (xs : List Text) (c : Text) (ys : List Text) (left : Nat) (d : Place)
      (hps : ps = xs ++ c :: ys) (hx : Reaches fs links at_ xs left d) (hc : c ≠ Path.dotdot)
      (hnone : fs.node? (d ++ [c]) = none)
  /-- They lead to a directory in which the next name is taken by something that leads to no
  directory. -/
  | blocked (xs : List Text) (c : Text) (ys : List Text) (left : Nat) (d : Place) (m : FileNode)
      (hps : ps = xs ++ c :: ys) (hx : Reaches fs links at_ xs left d) (hc : c ≠ Path.dotdot)
      (hnode : fs.node? (d ++ [c]) = some m)
      (hno : ∀ left' d', ¬ Reaches fs links at_ (xs ++ [c]) left' d')

theorem course (fs : FileSystem) (links : Nat) (at_ : Place) {ps : List Text}
    (h : ∀ c ∈ ps, c ≠ Path.dot) : Course fs links at_ ps := by
  induction ps using List.reverseRecOn with
  | nil => exact .there links at_ (.here _ _)
  | append_singleton ps e ih =>
    rcases ih fun c hc => h c (by simp [hc]) with ⟨left, d, hr⟩ | ⟨xs, c, ys, left, d, hps, hx, hc, hn⟩ |
      ⟨xs, c, ys, left, d, m, hps, hx, hc, hn, hno⟩
    · by_cases hall : ∃ left' d', Reaches fs links at_ (ps ++ [e]) left' d'
      · obtain ⟨left', d', h'⟩ := hall
        exact .there left' d' h'
      have hno : ∀ left' d', ¬ Reaches fs links at_ (ps ++ [e]) left' d' :=
        fun left' d' h' => hall ⟨left', d', h'⟩
      have hee : e ≠ Path.dotdot := by
        rintro rfl
        exact hno _ _ (hr.trans (.up (.here _ _)))
      cases hn : fs.node? (d ++ [e]) with
      | none => exact .missing ps e [] left d rfl hr hee hn
      | some m => exact .blocked ps e [] left d m rfl hr hee hn hno
    · exact .missing xs c (ys ++ [e]) left d (by simp [hps]) hx hc hn
    · exact .blocked xs c (ys ++ [e]) left d m (by simp [hps]) hx hc hn hno

end FileSystem

namespace Files

open FileSystem

theorem dropWhile_reverse_append {p : UInt8 → Bool} {a c : Text} (hc : ∀ b ∈ c, p b = true)
    (ha : ∀ b, a.getLast? = some b → p b = false) :
    ((a ++ c).reverse.dropWhile p).reverse = a := by
  have hr : ∀ b ∈ c.reverse, p b = true := fun b hb => hc b (List.mem_reverse.1 hb)
  rw [List.reverse_append, List.dropWhile_append_of_pos hr]
  rcases List.eq_nil_or_concat a with rfl | ⟨init, l, rfl⟩
  · rfl
  · have hl : p l = false := ha l (by simp)
    rw [List.concat_eq_append, List.reverse_append]
    simp [hl]

theorem trimmed_render {n : Path.Normal} (hn : n.Proper) (h : n.parts ≠ []) :
    (n.render.reverse.dropWhile (· == Path.slash)).reverse = n.render := by
  have ht : ((n.render ++ []).reverse.dropWhile (· == Path.slash)).reverse = n.render :=
    dropWhile_reverse_append (by simp) fun b hb => by simpa using hn.getLast?_render_ne_slash h hb
  rwa [List.append_nil] at ht

theorem withoutSlashes_render {n : Path.Normal} (hn : n.Proper) (h : n.parts ≠ []) :
    withoutSlashes n.render = n.render := by
  have hne : n.render.isEmpty = false := by simpa using Path.Normal.render_ne_nil hn
  simp only [withoutSlashes, trimmed_render hn h, hne, Bool.false_eq_true, if_false]

theorem parentPath_render {r : Bool} {ps : List Text} {c : Text}
    (h : Path.Normal.Proper ⟨r, ps ++ [c]⟩) :
    parentPath (Path.Normal.render ⟨r, ps ++ [c]⟩) =
      if r = false ∧ ps = [] then [] else Path.Normal.render ⟨r, ps⟩ := by
  have hc : ∀ b ∈ c, (b != Path.slash) = true := by
    intro b hb
    rw [bne_iff_ne]
    rintro rfl
    exact h.slash_not_mem (by simp) hb
  simp only [parentPath, trimmed_render h (by simp)]
  rw [Path.Normal.render_concat]
  by_cases hr : r = false ∧ ps = []
  · -- the path is one name, and nothing is above it
    have habove : (([] ++ c).reverse.dropWhile (· != Path.slash)).reverse = [] :=
      dropWhile_reverse_append hc (by simp)
    rw [List.nil_append] at habove
    simp [hr, habove]
  · simp only [hr, if_false]
    generalize hf : (if ps = [] then [] else Path.Normal.render ⟨r, ps⟩) = front
    have habove : ((front ++ Path.slash :: c).reverse.dropWhile (· != Path.slash)).reverse =
        front ++ [Path.slash] := by
      have : front ++ Path.slash :: c = (front ++ [Path.slash]) ++ c := by simp
      rw [this]
      exact dropWhile_reverse_append hc (by simp)
    -- the slash at the end goes, too, unless it is the root
    have hbare : ((front ++ [Path.slash]).reverse.dropWhile (· == Path.slash)).reverse = front := by
      refine dropWhile_reverse_append (by simp) fun b hb => ?_
      by_cases hps : ps = []
      · simp [← hf, hps] at hb
      · simp only [hps, if_false] at hf
        subst hf
        simpa using h.init.getLast?_render_ne_slash hps hb
    rw [habove, hbare]
    by_cases hps : ps = []
    · have hrt : r = true := by simpa [hps] using hr
      subst hrt hps
      simp only [if_true] at hf
      subst hf
      decide
    · simp only [hps, if_false] at hf
      have : front.isEmpty = false := by
        rw [← hf]
        simpa using Path.Normal.render_ne_nil h.init
      simp [this, hf]

/-- What the creation of a directory does once those it lies in are there. -/
def makeLast (path : Text) (fs : FileSystem) : Except FileError Unit × FileSystem :=
  match fs.locate false (withoutSlashes path) with
  | .ok (place, none) => (.ok (), fs.put place .dir)
  | .ok (_, some .dir) => (.ok (), fs)
  | .ok (_, some _) => (.error ⟨"mkdir", [path], .exists⟩, fs)
  | .error e => (.error ⟨"mkdir", [path], e⟩, fs)

theorem makeDirsUpTo_run (fuel : Nat) (path : Text) (fs : FileSystem) :
    (makeDirsUpTo (fuel + 1) path).run fs =
      match fs.find true path with
      | .ok (_, .dir) => (.ok (), fs)
      | .ok _ => (.error ⟨"mkdir", [path], .notDirectory⟩, fs)
      | .error _ =>
        if !(parentPath path).isEmpty && (parentPath path).length < path.length then
          match (makeDirsUpTo fuel (parentPath path)).run fs with
          | (.error e, fs) => (.error e, fs)
          | (.ok _, fs) => makeLast path fs
        else makeLast path fs := by
  -- the last name alone
  have last : ∀ fs, ((do
      match (← get).locate false (withoutSlashes path) with
      | .ok (place, none) => modify fun fs => fs.put place .dir
      | .ok (_, some .dir) => return
      | .ok (_, some _) => fail "mkdir" path .exists
      | .error e => fail "mkdir" path e : Files Unit)).run fs = makeLast path fs := by
    intro fs
    rw [run_get_bind, makeLast]
    rcases fs.locate false (withoutSlashes path) with e | ⟨p, _ | _ | _ | _⟩ <;> rfl
  rw [makeDirsUpTo, run_get_bind]
  rcases fs.find true path with e | ⟨p, _ | _ | _⟩
  · simp only
    split
    · rw [run_bind]
      rcases (makeDirsUpTo fuel (parentPath path)).run fs with ⟨e | a, fs'⟩
      · rfl
      · exact last fs'
    · exact last fs
  · rfl
  · rfl
  · rfl

variable {fs : FileSystem} {n : Path.Normal} {xs ys : List Text} {c : Text} {left : Nat}
  {d : Place}

theorem find_render_dir (hn : n.Proper)
    (h : Reaches fs linkLimit (fs.origin n.rooted) n.parts left d) :
    fs.find true n.render = .ok (d, .dir) := by
  rw [FileSystem.find, locate_render hn, h.walk_eq]

theorem reaches_of_find (hn : n.Proper) (h : fs.find true n.render = .ok (d, .dir)) :
    ∃ left, Reaches fs linkLimit (fs.origin n.rooted) n.parts left d := by
  rw [FileSystem.find, locate_render hn] at h
  split at h
  · simp at h
  · simp at h
  · rename_i hw
    simp only [Except.ok.injEq, Prod.mk.injEq] at h
    obtain ⟨rfl, rfl⟩ := h
    exact reaches_of_walk_dir hw

/-- As much fuel as a path is long is some fuel. -/
theorem exists_fuel (hn : n.Proper) {fuel : Nat} (hf : n.render.length ≤ fuel) :
    ∃ k, fuel = k + 1 := by
  have := List.length_pos_iff.2 (Path.Normal.render_ne_nil hn)
  exact ⟨fuel - 1, by omega⟩

/-- A directory that is there is not made again. -/
theorem makeDirsUpTo_there (hn : n.Proper)
    (h : Reaches fs linkLimit (fs.origin n.rooted) n.parts left d) {fuel : Nat}
    (hf : n.render.length ≤ fuel) : (makeDirsUpTo fuel n.render).run fs = (.ok (), fs) := by
  obtain ⟨fuel, rfl⟩ := exists_fuel hn hf
  rw [makeDirsUpTo_run, find_render_dir hn h]

theorem makeDirsUpTo_other {path : Text} {p : Place} {k : FileNode}
    (hfind : fs.find true path = .ok (p, k)) (hk : k ≠ .dir) (fuel : Nat) :
    ∃ e, (makeDirsUpTo (fuel + 1) path).run fs = (.error e, fs) := by
  rw [makeDirsUpTo_run, hfind]
  cases k with
  | dir => exact absurd rfl hk
  | file => exact ⟨_, rfl⟩
  | link => exact ⟨_, rfl⟩

theorem length_render_init {r : Bool} {ps : List Text} (h : Path.Normal.Proper ⟨r, ps ++ [c]⟩)
    (hr : ¬ (r = false ∧ ps = [])) :
    (Path.Normal.render ⟨r, ps⟩).length < (Path.Normal.render ⟨r, ps ++ [c]⟩).length := by
  have hc : 0 < c.length := List.length_pos_iff.2 (h.part_ne_nil (by simp))
  rw [Path.Normal.render_concat, if_neg hr]
  by_cases hps : ps = []
  · have hrt : r = true := by simpa [hps] using hr
    subst hrt hps
    simp [Path.Normal.render, Text.join]
    omega
  · simp [hps]

theorem makeDirsUpTo_above {r : Bool} {ps : List Text} (hn : Path.Normal.Proper ⟨r, ps ++ [c]⟩)
    (h : Reaches fs linkLimit (fs.origin r) ps left d) {fuel : Nat}
    (hf : (Path.Normal.render ⟨r, ps ++ [c]⟩).length ≤ fuel + 1) (hr : ¬ (r = false ∧ ps = [])) :
    (makeDirsUpTo fuel (Path.Normal.render ⟨r, ps⟩)).run fs = (.ok (), fs) := by
  have hlen := length_render_init hn hr
  exact makeDirsUpTo_there hn.init h (by omega)

/-- A directory is missing as long as following its path fails; then the one above it comes
first. -/
theorem makeDirsUpTo_concat {r : Bool} {ps : List Text} {e : Errno} {fs' : FileSystem}
    (hn : Path.Normal.Proper ⟨r, ps ++ [c]⟩)
    (hfind : fs.find true (Path.Normal.render ⟨r, ps ++ [c]⟩) = .error e) {fuel : Nat}
    (hparent : ¬ (r = false ∧ ps = []) →
      (makeDirsUpTo fuel (Path.Normal.render ⟨r, ps⟩)).run fs = (.ok (), fs'))
    (halone : r = false ∧ ps = [] → fs' = fs) :
    (makeDirsUpTo (fuel + 1) (Path.Normal.render ⟨r, ps ++ [c]⟩)).run fs =
      makeLast (Path.Normal.render ⟨r, ps ++ [c]⟩) fs' := by
  rw [makeDirsUpTo_run, hfind]
  simp only [parentPath_render hn]
  by_cases hr : r = false ∧ ps = []
  · rw [if_pos hr, halone hr]
    rfl
  · have hne : (Path.Normal.render ⟨r, ps⟩).isEmpty = false := by
      simpa using Path.Normal.render_ne_nil hn.init
    simp only [hr, if_false, hne, Bool.not_false, Bool.true_and,
      length_render_init hn hr, decide_true, if_true, hparent hr]

theorem makeLast_render (hn : n.Proper) (h : n.parts ≠ []) :
    makeLast n.render fs =
      match fs.walk false linkLimit (fs.origin n.rooted) n.parts with
      | .ok (place, none) => (.ok (), fs.put place .dir)
      | .ok (_, some .dir) => (.ok (), fs)
      | .ok (_, some _) => (.error ⟨"mkdir", [n.render], .exists⟩, fs)
      | .error e => (.error ⟨"mkdir", [n.render], e⟩, fs) := by
  rw [makeLast, withoutSlashes_render hn h, locate_render hn]

/-- **The directories that are missing are made**, from the first missing one on. -/
theorem makeDirsUpTo_missing {r : Bool} (hs : fs.Sound)
    (hx : Reaches fs linkLimit (fs.origin r) xs left d) (hc : c ≠ Path.dotdot)
    (hnone : fs.node? (d ++ [c]) = none) (hn : Path.Normal.Proper ⟨r, xs ++ c :: ys⟩)
    {fuel : Nat} (hf : (Path.Normal.render ⟨r, xs ++ c :: ys⟩).length ≤ fuel) :
    (makeDirsUpTo fuel (Path.Normal.render ⟨r, xs ++ c :: ys⟩)).run fs =
      (.ok (), fs.plantDirs d (c :: ys)) := by
  have hd : c ≠ Path.dot := hn.part_ne_dot (by simp)
  induction ys using List.reverseRecOn generalizing fuel with
  | nil =>
    have hwalk : ∀ follow, fs.walk follow linkLimit (fs.origin r) (xs ++ [c]) =
        .ok (d ++ [c], none) := by
      intro follow
      rw [hx.walk_append (.inr (by simp)), walk_name hd hc, hnone]
    have hfind : fs.find true (Path.Normal.render ⟨r, xs ++ [c]⟩) = .error .noEntry := by
      rw [FileSystem.find, locate_render hn, hwalk]
    obtain ⟨fuel, rfl⟩ := exists_fuel hn hf
    rw [makeDirsUpTo_concat hn hfind (makeDirsUpTo_above hn hx hf) fun _ => rfl,
      makeLast_render hn (by simp), hwalk]
    rfl
  | append_singleton ys e ih =>
    have hparts : xs ++ c :: (ys ++ [e]) = (xs ++ c :: ys) ++ [e] := by simp
    have hnames : ∀ a ∈ c :: (ys ++ [e]), Path.IsName a := by
      intro a ha
      rcases List.mem_cons.1 ha with rfl | ha
      · exact hn.part (by simp) hc
      · exact hn.names_after rfl hc a ha
    rw [hparts] at hn hf ⊢
    have hfind : fs.find true (Path.Normal.render ⟨r, (xs ++ c :: ys) ++ [e]⟩) =
        .error .noEntry := by
      rw [FileSystem.find, locate_render hn]
      simp only
      rw [List.append_assoc, hx.walk_append (.inr (by simp)), List.cons_append, walk, if_neg hd,
        if_neg hc]
      simp [hnone]
    obtain ⟨fuel, rfl⟩ := exists_fuel hn hf
    have hlen := length_render_init hn (by simp)
    have hparent := ih hn.init (Nat.lt_succ_iff.1 (Nat.lt_of_lt_of_le hlen hf))
    rw [makeDirsUpTo_concat hn hfind (fun _ => hparent) (by simp), makeLast_render hn (by simp)]
    -- the new directories lead to the place of the last one, where nothing is yet
    have horigin : (fs.plantDirs d (c :: ys)).origin r = fs.origin r := by
      simp only [origin, plantDirs_current]
    have hreach := hx.plantDirs hs hnone fun a ha => hnames a (by simp at ha ⊢; tauto)
    have hfree := node?_plantDirs_next hs hnone ys e
    have he := hnames e (by simp)
    simp only
    rw [horigin, hreach.walk_append (.inr (by simp)), walk_name he.ne_dot he.ne_dotdot, hfree]
    rw [← List.cons_append, plantDirs_concat]

/-- **Nothing is made behind a file or a link that leads to no directory.** -/
theorem makeDirsUpTo_blocked {r : Bool} {m : FileNode}
    (hx : Reaches fs linkLimit (fs.origin r) xs left d) (hc : c ≠ Path.dotdot)
    (hnode : fs.node? (d ++ [c]) = some m)
    (hno : ∀ left' d', ¬ Reaches fs linkLimit (fs.origin r) (xs ++ [c]) left' d')
    (hn : Path.Normal.Proper ⟨r, xs ++ c :: ys⟩) {fuel : Nat}
    (hf : (Path.Normal.render ⟨r, xs ++ c :: ys⟩).length ≤ fuel) :
    ∃ e, (makeDirsUpTo fuel (Path.Normal.render ⟨r, xs ++ c :: ys⟩)).run fs = (.error e, fs) := by
  have hd : c ≠ Path.dot := hn.part_ne_dot (by simp)
  have hm : m ≠ .dir := by
    rintro rfl
    exact hno _ _ (hx.trans (.down hd hc hnode (.here _ _)))
  -- the induction is on the names behind the blocked one: the directory above is tried first
  induction ys using List.reverseRecOn generalizing fuel with
  | nil =>
    obtain ⟨fuel, rfl⟩ := exists_fuel hn hf
    rcases hfind : fs.find true (Path.Normal.render ⟨r, xs ++ [c]⟩) with e | ⟨p, k⟩
    · have hwalk : fs.walk false linkLimit (fs.origin r) (xs ++ [c]) = .ok (d ++ [c], some m) := by
        rw [hx.walk_append (.inr (by simp)), walk_name hd hc, hnode]
        cases m <;> rfl
      rw [makeDirsUpTo_concat hn hfind (makeDirsUpTo_above hn hx hf) fun _ => rfl,
        makeLast_render hn (by simp), hwalk]
      cases m with
      | dir => exact absurd rfl hm
      | file => exact ⟨_, rfl⟩
      | link => exact ⟨_, rfl⟩
    · refine makeDirsUpTo_other hfind ?_ fuel
      rintro rfl
      obtain ⟨left', h⟩ := reaches_of_find hn hfind
      exact hno _ _ h
  | append_singleton ys e ih =>
    have hparts : xs ++ c :: (ys ++ [e]) = (xs ++ c :: ys) ++ [e] := by simp
    rw [hparts] at hn hf ⊢
    obtain ⟨fuel, rfl⟩ := exists_fuel hn hf
    rcases hfind : fs.find true (Path.Normal.render ⟨r, (xs ++ c :: ys) ++ [e]⟩) with e' | ⟨p, k⟩
    · have hlen := length_render_init hn (by simp)
      obtain ⟨err, hparent⟩ := ih hn.init (Nat.lt_succ_iff.1 (Nat.lt_of_lt_of_le hlen hf))
      have hne : (Path.Normal.render ⟨r, xs ++ c :: ys⟩).isEmpty = false := by
        simpa using Path.Normal.render_ne_nil hn.init
      rw [makeDirsUpTo_run, hfind]
      refine ⟨err, ?_⟩
      simp only [parentPath_render hn, List.append_eq_nil_iff, List.cons_ne_nil, and_false, if_false,
        hne, Bool.not_false, Bool.true_and, hlen, decide_true, if_true, hparent]
    · refine makeDirsUpTo_other hfind ?_ fuel
      rintro rfl
      obtain ⟨left', h⟩ := reaches_of_find hn hfind
      simp only at h
      rw [List.append_assoc, List.cons_append, ← List.singleton_append, ← List.append_assoc] at h
      obtain ⟨l, a, h, -⟩ := h.split
      exact hno _ _ h

/-! ### The three outcomes -/

theorem makeDirs_there (hn : n.Proper)
    (h : Reaches fs linkLimit (fs.origin n.rooted) n.parts left d) :
    (makeDirs n.render).run fs = (.ok (), fs) :=
  makeDirsUpTo_there hn h (Nat.le_refl _)

theorem makeDirs_of_isDir {path : Text} (h : fs.isDir path = true) :
    (makeDirs path).run fs = (.ok (), fs) := by
  cases path with
  | nil => simp [FileSystem.isDir, FileSystem.find, FileSystem.locate] at h
  | cons b rest =>
    change (makeDirsUpTo (rest.length + 1) (b :: rest)).run fs = _
    rw [makeDirsUpTo_run]
    rw [FileSystem.isDir] at h
    split at h
    · rename_i n hfind
      cases n <;> simp_all [FileNode.isDir]
    · simp at h

theorem makeDirs_missing {r : Bool} (hs : fs.Sound)
    (hx : Reaches fs linkLimit (fs.origin r) xs left d) (hc : c ≠ Path.dotdot)
    (hnone : fs.node? (d ++ [c]) = none) (hn : Path.Normal.Proper ⟨r, xs ++ c :: ys⟩) :
    (makeDirs (Path.Normal.render ⟨r, xs ++ c :: ys⟩)).run fs =
      (.ok (), fs.plantDirs d (c :: ys)) :=
  makeDirsUpTo_missing hs hx hc hnone hn (Nat.le_refl _)

theorem makeDirs_blocked {r : Bool} {m : FileNode}
    (hx : Reaches fs linkLimit (fs.origin r) xs left d) (hc : c ≠ Path.dotdot)
    (hnode : fs.node? (d ++ [c]) = some m)
    (hno : ∀ left' d', ¬ Reaches fs linkLimit (fs.origin r) (xs ++ [c]) left' d')
    (hn : Path.Normal.Proper ⟨r, xs ++ c :: ys⟩) :
    ∃ e, (makeDirs (Path.Normal.render ⟨r, xs ++ c :: ys⟩)).run fs = (.error e, fs) :=
  makeDirsUpTo_blocked hx hc hnode hno hn (Nat.le_refl _)

/-! ### Any path -/

theorem makeLast_grows (hs : fs.Sound) (path : Text) : fs.Grows (makeLast path fs).2 := by
  unfold makeLast
  split
  · rename_i place hl
    obtain ⟨hnone, d, c, rfl, hd⟩ := locate_free hs hl
    exact hs.grows_put hd hnone
  · exact hs.grows_refl
  · exact hs.grows_refl
  · exact hs.grows_refl

/-- **Making directories adds directories and changes nothing else.** -/
theorem makeDirs_grows (hs : fs.Sound) (path : Text) : fs.Grows ((makeDirs path).run fs).2 := by
  have hall : ∀ fuel path, fs.Grows ((makeDirsUpTo fuel path).run fs).2 := by
    intro fuel
    induction fuel with
    | zero =>
      intro path
      rw [makeDirsUpTo, makeDir, run_get_bind]
      rcases hl : fs.locate false (withoutSlashes path) with e | ⟨q, _ | n⟩
      · exact hs.grows_refl
      · obtain ⟨hnone, d, c, rfl, hd⟩ := locate_free hs hl
        exact hs.grows_put hd hnone
      · exact hs.grows_refl
    | succ fuel ih =>
      intro path
      rw [makeDirsUpTo_run]
      split
      · exact hs.grows_refl
      · exact hs.grows_refl
      split
      · have hparent := ih (parentPath path)
        split
        · rename_i hrun
          rw [hrun] at hparent
          exact hparent
        · rename_i hrun
          rw [hrun] at hparent
          exact hparent.trans (makeLast_grows hparent.sound path)
      · exact makeLast_grows hs path
  exact hall path.length path

end Files

end MetricHistory
