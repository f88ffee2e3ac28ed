import MetricHistory.FileSystem.Basic
import MetricHistory.Proofs.Path.Below

/-!
# Following paths

`FileSystem.walk` gives an answer or an error; `FileSystem.Reaches` says how a walk gets to a
directory, step by step, and how many links it may still follow there.

* `FileSystem.Reaches.walk_append` : the rest of a walk starts where its beginning leads.
* `FileSystem.firstStep_of_walk` : what the first step of a walk with an answer can do.
* `FileSystem.reaches_of_walk_ok` : a walk with an answer has gone through directories.
* `FileSystem.Reaches.mono` : a walk is not disturbed as long as no directory and no link goes
  away (`FileSystem.Keeps`).
* `FileSystem.locate_render` : following a normalized path walks its components.

`FileSystem.Sound` is what every file system satisfies: everything that is there is in a
directory.
-/

namespace MetricHistory

namespace FileSystem

/-- Following steps from the directory `at_` with `links` links to spare leads to the directory
`d` and leaves `left` links. -/
inductive Reaches (fs : FileSystem) : Nat → Place → List Text → Nat → Place → Prop
  | here (links : Nat) (at_ : Place) : Reaches fs links at_ [] links at_
  | stay {links left : Nat} {at_ d : Place} {rest : List Text}
      (h : Reaches fs links at_ rest left d) : Reaches fs links at_ (Path.dot :: rest) left d
  | up {links left : Nat} {at_ d : Place} {rest : List Text}
      (h : Reaches fs links at_.dropLast rest left d) :
      Reaches fs links at_ (Path.dotdot :: rest) left d
  | down {links left : Nat} {at_ d : Place} {step : Text} {rest : List Text}
      (h₁ : step ≠ Path.dot) (h₂ : step ≠ Path.dotdot)
      (hn : fs.node? (at_ ++ [step]) = some .dir)
      (h : Reaches fs links (at_ ++ [step]) rest left d) :
      Reaches fs links at_ (step :: rest) left d
  | follow {links left : Nat} {at_ d : Place} {step target : Text} {rest : List Text}
      (h₁ : step ≠ Path.dot) (h₂ : step ≠ Path.dotdot)
      (hn : fs.node? (at_ ++ [step]) = some (.link target)) (ht : target ≠ [])
      (h : Reaches fs links (if Path.isAbsolute target then [] else at_)
        (steps target ++ rest) left d) :
      Reaches fs (links + 1) at_ (step :: rest) left d

/-- The directories and links of `fs` are in `fs'` too. -/
structure Keeps (fs fs' : FileSystem) : Prop where
  dir : ∀ {p : Place}, fs.node? p = some .dir → fs'.node? p = some .dir
  link : ∀ {p : Place} {t : Text}, fs.node? p = some (.link t) → fs'.node? p = some (.link t)

theorem Keeps.refl (fs : FileSystem) : fs.Keeps fs := ⟨id, id⟩

theorem Keeps.trans {fs₁ fs₂ fs₃ : FileSystem} (h : fs₁.Keeps fs₂) (h' : fs₂.Keeps fs₃) :
    fs₁.Keeps fs₃ :=
  ⟨h'.dir ∘ h.dir, h'.link ∘ h.link⟩

theorem Keeps.of_node? {fs fs' : FileSystem}
    (h : ∀ p n, fs.node? p = some n → fs'.node? p = some n) : fs.Keeps fs' :=
  ⟨h _ _, h _ _⟩

variable {fs : FileSystem} {links left : Nat} {at_ d : Place} {xs ys : List Text}

namespace Reaches

theorem trans {left' : Nat} {d' : Place} (h : Reaches fs links at_ xs left d)
    (h' : Reaches fs left d ys left' d') : Reaches fs links at_ (xs ++ ys) left' d' := by
  induction h with
  | here => exact h'
  | stay _ ih => exact .stay (ih h')
  | up _ ih => exact .up (ih h')
  | down h₁ h₂ hn _ ih => exact .down h₁ h₂ hn (ih h')
  | follow h₁ h₂ hn ht _ ih =>
    have h := ih h'
    rw [List.append_assoc] at h
    exact .follow h₁ h₂ hn ht h

theorem split (h : Reaches fs links at_ (xs ++ ys) left d) :
    ∃ left' d', Reaches fs links at_ xs left' d' ∧ Reaches fs left' d' ys left d := by
  generalize hz : xs ++ ys = zs at h
  -- the induction is on the walk: its first step belongs to the first part, unless that is used up
  induction h generalizing xs with
  | here links at_ =>
    obtain ⟨rfl, rfl⟩ := List.append_eq_nil_iff.1 hz
    exact ⟨links, at_, .here _ _, .here _ _⟩
  | @stay links left at_ d rest h ih =>
    cases xs with
    | nil => exact ⟨links, at_, .here _ _, by rw [List.nil_append] at hz; exact hz ▸ .stay h⟩
    | cons x xs =>
      rw [List.cons_append, List.cons.injEq] at hz
      obtain ⟨rfl, hz⟩ := hz
      obtain ⟨l', d', h₁, h₂⟩ := ih hz
      exact ⟨l', d', .stay h₁, h₂⟩
  | @up links left at_ d rest h ih =>
    cases xs with
    | nil => exact ⟨links, at_, .here _ _, by rw [List.nil_append] at hz; exact hz ▸ .up h⟩
    | cons x xs =>
      rw [List.cons_append, List.cons.injEq] at hz
      obtain ⟨rfl, hz⟩ := hz
      obtain ⟨l', d', h₁, h₂⟩ := ih hz
      exact ⟨l', d', .up h₁, h₂⟩
  | @down links left at_ d step rest hd hdd hn h ih =>
    cases xs with
    | nil =>
      exact ⟨links, at_, .here _ _, by rw [List.nil_append] at hz; exact hz ▸ .down hd hdd hn h⟩
    | cons x xs =>
      rw [List.cons_append, List.cons.injEq] at hz
      obtain ⟨rfl, hz⟩ := hz
      obtain ⟨l', d', h₁, h₂⟩ := ih hz
      exact ⟨l', d', .down hd hdd hn h₁, h₂⟩
  | @follow links left at_ d step target rest hd hdd hn ht h ih =>
    cases xs with
    | nil =>
      exact ⟨links + 1, at_, .here _ _,
        by rw [List.nil_append] at hz; exact hz ▸ .follow hd hdd hn ht h⟩
    | cons x xs =>
      rw [List.cons_append, List.cons.injEq] at hz
      obtain ⟨rfl, hz⟩ := hz
      have hz' : (steps target ++ xs) ++ ys = steps target ++ rest := by rw [List.append_assoc, hz]
      obtain ⟨l', d', h₁, h₂⟩ := ih hz'
      exact ⟨l', d', .follow hd hdd hn ht h₁, h₂⟩

/-- A walk goes on as before when no directory and no link goes away. -/
theorem mono {fs' : FileSystem} (hle : fs.Keeps fs') (h : Reaches fs links at_ xs left d) :
    Reaches fs' links at_ xs left d := by
  induction h with
  | here => exact .here _ _
  | stay _ ih => exact .stay ih
  | up _ ih => exact .up ih
  | down h₁ h₂ hn _ ih => exact .down h₁ h₂ (hle.dir hn) ih
  | follow h₁ h₂ hn ht _ ih => exact .follow h₁ h₂ (hle.link hn) ht ih

end Reaches

/-- The rest of a walk starts where its beginning leads. -/
theorem Reaches.walk_append {follow : Bool} (h : Reaches fs links at_ xs left d)
    (hy : follow = true ∨ ys ≠ []) :
    fs.walk follow links at_ (xs ++ ys) = fs.walk follow left d ys := by
  induction h with
  | here => rfl
  | stay _ ih =>
    rw [List.cons_append, walk, if_pos rfl]
    exact ih
  | up _ ih =>
    rw [List.cons_append, walk, if_neg (by decide), if_pos rfl]
    exact ih
  | down h₁ h₂ hn _ ih =>
    rw [List.cons_append, walk, if_neg h₁, if_neg h₂]
    simp only [hn]
    exact ih
  | @follow links left at_ d step target rest h₁ h₂ hn ht _ ih =>
    have hlast : ((rest ++ ys).isEmpty && !follow) = false := by
      rcases hy with rfl | hy
      · simp
      · simp [hy]
    rw [List.cons_append, walk, if_neg h₁, if_neg h₂]
    simp only [hn, hlast, List.isEmpty_iff, ht, if_false, Bool.false_eq_true]
    rw [← List.append_assoc]
    exact ih

theorem Reaches.walk_eq (h : Reaches fs links at_ xs left d) :
    fs.walk true links at_ xs = .ok (d, some .dir) := by
  have hw : fs.walk true links at_ (xs ++ []) = fs.walk true left d [] := h.walk_append (.inl rfl)
  rw [List.append_nil] at hw
  rw [hw, walk]

/-- What the first step of a walk with the answer `r` does. -/
inductive FirstStep (fs : FileSystem) (follow : Bool) :
    Nat → Place → Text → List Text → Place × Option FileNode → Prop
  | stay {links : Nat} {at_ : Place} {rest : List Text} {r : Place × Option FileNode}
      (h : fs.walk follow links at_ rest = .ok r) : FirstStep fs follow links at_ Path.dot rest r
  | up {links : Nat} {at_ : Place} {rest : List Text} {r : Place × Option FileNode}
      (h : fs.walk follow links at_.dropLast rest = .ok r) :
      FirstStep fs follow links at_ Path.dotdot rest r
  | stop {links : Nat} {at_ : Place} {step : Text} {rest : List Text} {n : Option FileNode}
      (h₁ : step ≠ Path.dot) (h₂ : step ≠ Path.dotdot) (hn : fs.node? (at_ ++ [step]) = n)
      (hrest : rest = []) (hdir : n ≠ some .dir)
      (hlink : follow = true → ∀ target, n ≠ some (.link target)) :
      FirstStep fs follow links at_ step rest (at_ ++ [step], n)
  | down {links : Nat} {at_ : Place} {step : Text} {rest : List Text} {r : Place × Option FileNode}
      (h₁ : step ≠ Path.dot) (h₂ : step ≠ Path.dotdot)
      (hn : fs.node? (at_ ++ [step]) = some .dir)
      (h : fs.walk follow links (at_ ++ [step]) rest = .ok r) :
      FirstStep fs follow links at_ step rest r
  | link {links : Nat} {at_ : Place} {step target : Text} {rest : List Text}
      {r : Place × Option FileNode} (h₁ : step ≠ Path.dot) (h₂ : step ≠ Path.dotdot)
      (hn : fs.node? (at_ ++ [step]) = some (.link target)) (ht : target ≠ [])
      (hfollow : rest = [] → follow = true)
      (h : fs.walk follow links (if Path.isAbsolute target then [] else at_)
        (steps target ++ rest) = .ok r) :
      FirstStep fs follow (links + 1) at_ step rest r

/-- A walk with an answer starts with one of these steps. -/
theorem firstStep_of_walk {follow : Bool} {c : Text} {r : Place × Option FileNode}
    (h : fs.walk follow links at_ (c :: xs) = .ok r) : FirstStep fs follow links at_ c xs r := by
  rw [walk] at h
  by_cases hd : c = Path.dot
  · rw [if_pos hd] at h
    exact hd ▸ .stay h
  by_cases hdd : c = Path.dotdot
  · rw [if_neg hd, if_pos hdd] at h
    exact hdd ▸ .up h
  rw [if_neg hd, if_neg hdd] at h
  simp only at h
  -- what is at the place of the name: nothing, a directory, a file or a link
  split at h
  · rename_i hn
    split at h
    · rename_i hrest
      obtain rfl := Except.ok.inj h
      exact .stop hd hdd hn (List.isEmpty_iff.1 hrest) (by simp) (by simp)
    · simp at h
  · rename_i hn
    exact .down hd hdd hn h
  · rename_i hn
    split at h
    · rename_i hrest
      obtain rfl := Except.ok.inj h
      exact .stop hd hdd hn (List.isEmpty_iff.1 hrest) (by simp) (by simp)
    · simp at h
  · rename_i target hn
    split at h
    · rename_i hlast
      obtain rfl := Except.ok.inj h
      simp only [Bool.and_eq_true, List.isEmpty_iff, Bool.not_eq_true'] at hlast
      exact .stop hd hdd hn hlast.1 (by simp) (by simp [hlast.2])
    · rename_i hlast
      split at h
      · simp at h
      · rename_i ht
        cases links with
        | zero => simp at h
        | succ links =>
          exact .link hd hdd hn (by simpa using ht) (by simpa using hlast) h

theorem FirstStep.walk_eq {follow : Bool} {c : Text} {r : Place × Option FileNode}
    (h : FirstStep fs follow links at_ c xs r) : fs.walk follow links at_ (c :: xs) = .ok r := by
  cases h with
  | stay h => rw [walk, if_pos rfl, h]
  | up h => rw [walk, if_neg (by decide), if_pos rfl, h]
  | @stop _ _ _ _ n h₁ h₂ hn hrest hdir hlink =>
    subst hrest
    rw [walk, if_neg h₁, if_neg h₂]
    simp only [hn]
    cases n with
    | none => rfl
    | some n =>
      cases n with
      | dir => exact absurd rfl hdir
      | file => rfl
      | link target =>
        cases follow with
        | false => rfl
        | true => exact absurd rfl (hlink rfl target)
  | down h₁ h₂ hn h =>
    rw [walk, if_neg h₁, if_neg h₂]
    simp only [hn]
    exact h
  | link h₁ h₂ hn ht hfollow h =>
    have hlast : (xs.isEmpty && !follow) = false := by simpa using hfollow
    rw [walk, if_neg h₁, if_neg h₂]
    simp only [hn, hlast, List.isEmpty_iff, ht, if_false, Bool.false_eq_true]
    exact h

/-- A walk that gets to its last steps has gone through a directory. -/
theorem reaches_of_walk_ok {follow : Bool} {y : Text} {r : Place × Option FileNode}
    (h : fs.walk follow links at_ (xs ++ y :: ys) = .ok r) :
    ∃ left d, Reaches fs links at_ xs left d ∧ fs.walk follow left d (y :: ys) = .ok r := by
  -- the outer induction is on the links to spare, the inner one on the steps before `y`
  induction links using Nat.strongRecOn generalizing xs at_ with
  | ind links ihl =>
    induction xs generalizing at_ with
    | nil => exact ⟨links, at_, .here _ _, h⟩
    | cons x xs ih =>
      rw [List.cons_append] at h
      cases firstStep_of_walk h with
      | stay h =>
        obtain ⟨left, d, h₁, h₂⟩ := ih h
        exact ⟨left, d, .stay h₁, h₂⟩
      | up h =>
        obtain ⟨left, d, h₁, h₂⟩ := ih h
        exact ⟨left, d, .up h₁, h₂⟩
      | stop _ _ _ hrest => simp at hrest
      | down hd hdd hn h =>
        obtain ⟨left, d, h₁, h₂⟩ := ih h
        exact ⟨left, d, .down hd hdd hn h₁, h₂⟩
      | @link links _ _ _ _ _ hd hdd hn ht _ h =>
        rw [← List.append_assoc] at h
        obtain ⟨left, d, h₁, h₂⟩ := ihl links (Nat.lt_succ_self _) h
        exact ⟨left, d, .follow hd hdd hn ht h₁, h₂⟩

theorem Reaches.left_le (h : Reaches fs links at_ xs left d) : left ≤ links := by
  induction h with
  | here => exact Nat.le_refl _
  | stay _ ih => exact ih
  | up _ ih => exact ih
  | down _ _ _ _ ih => exact ih
  | follow _ _ _ _ _ ih => exact Nat.le_succ_of_le ih

theorem walk_name {c : Text} (h₁ : c ≠ Path.dot) (h₂ : c ≠ Path.dotdot) (follow : Bool) :
    fs.walk follow links at_ [c] =
      match fs.node? (at_ ++ [c]) with
      | some (.link target) =>
        if !follow then .ok (at_ ++ [c], some (.link target))
        else if target.isEmpty then .error .noEntry
        else
          match links with
          | 0 => .error .tooManyLinks
          | links + 1 =>
            fs.walk follow links (if Path.isAbsolute target then [] else at_) (steps target)
      | n => .ok (at_ ++ [c], n) := by
  rw [walk, if_neg h₁, if_neg h₂]
  simp only [List.isEmpty_nil, Bool.true_and, if_true, List.append_nil]
  cases fs.node? (at_ ++ [c]) with
  | none => rfl
  | some n =>
    cases n with
    | dir => simp only [walk]
    | file => rfl
    | link => rfl

theorem reaches_of_walk_dir (h : fs.walk true links at_ xs = .ok (d, some .dir)) :
    ∃ left, Reaches fs links at_ xs left d := by
  induction links using Nat.strongRecOn generalizing xs at_ with
  | ind links ihl =>
    induction xs generalizing at_ with
    | nil =>
      simp only [walk, Except.ok.injEq, Prod.mk.injEq, and_true] at h
      exact ⟨links, h ▸ .here _ _⟩
    | cons c xs ih =>
      cases firstStep_of_walk h with
      | stay h =>
        obtain ⟨left, hr⟩ := ih h
        exact ⟨left, .stay hr⟩
      | up h =>
        obtain ⟨left, hr⟩ := ih h
        exact ⟨left, .up hr⟩
      | stop _ _ _ _ hdir => exact absurd rfl hdir
      | down hd hdd hn h =>
        obtain ⟨left, hr⟩ := ih h
        exact ⟨left, .down hd hdd hn hr⟩
      | link hd hdd hn ht _ h =>
        obtain ⟨left, hr⟩ := ihl _ (Nat.lt_succ_self _) h
        exact ⟨left, .follow hd hdd hn ht hr⟩

theorem Reaches.unique {left' : Nat} {d' : Place} (h : Reaches fs links at_ xs left d)
    (h' : Reaches fs links at_ xs left' d') : left' = left ∧ d' = d := by
  induction h with
  | here => cases h'; exact ⟨rfl, rfl⟩
  | stay _ ih =>
    cases h' with
    | stay h' => exact ih h'
    | down h₁ => exact absurd rfl h₁
    | follow h₁ => exact absurd rfl h₁
  | up _ ih =>
    cases h' with
    | up h' => exact ih h'
    | down _ h₂ => exact absurd rfl h₂
    | follow _ h₂ => exact absurd rfl h₂
  | down h₁ h₂ hn _ ih =>
    cases h' with
    | stay => exact absurd rfl h₁
    | up => exact absurd rfl h₂
    | down _ _ _ h' => exact ih h'
    | follow _ _ hn' => rw [hn] at hn'; simp at hn'
  | follow h₁ h₂ hn ht _ ih =>
    cases h' with
    | stay => exact absurd rfl h₁
    | up => exact absurd rfl h₂
    | down _ _ hn' => rw [hn] at hn'; simp at hn'
    | follow _ _ hn' _ h' =>
      rw [hn] at hn'
      simp only [Option.some.injEq, FileNode.link.injEq] at hn'
      subst hn'
      exact ih h'

/-! ### Paths -/

theorem steps_of_parts {t : Text} {ps : List Text}
    (h : (t.splitOn Path.slash).filter (fun c => !c.isEmpty) = ps)
    (hl : t.getLast? ≠ some Path.slash) : steps t = ps := by
  have hs : t.endsWith [Path.slash] = false := by
    rw [Bool.eq_false_iff, ne_eq, Text.endsWith, List.isSuffixOf_iff_suffix]
    rintro ⟨a, ha⟩
    exact hl (by simp [← ha])
  simp [steps, hs, h]

theorem steps_render {n : Path.Normal} (hn : n.Proper) (h : n.parts ≠ []) :
    steps n.render = n.parts := by
  have hsplit : (Text.splitOn Path.slash (Text.join [Path.slash] n.parts)).filter
      (fun c => !c.isEmpty) = n.parts := by
    rw [Text.splitOn_join h fun c hc => hn.slash_not_mem hc, List.filter_eq_self]
    intro c hc
    simp [hn.part_ne_nil hc]
  refine steps_of_parts ?_ ?_
  · unfold Path.Normal.render
    split
    · exact (congrArg (List.filter _) (Text.splitOn_append_sep Path.slash [] _)).trans hsplit
    · rw [if_neg (by simpa using h)]
      exact hsplit
  · exact fun hlast => hn.getLast?_render_ne_slash h hlast rfl

/-- The place where a path starts. -/
def origin (fs : FileSystem) (rooted : Bool) : Place := if rooted then [] else fs.current

/-- Following a normalized path walks its components. -/
theorem locate_render {n : Path.Normal} (hn : n.Proper) (follow : Bool) :
    fs.locate follow n.render = fs.walk follow linkLimit (fs.origin n.rooted) n.parts := by
  have hstart : fs.start n.render = fs.origin n.rooted := by
    rw [start, hn.isAbsolute_render, origin]
  have hne : n.render.isEmpty = false := by simpa using Path.Normal.render_ne_nil hn
  rw [locate, hne, hstart, if_neg (by simp)]
  by_cases h : n.parts = []
  · have hs : steps n.render = [Path.dot] := by
      obtain ⟨r, ps⟩ := n
      simp only at h
      subst h
      cases r <;> decide
    rw [hs, h]
    simp only [walk, if_true]
  · rw [steps_render hn h]

/-! ### Nodes -/

theorem lookup_filter (keep : Place → Bool) (l : List (Place × FileNode)) (q : Place) :
    (l.filter fun (p, _) => keep p).lookup q = if keep q then l.lookup q else none := by
  induction l with
  | nil => simp
  | cons x l ih =>
    obtain ⟨a, n⟩ := x
    by_cases hq : q = a
    · subst hq
      cases hk : keep q with
      | true => simp [hk]
      | false => simpa [hk] using ih
    · have hqa : (q == a) = false := by simpa using hq
      cases hk : keep a with
      | true => simpa [hk, hqa, List.lookup_cons] using ih
      | false => simpa [hk, hqa, List.lookup_cons] using ih

theorem node?_put {p : Place} (hp : p ≠ []) (n : FileNode) (q : Place) :
    (fs.put p n).node? q = if q = p then some n else fs.node? q := by
  unfold node? put
  by_cases hq : q = []
  · simp [hq, Ne.symm hp]
  · have he : q.isEmpty = false := by simpa using hq
    simp only [he, Bool.false_eq_true, if_false, List.lookup_append, lookup_filter (· != p),
      List.lookup_cons, List.lookup_nil]
    by_cases h : q = p
    · simp [h]
    · have hb : (q == p) = false := by simpa using h
      simp [h, hb]

theorem put_put (p : Place) (n n' : FileNode) : (fs.put p n).put p n' = fs.put p n' := by
  simp [put, List.filter_append]

/-- What every file system looks like: things are in directories, and the current place is one. -/
structure Sound (fs : FileSystem) : Prop where
  parent : ∀ p c, (fs.node? (p ++ [c])).isSome → fs.node? p = some .dir
  current : fs.node? fs.current = some .dir

theorem sound_empty : Sound {} := ⟨fun p c h => by simp [node?] at h, rfl⟩

theorem Sound.dropLast (h : fs.Sound) {p : Place} (hp : fs.node? p = some .dir) :
    fs.node? p.dropLast = some .dir := by
  rcases List.eq_nil_or_concat p with rfl | ⟨init, c, rfl⟩
  · exact hp
  · rw [List.concat_eq_append] at hp ⊢
    rw [List.dropLast_concat]
    exact h.parent init c (by rw [hp]; rfl)

theorem Sound.below_none (h : fs.Sound) {p q : Place} (hp : fs.node? p ≠ some .dir)
    (hq : q ≠ []) : fs.node? (p ++ q) = none := by
  induction hk : q.length generalizing q with
  | zero => exact absurd (List.length_eq_zero_iff.1 hk) hq
  | succ k ih =>
    rcases List.eq_nil_or_concat q with rfl | ⟨init, c, rfl⟩
    · exact absurd rfl hq
    · rw [List.concat_eq_append] at hk ⊢
      by_cases hsome : (fs.node? (p ++ init ++ [c])).isSome
      · have hdir := h.parent (p ++ init) c hsome
        by_cases hi : init = []
        · exact absurd (by simpa [hi] using hdir) hp
        · rw [ih hi (by simpa using hk)] at hdir
          simp at hdir
      · simpa using hsome

/-- What has something below it is a directory. -/
theorem Sound.dir_of_below (h : fs.Sound) {p q : Place} {n : FileNode}
    (hn : fs.node? (p ++ q) = some n) (hq : q ≠ []) : fs.node? p = some .dir := by
  by_contra hno
  rw [h.below_none hno hq] at hn
  simp at hn

theorem Sound.dir_origin (h : fs.Sound) (rooted : Bool) :
    fs.node? (fs.origin rooted) = some .dir := by
  rw [origin]
  split
  · rfl
  · exact h.current

/-- The target of a link is read from the top or from the directory of the link. -/
theorem dir_of_link {target : Text} (ha : fs.node? at_ = some .dir) :
    fs.node? (if Path.isAbsolute target then [] else at_) = some .dir := by
  split
  · rfl
  · exact ha

theorem Reaches.dir (hs : fs.Sound) (h : Reaches fs links at_ xs left d)
    (ha : fs.node? at_ = some .dir) : fs.node? d = some .dir := by
  induction h with
  | here => exact ha
  | stay _ ih => exact ih ha
  | up _ ih => exact ih (hs.dropLast ha)
  | down _ _ hn _ ih => exact ih hn
  | follow _ _ _ _ _ ih => exact ih (dir_of_link ha)

/-- What a walk finds at its end is there. -/
theorem node?_of_walk (hs : fs.Sound) {follow : Bool} {q : Place} {old : Option FileNode}
    (ha : fs.node? at_ = some .dir) (h : fs.walk follow links at_ xs = .ok (q, old)) :
    fs.node? q = old := by
  induction links using Nat.strongRecOn generalizing xs at_ with
  | ind links ihl =>
    induction xs generalizing at_ with
    | nil =>
      simp only [walk, Except.ok.injEq, Prod.mk.injEq] at h
      obtain ⟨rfl, rfl⟩ := h
      exact ha
    | cons c xs ih =>
      cases firstStep_of_walk h with
      | stay h => exact ih ha h
      | up h => exact ih (hs.dropLast ha) h
      | stop _ _ hn => exact hn
      | down _ _ hn h => exact ih hn h
      | link _ _ _ _ _ h => exact ihl _ (Nat.lt_succ_self _) (dir_of_link ha) h

/-- A walk that does not end at a directory ends in one, and with links followed not at a link. -/
theorem walk_end (hs : fs.Sound) {follow : Bool} {q : Place} {old : Option FileNode}
    (ha : fs.node? at_ = some .dir) (h : fs.walk follow links at_ xs = .ok (q, old))
    (hold : old ≠ some .dir) :
    fs.node? q = old ∧ (follow = true → ∀ t, old ≠ some (.link t)) ∧
      ∃ d c, q = d ++ [c] ∧ fs.node? d = some .dir := by
  refine ⟨node?_of_walk hs ha h, ?_⟩
  induction links using Nat.strongRecOn generalizing xs at_ with
  | ind links ihl =>
    induction xs generalizing at_ with
    | nil =>
      simp only [walk, Except.ok.injEq, Prod.mk.injEq] at h
      exact absurd h.2.symm hold
    | cons c xs ih =>
      cases firstStep_of_walk h with
      | stay h => exact ih ha h
      | up h => exact ih (hs.dropLast ha) h
      | stop _ _ _ _ _ hlink => exact ⟨hlink, at_, c, rfl, ha⟩
      | down _ _ hn h => exact ih hn h
      | link _ _ _ _ _ h => exact ihl _ (Nat.lt_succ_self _) (dir_of_link ha) h

theorem node?_of_locate (hs : fs.Sound) {follow : Bool} {path : Text} {q : Place}
    {old : Option FileNode} (h : fs.locate follow path = .ok (q, old)) : fs.node? q = old := by
  rw [locate] at h
  split at h
  · simp at h
  · exact node?_of_walk hs (hs.dir_origin _) h

theorem locate_end (hs : fs.Sound) {follow : Bool} {path : Text} {q : Place}
    {old : Option FileNode} (h : fs.locate follow path = .ok (q, old)) (hold : old ≠ some .dir) :
    fs.node? q = old ∧ ∃ d c, q = d ++ [c] ∧ fs.node? d = some .dir := by
  rw [locate] at h
  split at h
  · simp at h
  · obtain ⟨hnode, -, hdir⟩ := walk_end hs (hs.dir_origin _) h hold
    exact ⟨hnode, hdir⟩

theorem locate_free (hs : fs.Sound) {follow : Bool} {path : Text} {q : Place}
    (h : fs.locate follow path = .ok (q, none)) :
    fs.node? q = none ∧ ∃ d c, q = d ++ [c] ∧ fs.node? d = some .dir :=
  locate_end hs h (by simp)

theorem Sound.put (h : fs.Sound) {d : Place} {c : Text} (hd : fs.node? d = some .dir)
    (hc : fs.node? (d ++ [c]) ≠ some .dir) (n : FileNode) : (fs.put (d ++ [c]) n).Sound := by
  have hne : d ++ [c] ≠ [] := by simp
  have keep : ∀ p, fs.node? p = some .dir → (fs.put (d ++ [c]) n).node? p = some .dir := by
    intro p hp
    rw [node?_put hne, if_neg (by rintro rfl; exact hc hp), hp]
  refine ⟨fun p e hsome => ?_, keep _ h.current⟩
  rw [node?_put hne] at hsome
  split at hsome
  · rename_i heq
    obtain ⟨rfl, -⟩ := List.append_inj' heq rfl
    exact keep _ hd
  · exact keep _ (h.parent p e hsome)

theorem Sound.congr {fs' : FileSystem} (h : fs.Sound) (hnode : ∀ q, fs'.node? q = fs.node? q)
    (hcurrent : fs'.current = fs.current) : fs'.Sound := by
  refine ⟨fun q c hsome => ?_, ?_⟩
  · rw [hnode] at hsome ⊢
    exact h.parent q c hsome
  · rw [hcurrent, hnode]
    exact h.current

theorem node?_put_same {p : Place} {n : FileNode} (hp : p ≠ []) (h : fs.node? p = some n)
    (q : Place) : (fs.put p n).node? q = fs.node? q := by
  rw [node?_put hp]
  split
  · rename_i hq
    rw [hq, h]
  · rfl

end FileSystem

end MetricHistory
