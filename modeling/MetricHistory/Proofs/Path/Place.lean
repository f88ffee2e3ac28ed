import MetricHistory.Proofs.FileSystem.Scratch

/-!
# The places that paths name

`Path.place` reads a path by its names alone, from whatever directory is the current one.  Cleaning a
path does not change the place it names (`Path.place_clean`), and a name that is joined onto a path
names what is directly below (`Path.place_join`).

Two paths are `Path.Apart` when neither names a place at or below the other's, wherever they are read
from.  In a file system without links such paths lead to places of which neither is at or below the
other (`Path.Apart.leadApart`).
-/

namespace MetricHistory

namespace Path

variable {cwd : Place} {p q c : Text}

/-- One component further from a place, by its name alone. -/
def go (at_ : Place) (component : Text) : Place :=
  if component = dotdot then at_.dropLast else at_ ++ [component]

/-- The place that a path names in a working directory, when no name on it is a link. -/
def place (cwd : Place) (p : Text) : Place :=
  (components p).foldl go (if isAbsolute p then [] else cwd)

theorem go_name (at_ : Place) (hc : c ≠ dotdot) : go at_ c = at_ ++ [c] := if_neg hc

theorem Normal.foldl_go_step (n : Normal) {start : Place} (hroot : n.rooted = true → start = [])
    (c : Text) : (n.step c).parts.foldl go start = go (n.parts.foldl go start) c := by
  by_cases hc : c = dotdot
  · subst hc
    rcases List.eq_nil_or_concat n.parts with hnil | ⟨init, last, hparts⟩
    · rw [hnil]
      cases hr : n.rooted with
      | true => simp [step, hnil, hr, hroot hr, go]
      | false => simp [step, hnil, hr, go]
    · rw [List.concat_eq_append] at hparts
      have hlast : n.parts.getLast? = some last := by simp [hparts]
      by_cases hup : last = dotdot
      · simp [step, hlast, hup]
      · -- a name is taken back, which is what going up from it does
        simp [step, hup, hparts, List.foldl_append, go]
  · rw [step_name hc, List.foldl_append, List.foldl_cons, List.foldl_nil]

theorem Normal.foldl_go_steps (n : Normal) {start : Place} (hroot : n.rooted = true → start = [])
    (cs : List Text) :
    (cs.foldl step n).parts.foldl go start = cs.foldl go (n.parts.foldl go start) := by
  induction cs generalizing n with
  | nil => rfl
  | cons c cs ih =>
    have hstep : (n.step c).rooted = n.rooted := foldl_step_rooted n [c]
    rw [List.foldl_cons, List.foldl_cons, ih (n.step c) (hstep ▸ hroot), n.foldl_go_step hroot]

theorem place_eq (cwd : Place) (p : Text) : place cwd p =
    (normalize p).parts.foldl go (if (normalize p).rooted then [] else cwd) := by
  rw [normalize_rooted, normalize, Normal.foldl_go_steps]
  · rfl
  · intro h
    exact if_pos h

theorem place_render {n : Normal} (hn : n.Proper) (cwd : Place) :
    place cwd n.render = n.parts.foldl go (if n.rooted then [] else cwd) := by
  rw [place_eq, hn.normalize_render]

/-- **Cleaning a path does not change the place that it names.** -/
theorem place_clean (cwd : Place) (p : Text) : place cwd (clean p) = place cwd p := by
  rw [place_eq, normalize_clean, ← place_eq]

/-- **A name that is joined onto a path names what is directly below.** -/
theorem place_join (cwd : Place) (p : Text) (hc : IsName c) :
    place cwd (join [p, c]) = place cwd p ++ [c] := by
  rw [join_name p hc, below, place_render (proper_below p (by simpa using hc)), List.foldl_append,
    place_eq cwd p]
  exact go_name _ hc.ne_dotdot

/-! ### Paths apart -/

/-- Neither path names a place at or below the place of the other, wherever they are read from. -/
def Apart (p q : Text) : Prop :=
  ∀ cwd, ¬ place cwd p <+: place cwd q ∧ ¬ place cwd q <+: place cwd p

theorem not_prefix_append {d : Place} {a b : Text} (h : a ≠ b) (as bs : Place) :
    ¬ d ++ a :: as <+: d ++ b :: bs := by
  rw [List.prefix_append_right_inj, List.cons_prefix_cons]
  exact fun hp => h hp.1

theorem apart_of_place {a b : Text} (h : a ≠ b) (r : Text) {as bs : Place}
    (hp : ∀ cwd, place cwd p = place cwd r ++ a :: as)
    (hq : ∀ cwd, place cwd q = place cwd r ++ b :: bs) : Apart p q := by
  intro cwd
  rw [hp, hq]
  exact ⟨not_prefix_append h as bs, not_prefix_append h.symm bs as⟩

theorem walk_place {fs : FileSystem} (hlinks : ∀ x target, fs.node? x ≠ some (.link target))
    {follow : Bool} {links : Nat} {cs : List Text} (hcs : ∀ c ∈ cs, c ≠ dot) {at_ d : Place}
    {there : Option FileNode} (h : fs.walk follow links at_ cs = .ok (d, there)) :
    d = cs.foldl go at_ := by
  induction cs generalizing at_ with
  | nil =>
    rw [FileSystem.walk] at h
    exact (congrArg Prod.fst (Except.ok.inj h)).symm
  | cons c cs ih =>
    obtain ⟨hc, hrest⟩ := List.forall_mem_cons.1 hcs
    rw [List.foldl_cons]
    cases FileSystem.firstStep_of_walk h with
    | stay => exact absurd rfl hc
    | up h =>
      rw [go, if_pos rfl]
      exact ih hrest h
    | stop _ hup _ hnil =>
      rw [hnil, List.foldl_nil, go_name _ hup]
    | down _ hup _ h =>
      rw [go_name _ hup]
      exact ih hrest h
    | link _ _ hn => exact absurd hn (hlinks _ _)

theorem locate_place {fs : FileSystem} (hlinks : ∀ x target, fs.node? x ≠ some (.link target))
    {follow : Bool} {d : Place} {there : Option FileNode}
    (h : fs.locate follow (clean p) = .ok (d, there)) : d = place fs.current p := by
  have hn := normalize_proper p
  rw [clean, FileSystem.locate_render hn] at h
  rw [place_eq]
  exact walk_place hlinks (fun c hc => hn.part_ne_dot hc) h

theorem clean_join (p : Text) (hc : IsName c) : clean (join [p, c]) = join [p, c] := by
  rw [join_name p hc, below, clean, (proper_below p (by simpa using hc)).normalize_render]

/-- The paths do not lead to places of which one is at or below the other. -/
def LeadApart (fs : FileSystem) (p q : Text) : Prop :=
  ∀ follow follow' d d' there there', fs.locate follow p = .ok (d, there) →
    fs.locate follow' q = .ok (d', there') → ¬ d <+: d' ∧ ¬ d' <+: d

/-- **In a file system without links, clean paths that are apart lead to places apart.** -/
theorem Apart.leadApart (h : Apart p q) (hp : clean p = p) (hq : clean q = q) {fs : FileSystem}
    (hlinks : ∀ x target, fs.node? x ≠ some (.link target)) : LeadApart fs p q := by
  intro follow follow' d d' there there' hd hd'
  rw [← hp] at hd
  rw [← hq] at hd'
  rw [locate_place hlinks hd, locate_place hlinks hd']
  exact h fs.current

end Path

end MetricHistory
