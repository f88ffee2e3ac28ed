import MetricHistory.Proofs.Path.Normal

/-!
# Paths below a root

`Path.below root names` is the path that goes from a root down by names.  Whatever
`Path.safeJoin?` accepts is of this form (`Path.safeJoin?_eq_some`), and a name that consists of
names only is accepted (`Path.safeJoin?_of_names`).
-/

namespace MetricHistory

namespace Path

theorem join_pair {root : Text} (h : root ≠ []) (name : Text) :
    join [root, name] = ((components name).foldl Normal.step (normalize root)).render := by
  by_cases hn : name = []
  · subst hn
    have : join [root, []] = clean root := by simp [join, h, Text.join]
    rw [this]; rfl
  · have hj : join [root, name] = clean (root ++ slash :: name) := by
      simp [join, h, hn, Text.join, List.intercalate]
    have ha : isAbsolute (root ++ slash :: name) = isAbsolute root := by
      cases root with
      | nil => exact absurd rfl h
      | cons b t => rfl
    rw [hj, clean, normalize, components_append_slash, List.foldl_append, ha]
    rfl

theorem normalize_join_pair {root : Text} (h : root ≠ []) (name : Text) :
    normalize (join [root, name]) = (components name).foldl Normal.step (normalize root) := by
  rw [join_pair h]
  exact (Normal.proper_foldl_step (normalize_proper root) fun _ hc =>
    isName_of_mem_components hc).normalize_render

theorem eq_append_of_afterCommon {as bs cs : List Text} (h : afterCommon as bs = ([], cs)) :
    bs = as ++ cs := by
  induction as generalizing bs with
  | nil => simpa [afterCommon] using h
  | cons a as ih =>
    cases bs with
    | nil => simp [afterCommon] at h
    | cons b bs =>
      unfold afterCommon at h
      split at h
      · rename_i hab
        rw [hab, ih h, List.cons_append]
      · simp at h

@[simp] theorem afterCommon_append (as cs : List Text) : afterCommon as (as ++ cs) = ([], cs) := by
  induction as with
  | nil => simp [afterCommon]
  | cons a as ih => simpa [afterCommon] using ih

theorem Normal.Proper.names_iff {n : Normal} (hn : n.Proper) {ps down : List Text}
    (h : n.parts = ps ++ down) : down.head? ≠ some dotdot ↔ ∀ c ∈ down, IsName c := by
  cases down with
  | nil => simp
  | cons d ds =>
    rw [List.head?_cons, ne_eq, Option.some.injEq]
    constructor
    · intro hd c hc
      rcases List.mem_cons.1 hc with rfl | hc
      · exact hn.part (by simp [h]) hd
      · exact hn.names_after h hd c hc
    · intro hnames
      exact (hnames d List.mem_cons_self).ne_dotdot

theorem isInside_iff {base target : Normal} (ht : target.Proper) :
    isInside base target = true ↔
      base.rooted = target.rooted ∧
        ∃ names, target.parts = base.parts ++ names ∧ ∀ c ∈ names, IsName c := by
  unfold isInside relative?
  by_cases hr : base.rooted = target.rooted
  · simp only [hr, bne_self_eq_false, Bool.false_eq_true, if_false, true_and]
    generalize hac : afterCommon base.parts target.parts = ac
    obtain ⟨up, down⟩ := ac
    cases up with
    | nil =>
      have hdown := eq_append_of_afterCommon hac
      simp only [List.head?_nil, List.map_nil, List.nil_append]
      rw [if_neg (by simp)]
      simp only [bne_iff_ne, ne_eq]
      constructor
      · intro hhead
        exact ⟨down, hdown, (ht.names_iff hdown).1 hhead⟩
      · rintro ⟨names, hnames, hall⟩
        obtain rfl : names = down := List.append_cancel_left (hnames.symm.trans hdown)
        exact (ht.names_iff hdown).2 hall
    | cons u us =>
      have hno : ¬ ∃ names, target.parts = base.parts ++ names ∧ ∀ c ∈ names, IsName c := by
        rintro ⟨names, hnames, -⟩
        rw [hnames, afterCommon_append] at hac
        simp at hac
      simp only [hno, iff_false]
      split
      · simp
      · rename_i way hway
        split at hway
        · simp at hway
        · simp only [Option.some.injEq] at hway
          simp [← hway]
  · have hb : (base.rooted != target.rooted) = true := by simpa using hr
    simp [hb, hr]

/-- The path with the given names below a root. -/
def below (root : Text) (names : List Text) : Text :=
  Normal.render ⟨(normalize root).rooted, (normalize root).parts ++ names⟩

theorem proper_below (root : Text) {names : List Text} (h : ∀ c ∈ names, IsName c) :
    Normal.Proper ⟨(normalize root).rooted, (normalize root).parts ++ names⟩ :=
  (normalize_proper root).append_names h

/-- A name that does not leave the root leads to a place below it. -/
theorem safeJoin?_eq_some {root name path : Text} (hr : root ≠ [])
    (h : safeJoin? root name = some path) :
    ∃ names, path = below root names ∧ ∀ c ∈ names, IsName c := by
  unfold safeJoin? at h
  simp only at h
  split at h
  · rename_i hin
    simp only [Option.some.injEq] at h
    obtain ⟨hrooted, names, hparts, hnames⟩ := (isInside_iff (normalize_proper _)).1 hin
    refine ⟨names, ?_, hnames⟩
    have hn := normalize_join_pair hr name
    rw [hn] at hrooted hparts
    rw [← h, join_pair hr, below, hrooted, ← hparts]
  · simp at h

/-- A name whose components are names does not leave the root. -/
theorem safeJoin?_of_names {root name : Text} (hr : root ≠ [])
    (h : ∀ c ∈ components name, IsName c) :
    safeJoin? root name = some (below root (components name)) := by
  have hj := join_pair hr name
  have hn := normalize_join_pair hr name
  rw [Normal.foldl_step_names _ h] at hj hn
  have hin : isInside (normalize root) (normalize (join [root, name])) = true := by
    rw [isInside_iff (normalize_proper _), hn]
    exact ⟨rfl, components name, rfl, h⟩
  calc safeJoin? root name = some (join [root, name]) := if_pos hin
    _ = some (below root (components name)) := by rw [hj, below]

/-! ### Paths that go down -/

/-- A clean path that goes down from where it starts: names with slashes between them. -/
def IsRelative (path : Text) : Prop := ∀ c ∈ Text.splitOn slash path, IsName c

instance (path : Text) : Decidable (IsRelative path) :=
  inferInstanceAs (Decidable (∀ c ∈ Text.splitOn slash path, IsName c))

variable {path : Text}

theorem IsRelative.components_eq (h : IsRelative path) :
    components path = Text.splitOn slash path := by
  rw [components, List.filter_eq_self]
  intro c hc
  simp [(h c hc).ne_nil, (h c hc).ne_dot]

theorem IsRelative.isName (h : IsRelative path) : ∀ c ∈ components path, IsName c := by
  rw [h.components_eq]
  exact h

theorem IsRelative.components_ne_nil (h : IsRelative path) : components path ≠ [] := by
  rw [h.components_eq]
  exact Text.splitOn_ne_nil slash path

theorem IsRelative.join_components (h : IsRelative path) :
    Text.join [slash] (components path) = path := by
  rw [h.components_eq, Text.join_splitOn]

end Path

end MetricHistory
