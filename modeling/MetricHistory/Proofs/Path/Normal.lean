import MetricHistory.Path
import MetricHistory.Proofs.Text.Split

/-!
# Normalized paths

`Path.normalize` gives some steps up, none of them at the root, and then names
(`Path.normalize_proper`).  A path of this shape is determined by its text:

* `Path.Normal.Proper.components_render` : the text of the path has its components;
* `Path.Normal.Proper.normalize_render` : reading the text gives the path again;
* `Path.Normal.dir_render` : the directory of a path lacks its last component.
-/

namespace MetricHistory

namespace Path

/-- A component that names something: it is neither empty nor `.` nor `..`, and has no slash. -/
structure IsName (c : Text) : Prop where
  ne_nil : c ≠ []
  ne_dot : c ≠ dot
  ne_dotdot : c ≠ dotdot
  slash_not_mem : slash ∉ c

instance (c : Text) : Decidable (IsName c) :=
  decidable_of_iff (c ≠ [] ∧ c ≠ dot ∧ c ≠ dotdot ∧ slash ∉ c)
    ⟨fun h => ⟨h.1, h.2.1, h.2.2.1, h.2.2.2⟩,
      fun h => ⟨h.ne_nil, h.ne_dot, h.ne_dotdot, h.slash_not_mem⟩⟩

theorem mem_components {p c : Text} (h : c ∈ components p) : c ≠ [] ∧ c ≠ dot ∧ slash ∉ c := by
  simp only [components, List.mem_filter, Bool.and_eq_true, Bool.not_eq_true',
    List.isEmpty_eq_false_iff, bne_iff_ne, ne_eq] at h
  exact ⟨h.2.1, h.2.2, Text.not_mem_of_mem_splitOn h.1⟩

theorem isName_of_mem_components {p c : Text} (h : c ∈ components p) (hd : c ≠ dotdot) :
    IsName c :=
  ⟨(mem_components h).1, (mem_components h).2.1, hd, (mem_components h).2.2⟩

theorem components_append_slash (a b : Text) :
    components (a ++ slash :: b) = components a ++ components b := by
  simp [components, Text.splitOn_append_sep, List.filter_append]

@[simp] theorem components_nil : components [] = [] := rfl

theorem dotdot_ne_nil : dotdot ≠ [] := by decide
theorem dotdot_ne_dot : dotdot ≠ dot := by decide
theorem slash_not_mem_dotdot : slash ∉ dotdot := by decide
theorem slash_not_mem_dot : slash ∉ dot := by decide

namespace Normal

/-- The shape of normalized paths: steps up, of which a rooted path has none, and then names. -/
def Proper (n : Normal) : Prop :=
  ∃ ups names, n.parts = List.replicate ups dotdot ++ names ∧ (∀ c ∈ names, IsName c) ∧
    (n.rooted = true → ups = 0)

theorem step_name {n : Normal} {c : Text} (h : c ≠ dotdot) :
    n.step c = ⟨n.rooted, n.parts ++ [c]⟩ := by
  simp [step, h]

theorem proper_nil (r : Bool) : Proper ⟨r, []⟩ := ⟨0, [], by simp, by simp, by simp⟩

theorem proper_step {n : Normal} (hn : n.Proper) {c : Text} (hc : c ≠ dotdot → IsName c) :
    (n.step c).Proper := by
  obtain ⟨ups, names, hp, hnames, hr⟩ := hn
  by_cases h : c = dotdot
  · subst h
    simp only [step, if_true]
    rcases List.eq_nil_or_concat names with rfl | ⟨init, last, rfl⟩
    · -- only steps up so far: one more, or none at the root
      cases ups with
      | zero =>
        simp only [hp, List.replicate_zero, List.append_nil, List.getLast?_nil]
        cases hroot : n.rooted
        · simp only [Bool.false_eq_true, if_false]
          exact ⟨1, [], by simp, by simp, by simp⟩
        · simp only [if_true]
          exact ⟨0, [], by simp [hp], by simp, by simp⟩
      | succ k =>
        have hlast : n.parts.getLast? = some dotdot := by
          simp [hp, List.getLast?_replicate]
        simp only [hlast, if_true]
        refine ⟨k + 2, [], ?_, by simp, fun h => absurd (hr h) (by simp)⟩
        simp [hp, ← List.replicate_succ']
    · have hlast : n.parts.getLast? = some last := by simp [hp]
      have hne : last ≠ dotdot := (hnames last (by simp)).ne_dotdot
      simp only [hlast, hne, if_false]
      refine ⟨ups, init, ?_, fun c hc => hnames c (by simp [hc]), hr⟩
      rw [hp, List.concat_eq_append, ← List.append_assoc, List.dropLast_concat]
  · rw [step_name h]
    refine ⟨ups, names ++ [c], by simp [hp], fun d hd => ?_, hr⟩
    rcases List.mem_append.1 hd with hd | hd
    · exact hnames d hd
    · rw [List.mem_singleton.1 hd]
      exact hc h

theorem proper_foldl_step {n : Normal} (hn : n.Proper) {cs : List Text}
    (hcs : ∀ c ∈ cs, c ≠ dotdot → IsName c) : (cs.foldl step n).Proper := by
  induction cs generalizing n with
  | nil => exact hn
  | cons c cs ih =>
    exact ih (proper_step hn (hcs c (by simp))) fun d hd => hcs d (by simp [hd])

theorem Proper.part {n : Normal} (hn : n.Proper) {c : Text} (hc : c ∈ n.parts)
    (hd : c ≠ dotdot) : IsName c := by
  obtain ⟨ups, names, hp, hnames, -⟩ := hn
  rw [hp, List.mem_append] at hc
  rcases hc with hc | hc
  · exact absurd (List.eq_of_mem_replicate hc) hd
  · exact hnames c hc

theorem Proper.part_ne_nil {n : Normal} (hn : n.Proper) {c : Text} (hc : c ∈ n.parts) : c ≠ [] := by
  by_cases hd : c = dotdot
  · rw [hd]; exact dotdot_ne_nil
  · exact (hn.part hc hd).ne_nil

theorem Proper.part_ne_dot {n : Normal} (hn : n.Proper) {c : Text} (hc : c ∈ n.parts) :
    c ≠ dot := by
  by_cases hd : c = dotdot
  · rw [hd]; exact dotdot_ne_dot
  · exact (hn.part hc hd).ne_dot

theorem Proper.slash_not_mem {n : Normal} (hn : n.Proper) {c : Text} (hc : c ∈ n.parts) :
    slash ∉ c := by
  by_cases hd : c = dotdot
  · rw [hd]; exact slash_not_mem_dotdot
  · exact (hn.part hc hd).slash_not_mem

theorem Proper.names_after {n : Normal} (hn : n.Proper) {xs ys : List Text} {c : Text}
    (h : n.parts = xs ++ c :: ys) (hc : c ≠ dotdot) : ∀ d ∈ ys, IsName d := by
  obtain ⟨ups, names, hp, hnames, -⟩ := hn
  intro d hd
  rw [hp, List.append_eq_append_iff] at h
  rcases h with ⟨as, h1, h2⟩ | ⟨bs, h1, h2⟩
  · exact hnames d (by simp [h2, hd])
  · cases bs with
    | nil =>
      simp only [List.nil_append] at h2
      exact hnames d (by simp [← h2, hd])
    | cons b bs =>
      simp only [List.cons_append, List.cons.injEq] at h2
      have hb : b ∈ List.replicate ups dotdot := by simp [h1]
      exact absurd (h2.1.trans (List.eq_of_mem_replicate hb)) hc

end Normal

theorem normalize_proper (p : Text) : (normalize p).Proper :=
  Normal.proper_foldl_step (Normal.proper_nil _) fun _ hc => isName_of_mem_components hc

theorem foldl_step_rooted (n : Normal) (cs : List Text) :
    (cs.foldl Normal.step n).rooted = n.rooted := by
  induction cs generalizing n with
  | nil => rfl
  | cons c cs ih =>
    rw [List.foldl_cons, ih]
    unfold Normal.step
    split
    · split
      · split <;> rfl
      · split <;> rfl
    · rfl

theorem normalize_rooted (p : Text) : (normalize p).rooted = isAbsolute p :=
  foldl_step_rooted _ _

namespace Normal

theorem foldl_step_names (n : Normal) {cs : List Text} (h : ∀ c ∈ cs, IsName c) :
    cs.foldl step n = ⟨n.rooted, n.parts ++ cs⟩ := by
  induction cs generalizing n with
  | nil => simp
  | cons c cs ih =>
    rw [List.foldl_cons, step_name (h c (by simp)).ne_dotdot, ih _ fun d hd => h d (by simp [hd])]
    simp

theorem foldl_step_ups (ups : Nat) :
    (List.replicate ups dotdot).foldl step ⟨false, []⟩ = ⟨false, List.replicate ups dotdot⟩ := by
  induction ups with
  | zero => rfl
  | succ k ih =>
    rw [List.replicate_succ', List.foldl_append, ih]
    cases k with
    | zero => rfl
    | succ k => simp [step, List.getLast?_replicate]

theorem Proper.foldl_step_parts {n : Normal} (hn : n.Proper) :
    n.parts.foldl step ⟨n.rooted, []⟩ = n := by
  obtain ⟨ups, names, hp, hnames, hr⟩ := hn
  obtain ⟨rooted, parts⟩ := n
  simp only at hp hr
  subst hp
  rw [List.foldl_append]
  cases rooted
  · rw [foldl_step_ups, foldl_step_names _ hnames]
  · simp [hr rfl, foldl_step_names _ hnames]

theorem Proper.components_join {n : Normal} (hn : n.Proper) :
    components (Text.join [slash] n.parts) = n.parts := by
  by_cases h : n.parts = []
  · simp [h, Text.join]
  · rw [components, Text.splitOn_join h fun c hc => hn.slash_not_mem hc, List.filter_eq_self]
    intro c hc
    simp [hn.part_ne_nil hc, hn.part_ne_dot hc]

theorem Proper.components_render {n : Normal} (hn : n.Proper) :
    components n.render = n.parts := by
  unfold render
  split
  · exact (components_append_slash [] _).trans (by simp [hn.components_join])
  · split
    · rename_i h
      rw [List.isEmpty_iff.1 h]
      decide
    · exact hn.components_join

theorem join_ne_nil {ps : List Text} (h : ps ≠ []) (hne : ∀ c ∈ ps, c ≠ []) :
    Text.join [slash] ps ≠ [] := by
  cases ps with
  | nil => exact absurd rfl h
  | cons p ps =>
    cases ps with
    | nil => simpa [Text.join] using hne p (by simp)
    | cons q qs => simp [Text.join_cons_cons]

theorem head?_join {p : Text} {ps : List Text} (hp : p ≠ []) :
    (Text.join [slash] (p :: ps)).head? = p.head? := by
  cases ps with
  | nil => simp [Text.join]
  | cons q qs =>
    rw [Text.join_cons_cons]
    cases p with
    | nil => exact absurd rfl hp
    | cons b t => rfl

theorem Proper.isAbsolute_render {n : Normal} (hn : n.Proper) :
    isAbsolute n.render = n.rooted := by
  unfold render
  split
  · rename_i h
    simp [isAbsolute, h]
  · rename_i h
    split
    · rw [Bool.not_eq_true] at h
      rw [h]; decide
    · rename_i hne
      rw [Bool.not_eq_true] at h
      rw [h]
      cases hp : n.parts with
      | nil => simp [hp] at hne
      | cons p ps =>
        have hmem : p ∈ n.parts := by simp [hp]
        have hs := hn.slash_not_mem hmem
        rw [isAbsolute, head?_join (hn.part_ne_nil hmem)]
        cases p with
        | nil => rfl
        | cons b t =>
          simp only [List.mem_cons, not_or] at hs
          simpa using Ne.symm hs.1

theorem Proper.normalize_render {n : Normal} (hn : n.Proper) : normalize n.render = n := by
  rw [normalize, hn.components_render, hn.isAbsolute_render, hn.foldl_step_parts]

theorem render_ne_nil {n : Normal} (hn : n.Proper) : n.render ≠ [] := by
  unfold render
  split
  · simp
  · split
    · decide
    · rename_i h
      exact join_ne_nil (by simpa using h) fun c hc => hn.part_ne_nil hc

theorem Proper.init {r : Bool} {ps : List Text} {c : Text} (h : Proper ⟨r, ps ++ [c]⟩) :
    Proper ⟨r, ps⟩ := by
  obtain ⟨ups, names, hp, hnames, hr⟩ := h
  simp only at hp hr
  rcases List.eq_nil_or_concat names with rfl | ⟨init, last, rfl⟩
  · cases ups with
    | zero => simp at hp
    | succ k =>
      rw [List.append_nil, List.replicate_succ'] at hp
      refine ⟨k, [], ?_, by simp, fun h => absurd (hr h) (by simp)⟩
      simpa using (List.append_inj_left' hp rfl)
  · rw [List.concat_eq_append, ← List.append_assoc] at hp
    exact ⟨ups, init, List.append_inj_left' hp rfl,
      fun d hd => hnames d (by simp [hd]), hr⟩

theorem Proper.append_names {n : Normal} (hn : n.Proper) {names : List Text}
    (h : ∀ c ∈ names, IsName c) : Proper ⟨n.rooted, n.parts ++ names⟩ := by
  rw [← foldl_step_names n h]
  exact proper_foldl_step hn fun c hc _ => h c hc

theorem render_concat (r : Bool) (ps : List Text) (c : Text) :
    render ⟨r, ps ++ [c]⟩ =
      if r = false ∧ ps = [] then c
      else (if ps = [] then [] else render ⟨r, ps⟩) ++ slash :: c := by
  by_cases hps : ps = []
  · subst hps
    cases r <;> simp [render, Text.join]
  · cases r <;> simp [render, hps, Text.join_append_singleton hps]

theorem exists_render_concat (r : Bool) (ps : List Text) (c : Text) :
    ∃ a, render ⟨r, ps ++ [c]⟩ = a ++ c := by
  rw [render_concat]
  split
  · exact ⟨[], rfl⟩
  · exact ⟨(if ps = [] then [] else render ⟨r, ps⟩) ++ [slash], by simp⟩

theorem Proper.getLast?_render_ne_slash {n : Normal} (hn : n.Proper) (h : n.parts ≠ []) {b : UInt8}
    (hb : n.render.getLast? = some b) : b ≠ slash := by
  rcases List.eq_nil_or_concat n.parts with h' | ⟨init, c, hc⟩
  · exact absurd h' h
  · rw [List.concat_eq_append] at hc
    have hmem : c ∈ n.parts := by simp [hc]
    obtain ⟨a, ha⟩ := exists_render_concat n.rooted init c
    have hr : n.render = a ++ c := by rw [← ha, ← hc]
    rw [hr, List.getLast?_append, Option.or_eq_some_iff] at hb
    rintro rfl
    rcases hb with hlast | ⟨hnone, -⟩
    · exact hn.slash_not_mem hmem (List.mem_of_getLast? hlast)
    · exact hn.part_ne_nil hmem (List.getLast?_eq_none_iff.1 hnone)

theorem dir_render {r : Bool} {ps : List Text} {c : Text} (h : Proper ⟨r, ps ++ [c]⟩) :
    dir (render ⟨r, ps ++ [c]⟩) = render ⟨r, ps⟩ := by
  have hc : slash ∉ c := h.slash_not_mem (by simp)
  rw [render_concat]
  split
  · rename_i hr
    rw [dir, Text.cutLast?_of_not_mem hc]
    simp [hr, render]
  · rename_i hr
    rw [dir, Text.cutLast?_append hc]
    by_cases hps : ps = []
    · subst hps
      have : r = true := by simpa using hr
      subst this
      simp only [if_true]
      decide
    · simp only [hps, if_false]
      have hp := h.init
      have habs : isAbsolute (render ⟨r, ps⟩ ++ [slash]) = isAbsolute (render ⟨r, ps⟩) := by
        cases hx : render ⟨r, ps⟩ with
        | nil => exact absurd hx (render_ne_nil hp)
        | cons b t => rfl
      rw [clean, normalize, habs]
      have : components (render ⟨r, ps⟩ ++ [slash]) = components (render ⟨r, ps⟩) := by
        simpa using components_append_slash (render ⟨r, ps⟩) []
      rw [this]
      exact congrArg render hp.normalize_render

end Normal

theorem normalize_clean (p : Text) : normalize (clean p) = normalize p :=
  (normalize_proper p).normalize_render

end Path

end MetricHistory
