import MetricHistory.Archive.Extract
import MetricHistory.Proofs.Path.Inside

/-!
# Where an entry is placed, and where its link is judged

* `Archive.target_exact` : an entry gets a place exactly when its name, joined onto the destination,
  leads to the destination or below it.
* `Path.linkInside_relative` and `Path.linkInside_rooted` : the link of an entry is followed by name
  from what stands before the last slash of the entry's name; that of a rooted name is never followed
  out.
* `Path.linkInside_judges_iff` : this is the directory that the link is placed in exactly when the
  name is relative and ends with a name, apart from roots that make no difference.
-/

namespace MetricHistory

namespace Path

variable {root name link t : Text}

/-- A name without a step up is joined onto every root, whatever its components begin with. -/
theorem within_join_of_not_mem (h : root ≠ [] ∨ isAbsolute name = false)
    (hup : dotdot ∉ components name) :
    (normalize root).Within (normalize (join [root, name])) := by
  have hnames : ∀ c ∈ components name, IsName c := fun c hc =>
    isName_of_mem_components hc fun hd => hup (hd ▸ hc)
  rw [Normal.within_iff (normalize_proper _) (normalize_proper _), normalize_join h,
    Normal.foldl_step_names _ hnames]
  exact ⟨rfl, _, rfl, hnames⟩

end Path

namespace Archive

/-- **An entry gets its place, the join of the destination and its name, exactly when this is the
destination or lies below it**; else it is refused under its name.  Only steps up are refused, not
components such as `..x` that begin with two points. -/
theorem target_exact (dest name : Text) (fs : FileSystem) :
    (target dest name).run fs =
        (if (Path.normalize dest).Within (Path.normalize (Path.join [dest, name])) then
          .ok (Path.join [dest, name]) else .error (.unsafePath name), fs) ∧
      (dest ≠ [] ∨ Path.isAbsolute name = false → Path.dotdot ∉ Path.components name →
        (target dest name).run fs = (.ok (Path.join [dest, name]), fs)) := by
  have hexact : (target dest name).run fs =
      (if (Path.normalize dest).Within (Path.normalize (Path.join [dest, name])) then
        .ok (Path.join [dest, name]) else .error (.unsafePath name), fs) := by
    by_cases h : (Path.normalize dest).Within (Path.normalize (Path.join [dest, name]))
    · rw [target, (Path.safeJoin?_eq_some_iff _ _ _).2 ⟨rfl, h⟩, if_pos h]
      rfl
    · have hnone : Path.safeJoin? dest name = none := by
        rw [← Option.not_isSome_iff_eq_none, Path.safeJoin?_isSome_iff]
        exact h
      rw [target, hnone, if_neg h]
      rfl
  refine ⟨hexact, fun h hup => ?_⟩
  rw [hexact, if_pos (Path.within_join_of_not_mem h hup)]

theorem target_exact_dotted :
    Text.ofString ".." ≠ [] ∧ Path.dotdot ∉ Path.components "..x" ∧
      (target ".." "..x").run {} = (.ok (Path.join ["..", "..x"]), {}) :=
  have hdest : Text.ofString ".." ≠ [] := by decide
  have hup : Path.dotdot ∉ Path.components "..x" := by decide
  ⟨hdest, hup, (target_exact ".." "..x" {}).2 (.inl hdest) hup⟩

end Archive

namespace Path

variable {root name link t : Text}

/-! ### Before the last slash -/

/-- What stands behind the last slash of a path. -/
def lastPart (p : Text) : Text :=
  match p.cutLast? slash with
  | none => p
  | some (_, last) => last

theorem exists_lastPart (p : Text) :
    slash ∉ lastPart p ∧
      ((p = lastPart p ∧ dir p = dot) ∨
        ∃ before, p = before ++ slash :: lastPart p ∧ dir p = clean (before ++ [slash])) := by
  by_cases hp : slash ∈ p
  · obtain ⟨after, before, hrev, hafter⟩ := List.eq_append_cons_of_mem (List.mem_reverse.2 hp)
    have hsplit : p = before.reverse ++ slash :: after.reverse := by
      rw [← List.reverse_reverse p, hrev]
      simp
    have hcut : p.cutLast? slash = some (before.reverse, after.reverse) := by
      rw [hsplit]
      exact Text.cutLast?_append (by simpa using hafter) _
    have hlast : lastPart p = after.reverse := by rw [lastPart, hcut]
    refine ⟨by rw [hlast]; simpa using hafter, .inr ⟨before.reverse, by rw [hlast]; exact hsplit, ?_⟩⟩
    rw [dir, hcut]
  · have hcut := Text.cutLast?_of_not_mem hp
    have hlast : lastPart p = p := by rw [lastPart, hcut]
    exact ⟨hlast.symm ▸ hp, .inl ⟨hlast.symm, by rw [dir, hcut]⟩⟩

theorem dir_ne_nil (p : Text) : dir p ≠ [] := by
  rcases (exists_lastPart p).2 with ⟨-, h⟩ | ⟨before, -, h⟩
  · rw [h]
    decide
  · rw [h]
    exact Normal.render_ne_nil (normalize_proper _)

theorem exists_front (p : Text) :
    ∃ front, components p = front ++ components (lastPart p) ∧
      normalize (dir p) = front.foldl Normal.step ⟨isAbsolute p, []⟩ := by
  obtain ⟨hlast, ⟨hp, hd⟩ | ⟨before, hp, hd⟩⟩ := exists_lastPart p
  · refine ⟨[], by rw [← hp]; rfl, ?_⟩
    have hrel : isAbsolute p = false := by
      cases p with
      | nil => rfl
      | cons b q =>
        rw [← hp, List.mem_cons, not_or] at hlast
        simpa [isAbsolute] using Ne.symm hlast.1
    rw [hd, hrel]
    decide
  · refine ⟨components before, ?_, ?_⟩
    · rw [← components_append_slash, ← hp]
    · have habs : isAbsolute (before ++ [slash]) = isAbsolute p := by
        rw [hp]
        cases before <;> rfl
      have hfront : components (before ++ [slash]) = components before := by
        simpa using components_append_slash before []
      rw [hd, normalize_clean, normalize, habs, hfront]

theorem components_lastPart (p : Text) :
    (IsName (lastPart p) ∧ components (lastPart p) = [lastPart p]) ∨
      (lastPart p = dotdot ∧ components (lastPart p) = [dotdot]) ∨
        (lastPart p ≠ dotdot ∧ ¬ IsName (lastPart p) ∧ components (lastPart p) = []) := by
  have hslash := (exists_lastPart p).1
  have hsplit : components (lastPart p) =
      [lastPart p].filter fun c => !c.isEmpty && c != dot := by
    rw [components, Text.splitOn_of_not_mem hslash]
  by_cases hnil : lastPart p = []
  · exact .inr (.inr ⟨by rw [hnil]; decide, fun h => h.ne_nil hnil, by rw [hsplit, hnil]; rfl⟩)
  by_cases hdot : lastPart p = dot
  · exact .inr (.inr ⟨by rw [hdot]; decide, fun h => h.ne_dot hdot, by rw [hsplit, hdot]; rfl⟩)
  have hone : components (lastPart p) = [lastPart p] := by
    rw [hsplit]
    simp [hnil, hdot]
  by_cases hdd : lastPart p = dotdot
  · exact .inr (.inl ⟨hdd, by rw [hone, hdd]⟩)
  · exact .inl ⟨⟨hnil, hdot, hdd, hslash⟩, hone⟩

theorem IsRelative.isAbsolute_eq {p : Text} (h : IsRelative p) : isAbsolute p = false := by
  cases p with
  | nil => rfl
  | cons b p =>
    by_contra habs
    have hb : b = slash := by simpa [isAbsolute] using habs
    exact (h [] (by simp [Text.splitOn, hb])).ne_nil rfl

theorem IsRelative.isName_lastPart {p : Text} (h : IsRelative p) : IsName (lastPart p) := by
  obtain ⟨hlast, hp⟩ := exists_lastPart p
  refine h _ ?_
  rcases hp with ⟨hp, -⟩ | ⟨before, hp, -⟩
  · rw [← hp] at hlast ⊢
    rw [Text.splitOn_of_not_mem hlast]
    simp
  · rw [hp, Text.splitOn_append_sep, ← hp, Text.splitOn_of_not_mem hlast]
    simp

theorem normalize_append_slash {p : Text} (h : p ≠ []) (q : Text) :
    normalize (p ++ slash :: q) = (components q).foldl Normal.step (normalize p) := by
  have habs : isAbsolute (p ++ slash :: q) = isAbsolute p := by
    obtain ⟨b, p, rfl⟩ := List.exists_cons_of_ne_nil h
    rfl
  rw [normalize, components_append_slash, List.foldl_append, habs]
  rfl

theorem normalize_dir_render {n : Normal} (hn : n.Proper) :
    normalize (dir n.render) = ⟨n.rooted, n.parts.dropLast⟩ := by
  obtain ⟨r, ps⟩ := n
  rcases List.eq_nil_or_concat ps with rfl | ⟨init, c, rfl⟩
  · cases r <;> decide
  · rw [List.concat_eq_append] at hn ⊢
    rw [Normal.dir_render hn, hn.init.normalize_render, List.dropLast_concat]

theorem normalize_dir_join (root name : Text) :
    normalize (dir (join [root, name])) =
      ⟨(normalize (join [root, name])).rooted, (normalize (join [root, name])).parts.dropLast⟩ := by
  unfold join
  dsimp only
  split
  · decide
  · rw [clean, normalize_dir_render (normalize_proper _), (normalize_proper _).normalize_render]

/-! ### Judging a link -/

/-- What is asked of a link text before it is followed. -/
theorem linkInside_iff (root name link : Text) :
    linkInside root name link = true ↔ link ≠ [] ∧ isAbsolute link = false ∧
      (normalize root).Within (normalize (join [root, join [dir name, link]])) := by
  rw [linkInside, Bool.and_eq_true, Bool.and_eq_true, safeJoin?_isSome_iff, and_assoc]
  simp

/-- The link of a relative name is followed from what stands before its last slash. -/
theorem linkInside_relative {front : List Text} (hname : isAbsolute name = false)
    (hfront : normalize (dir name) = front.foldl Normal.step ⟨isAbsolute name, []⟩) :
    linkInside root name link = true ↔ link ≠ [] ∧ isAbsolute link = false ∧
      (normalize root).Within
        ((components link).foldl Normal.step (front.foldl Normal.step (normalize root))) := by
  have hwalk : (components link).foldl Normal.step (normalize (dir name)) =
      (front ++ components link).foldl Normal.step ⟨false, []⟩ := by
    rw [hfront, hname, List.foldl_append]
  have hproper : ((components link).foldl Normal.step (normalize (dir name))).Proper :=
    Normal.proper_foldl_step (normalize_proper _) fun _ hc => isName_of_mem_components hc
  have hrel : isAbsolute (join [dir name, link]) = false := by
    rw [join_pair (dir_ne_nil name), hproper.isAbsolute_render, hwalk, foldl_step_rooted]
  rw [linkInside_iff, normalize_join (.inr hrel), join_pair (dir_ne_nil name),
    hproper.components_render, hwalk, Normal.foldl_step_normalized, List.foldl_append]

/-- The link of a rooted name is taken whatever way it goes. -/
theorem linkInside_rooted (hroot : root ≠ []) (hname : isAbsolute name = true) :
    linkInside root name link = true ↔ link ≠ [] ∧ isAbsolute link = false := by
  have hproper : ((components link).foldl Normal.step (normalize (dir name))).Proper :=
    Normal.proper_foldl_step (normalize_proper _) fun _ hc => isName_of_mem_components hc
  have hrooted : ((components link).foldl Normal.step (normalize (dir name))).rooted = true := by
    obtain ⟨front, -, hfront⟩ := exists_front name
    rw [foldl_step_rooted, hfront, foldl_step_rooted, hname]
  -- at the top of the tree steps up have no effect
  obtain ⟨ups, names, hparts, hnames, hups⟩ := hproper
  rw [hups hrooted, List.replicate_zero, List.nil_append] at hparts
  have hwithin : (normalize root).Within (normalize (join [root, join [dir name, link]])) := by
    rw [Normal.within_iff (normalize_proper _) (normalize_proper _), normalize_join (.inl hroot),
      join_pair (dir_ne_nil name),
      Normal.Proper.components_render ⟨ups, names, by rw [hparts, hups hrooted]; rfl, hnames, hups⟩,
      hparts, Normal.foldl_step_names _ hnames]
    exact ⟨rfl, names, rfl, hnames⟩
  rw [linkInside_iff]
  simp only [hwithin, and_true]

/-- The link `link`, placed at `t`, leads to the root or below it, read by name. -/
def StaysInside (root t link : Text) : Prop :=
  link ≠ [] ∧ isAbsolute link = false ∧ (normalize root).Within (normalize (dir t ++ slash :: link))

/-- A link text of a number of steps up. -/
def upward (k : ℕ) : Text := Text.join [slash] (dot :: List.replicate k dotdot)

theorem components_upward (k : ℕ) : components (upward k) = List.replicate k dotdot := by
  have hslash : ∀ c ∈ dot :: List.replicate k dotdot, slash ∉ c := by
    intro c hc
    rcases List.mem_cons.1 hc with rfl | hc
    · exact slash_not_mem_dot
    · exact List.eq_of_mem_replicate hc ▸ slash_not_mem_dotdot
  rw [components, upward, Text.splitOn_join (by simp) hslash, List.filter_cons_of_neg (by decide),
    List.filter_eq_self]
  intro c hc
  rw [List.eq_of_mem_replicate hc]
  decide

theorem upward_relative (k : ℕ) : upward k ≠ [] ∧ isAbsolute (upward k) = false := by
  cases k with
  | zero => decide
  | succ k =>
    rw [upward, List.replicate_succ, Text.join_cons_cons]
    exact ⟨by simp, rfl⟩

theorem normalize_dir_target (h : safeJoin? root name = some t) :
    normalize (dir t) = ⟨(normalize t).rooted, (normalize t).parts.dropLast⟩ := by
  obtain ⟨rfl, -⟩ := (safeJoin?_eq_some_iff _ _ _).1 h
  exact normalize_dir_join root name

/-- A link text is followed from the directory that the link is placed in. -/
theorem staysInside_iff (root t link : Text) :
    StaysInside root t link ↔ link ≠ [] ∧ isAbsolute link = false ∧
      (normalize root).Within ((components link).foldl Normal.step (normalize (dir t))) := by
  rw [StaysInside, normalize_append_slash (dir_ne_nil _)]

theorem exists_names (h : safeJoin? root name = some t) :
    ∃ names, normalize t = ⟨(normalize root).rooted, (normalize root).parts ++ names⟩ ∧
      ∀ c ∈ names, IsName c := by
  obtain ⟨rfl, hin⟩ := (safeJoin?_eq_some_iff _ _ _).1 h
  obtain ⟨hrooted, names, hparts, hnames⟩ :=
    (Normal.within_iff (normalize_proper _) (normalize_proper _)).1 hin
  exact ⟨names, by rw [hrooted, ← hparts], hnames⟩

theorem normalize_target (h : safeJoin? root name = some t) :
    normalize t = (components name).foldl Normal.step (normalize root) := by
  rw [((safeJoin?_eq_some_iff _ _ _).1 h).1, normalize_join (rooted_or_relative h)]

theorem linkInside_of_front {front : List Text} (hrel : isAbsolute name = false)
    (hfront : normalize (dir name) = front.foldl Normal.step ⟨isAbsolute name, []⟩)
    (hplaced : front.foldl Normal.step (normalize root) = normalize (dir t)) :
    linkInside root name link = true ↔ StaysInside root t link := by
  rw [linkInside_relative hrel hfront, staysInside_iff, hplaced]

theorem linkInside_of_name (h : safeJoin? root name = some t) (hrel : isAbsolute name = false)
    (hlast : IsName (lastPart name)) :
    linkInside root name link = true ↔ StaysInside root t link := by
  obtain ⟨front, hcomponents, hfront⟩ := exists_front name
  refine linkInside_of_front hrel hfront ?_
  rcases components_lastPart name with ⟨-, hone⟩ | ⟨hdd, -⟩ | ⟨-, hno, -⟩
  · rw [normalize_dir_target h, normalize_target h, hcomponents, hone, List.foldl_append]
    simp only [List.foldl_cons, List.foldl_nil]
    rw [Normal.step_name hlast.ne_dotdot, List.dropLast_concat]
  · exact absurd hdd hlast.ne_dotdot
  · exact absurd hlast hno

/-- Where a relative name does not end with a name, its last slash comes at the place of the entry or
a name further down. -/
theorem front_of_not_name {front names : List Text} (h : safeJoin? root name = some t)
    (hfront : components name = front ++ components (lastPart name))
    (hlast : ¬ IsName (lastPart name)) (htop : normalize root ≠ ⟨true, []⟩)
    (hnames : normalize t = ⟨(normalize root).rooted, (normalize root).parts ++ names⟩)
    (hall : ∀ c ∈ names, IsName c) :
    front.foldl Normal.step (normalize root) = normalize t ∧ lastPart name ≠ dotdot ∨
      ∃ x, IsName x ∧ front.foldl Normal.step (normalize root) =
        ⟨(normalize root).rooted, (normalize root).parts ++ (names ++ [x])⟩ := by
  have hwalk := normalize_target h
  rw [hfront, List.foldl_append] at hwalk
  rcases components_lastPart name with ⟨hname, -⟩ | ⟨-, hone⟩ | ⟨hne, -, hnone⟩
  · exact absurd hname hlast
  · right
    rw [hone, hnames] at hwalk
    simp only [List.foldl_cons, List.foldl_nil] at hwalk
    have hproper : (front.foldl Normal.step (normalize root)).Proper :=
      Normal.proper_foldl_step (normalize_proper _) fun c hc =>
        isName_of_mem_components (p := name) (by simp [hfront, hc])
    obtain ⟨x, hx, hwhere⟩ := Normal.exists_of_step_dotdot hproper (foldl_step_rooted _ front)
      (Normal.count_dotdot_le_foldl _ front) htop hall hwalk.symm
    exact ⟨x, hx, hwhere⟩
  · exact .inl ⟨by rw [hwalk, hnone]; rfl, hne⟩

/-- Some number of steps up leads out of the directory that a link is placed in. -/
theorem exists_leaving {names : List Text} (h : safeJoin? root name = some t)
    (htop : normalize root ≠ ⟨true, []⟩)
    (hnames : normalize t = ⟨(normalize root).rooted, (normalize root).parts ++ names⟩)
    (hall : ∀ c ∈ names, IsName c) {m : ℕ} (hm : names.length ≤ m)
    (hzero : m = 0 → (normalize root).parts ≠ []) :
    ∃ k, (k = 0 ∨ k = m) ∧ ¬ StaysInside root t (upward k) := by
  have hplaced : normalize (dir t) =
      ⟨(normalize root).rooted, ((normalize root).parts ++ names).dropLast⟩ := by
    rw [normalize_dir_target h, hnames]
  have hout : ∀ k, ¬ (normalize root).Within
      ((List.replicate k dotdot).foldl Normal.step (normalize (dir t))) →
      ¬ StaysInside root t (upward k) := by
    intro k hno hstays
    rw [staysInside_iff, components_upward] at hstays
    exact hno hstays.2.2
  -- it is enough that so many steps leave fewer names than the root has
  have hup : (normalize (dir t)).depth - m < (normalize root).depth →
      ¬ StaysInside root t (upward m) := fun hdepth =>
    hout m (Normal.not_within_ups (normalize_proper _) (normalize_proper _) (by rw [hplaced]) htop hdepth)
  rcases List.eq_nil_or_concat names with rfl | ⟨init, c, rfl⟩
  · by_cases hroot : (normalize root).parts = []
    · -- the place is the top of a relative tree, and so is the directory around it
      refine ⟨m, .inr rfl, hup ?_⟩
      rw [hplaced, hroot]
      have hpos : m ≠ 0 := fun hm => hzero hm hroot
      simp [Normal.depth, hroot]
      omega
    · refine ⟨0, .inl rfl, hout 0 fun hin => ?_⟩
      have hlen := hin.parts.length_le
      have hpos := List.length_pos_iff.2 hroot
      rw [List.replicate_zero, List.foldl_nil, hplaced, List.append_nil, List.length_dropLast] at hlen
      omega
  · rw [List.concat_eq_append] at hplaced hall hm
    refine ⟨m, .inr rfl, hup ?_⟩
    rw [hplaced, ← List.append_assoc, List.dropLast_concat,
      Normal.depth_append _ (normalize root).rooted _ fun c hc => hall c (by simp [hc])]
    rw [List.length_append, List.length_singleton] at hm
    change (normalize root).depth + _ - _ < _
    omega

/-- The link of a rooted name may go up further than the place of the entry lies down. -/
theorem exists_misjudged_rooted (h : safeJoin? root name = some t) (htop : normalize root ≠ ⟨true, []⟩)
    (habs : isAbsolute name = true) :
    ∃ link, linkInside root name link = true ∧ ¬ StaysInside root t link := by
  obtain ⟨names, hnames, hall⟩ := exists_names h
  have hroot : root ≠ [] := by
    rcases rooted_or_relative h with hroot | hrel
    · exact hroot
    · rw [habs] at hrel
      simp at hrel
  obtain ⟨k, -, hout⟩ := exists_leaving h htop hnames hall (m := names.length + 1) (by omega) (by omega)
  exact ⟨upward k, (linkInside_rooted hroot habs).2 (upward_relative k), hout⟩

/-- From a place below the root some links up are accepted: none, and one that goes up to the root. -/
theorem linkInside_upward {front names : List Text} (hrel : isAbsolute name = false)
    (hfront : normalize (dir name) = front.foldl Normal.step ⟨isAbsolute name, []⟩)
    (hall : ∀ c ∈ names, IsName c) (hwalk : front.foldl Normal.step (normalize root) =
      ⟨(normalize root).rooted, (normalize root).parts ++ names⟩) {k : ℕ}
    (hk : k = 0 ∨ k = names.length) : linkInside root name (upward k) = true := by
  rw [linkInside_relative hrel hfront, components_upward, hwalk]
  refine ⟨(upward_relative k).1, (upward_relative k).2, ?_⟩
  rcases hk with rfl | rfl
  · exact (Normal.within_iff (normalize_proper _) ((normalize_proper _).append_names hall)).2
      ⟨rfl, names, rfl, hall⟩
  · rw [Normal.foldl_ups_names _ _ hall]
    exact ⟨rfl, rfl, List.prefix_refl _⟩

/-- A relative name that does not end with a name has a link that goes up a step too far. -/
theorem exists_misjudged_relative (h : safeJoin? root name = some t)
    (htop : normalize root ≠ ⟨true, []⟩) (hrel : isAbsolute name = false)
    (hlast : ¬ IsName (lastPart name))
    (hedge : lastPart name ≠ dotdot → normalize root = ⟨false, []⟩ → normalize t ≠ ⟨false, []⟩) :
    ∃ link, linkInside root name link = true ∧ ¬ StaysInside root t link := by
  obtain ⟨front, hcomponents, hfront⟩ := exists_front name
  obtain ⟨names, hnames, hall⟩ := exists_names h
  rcases front_of_not_name h hcomponents hlast htop hnames hall with ⟨hwalk, hne⟩ | ⟨x, hx, hwalk⟩
  · -- the link is followed from its own place, one name below its directory
    have hzero : names.length = 0 → (normalize root).parts ≠ [] := by
      intro hnil hroot
      have hrooted : (normalize root).rooted = false := by
        rw [← Bool.not_eq_true]
        exact fun hr => htop (by rw [← hr, ← hroot])
      have hhere : normalize root = ⟨false, []⟩ := by rw [← hrooted, ← hroot]
      refine hedge hne hhere ?_
      rw [hnames, hhere, List.length_eq_zero_iff.1 hnil]
      rfl
    obtain ⟨k, hk, hout⟩ := exists_leaving h htop hnames hall (le_refl names.length) hzero
    exact ⟨upward k, linkInside_upward hrel hfront hall (hwalk.trans hnames) hk, hout⟩
  · -- it is followed from a name below its own place
    have hall' : ∀ c ∈ names ++ [x], IsName c := by
      intro c hc
      rcases List.mem_append.1 hc with hc | hc
      · exact hall c hc
      · exact List.mem_singleton.1 hc ▸ hx
    obtain ⟨k, hk, hout⟩ := exists_leaving h htop hnames hall (m := (names ++ [x]).length)
      (by simp) (by simp)
    exact ⟨upward k, linkInside_upward hrel hfront hall' hwalk hk, hout⟩

theorem linkInside_of_top (h : safeJoin? root name = some t) (htop : normalize root = ⟨true, []⟩) :
    linkInside root name link = true ↔ StaysInside root t link := by
  obtain ⟨names, hnames, -⟩ := exists_names h
  have hroot : root ≠ [] := by
    rintro rfl
    exact absurd htop (by decide)
  have hfollowed : Normal.Within ⟨true, []⟩ (normalize (join [root, join [dir name, link]])) :=
    (normalize_proper _).within_top (by rw [normalize_join (.inl hroot), foldl_step_rooted, htop])
  have hplaced : Normal.Within ⟨true, []⟩ (normalize (dir t ++ slash :: link)) :=
    (normalize_proper _).within_top (by
      rw [normalize_append_slash (dir_ne_nil _), foldl_step_rooted, normalize_dir_target h, hnames,
        htop])
  rw [linkInside_iff, StaysInside, htop]
  simp only [hfollowed, hplaced]

theorem linkInside_of_here (h : safeJoin? root name = some t) (hrel : isAbsolute name = false)
    (hne : lastPart name ≠ dotdot) (hhere : normalize t = ⟨false, []⟩) :
    linkInside root name link = true ↔ StaysInside root t link := by
  obtain ⟨front, hcomponents, hfront⟩ := exists_front name
  rcases components_lastPart name with ⟨hlast, -⟩ | ⟨hdd, -⟩ | ⟨-, -, hnone⟩
  · exact linkInside_of_name h hrel hlast
  · exact absurd hdd hne
  · refine linkInside_of_front hrel hfront ?_
    have hwalk := normalize_target h
    rw [hcomponents, hnone, List.append_nil] at hwalk
    rw [normalize_dir_target h, ← hwalk, hhere]
    rfl

/-- **The link of an entry is judged from the directory that it is placed in, whatever its text, exactly
when the name of the entry is relative and ends with a name.**  For every other name there is a link
that leads out and is recreated, but for two roots: nothing leads out of the top of the tree, and a
link in place of the working directory is judged from there unless its name ends with a step up. -/
theorem linkInside_judges_iff (h : safeJoin? root name = some t) :
    (∀ link, linkInside root name link = true ↔ StaysInside root t link) ↔
      normalize root = ⟨true, []⟩ ∨
        isAbsolute name = false ∧
          (IsName (lastPart name) ∨
            lastPart name ≠ dotdot ∧ normalize root = ⟨false, []⟩ ∧ normalize t = ⟨false, []⟩) := by
  constructor
  · intro hjudges
    by_contra hno
    simp only [not_or, not_and] at hno
    obtain ⟨htop, hno⟩ := hno
    have hmisjudged : ∃ link, linkInside root name link = true ∧ ¬ StaysInside root t link := by
      by_cases habs : isAbsolute name = true
      · exact exists_misjudged_rooted h htop habs
      · rw [Bool.not_eq_true] at habs
        obtain ⟨hlast, hedge⟩ := hno habs
        exact exists_misjudged_relative h htop habs hlast hedge
    obtain ⟨link, hin, hout⟩ := hmisjudged
    exact hout ((hjudges link).1 hin)
  · rintro (htop | ⟨hrel, hlast | ⟨hne, -, hhere⟩⟩) link
    · exact linkInside_of_top h htop
    · exact linkInside_of_name h hrel hlast
    · exact linkInside_of_here h hrel hne hhere

/-- A relative name in a directory: its link may go up as far as the destination. -/
theorem linkInside_judges_nested :
    safeJoin? "dest" "x/a" = some (Text.ofString "dest/x/a") ∧
      ((∀ link, linkInside "dest" "x/a" link = true ↔ StaysInside "dest" "dest/x/a" link) ↔
        normalize "dest" = ⟨true, []⟩ ∨
          isAbsolute "x/a" = false ∧
            (IsName (lastPart "x/a") ∨
              lastPart "x/a" ≠ dotdot ∧ normalize "dest" = ⟨false, []⟩ ∧
                normalize "dest/x/a" = ⟨false, []⟩)) :=
  have h : safeJoin? "dest" "x/a" = some (Text.ofString "dest/x/a") := by decide
  ⟨h, linkInside_judges_iff h⟩

/-- The link of a rooted name is accepted although it leads out of the destination from where it is
placed. -/
theorem linkInside_rooted_leaves :
    safeJoin? "dest" "/a" = some (Text.ofString "dest/a") ∧ linkInside "dest" "/a" ".." = true ∧
      ¬ StaysInside "dest" "dest/a" ".." := by
  refine ⟨by decide, by decide, fun h => ?_⟩
  exact absurd h.2.2 (by decide)

end Path

end MetricHistory
