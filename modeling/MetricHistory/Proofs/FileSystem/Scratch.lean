import MetricHistory.Proofs.FileSystem.Removal

/-!
# Scratch directories

Work that needs files of its own is done in a scratch directory, which is emptied before and
removed afterwards.

* `FileSystem.Confined s` : nothing has changed outside the place `s`, apart from directories that
  were made on the way to it;
* `FileSystem.Scratch path s` : the path leads to the place `s`, as far as there is a way, and goes
  on to do so whatever happens at `s` (`FileSystem.Scratch.confined`);
* `FileSystem.Scratch.removeAll_run` and `FileSystem.Scratch.resetDir_run` : removing and emptying
  a scratch directory always succeeds, and leaves nothing or an empty directory;
* `Files.find_removeAll` : **whatever the files are like, a path leads nowhere after it was
  removed.**

`FileSystem.Shows s tree` says that there is exactly a tree at the place `s`.  In the same
surroundings the same tree has the same directories (`FileSystem.Confined.keeps`).
-/

namespace MetricHistory

namespace Path

theorem join_name (dir : Text) {name : Text} (hn : IsName name) :
    join [dir, name] = below dir [name] := by
  have hcomponents : components name = [name] := by
    simp [components, Text.splitOn_of_not_mem hn.slash_not_mem, hn.ne_nil, hn.ne_dot]
  by_cases hd : dir = []
  · subst hd
    have habsolute : isAbsolute name = false := by
      rw [Bool.eq_false_iff, isAbsolute]
      intro h
      exact hn.slash_not_mem (List.mem_of_mem_head? (by simpa using h))
    have hjoin : join [[], name] = clean name := by simp [join, hn.ne_nil, Text.join]
    rw [hjoin, clean, normalize, hcomponents, habsolute, List.foldl_cons, List.foldl_nil,
      Normal.step_name hn.ne_dotdot]
    rfl
  · rw [join_pair hd, hcomponents, Normal.foldl_step_names _ (by simpa using hn), below]

theorem Normal.base_render {r : Bool} {ps : List Text} {c : Text} (h : Proper ⟨r, ps ++ [c]⟩) :
    base (render ⟨r, ps ++ [c]⟩) = c := by
  have hc : slash ∉ c := h.slash_not_mem (by simp)
  have hne : (render ⟨r, ps ++ [c]⟩).isEmpty = false := by simpa using render_ne_nil h
  have htrim : ((render ⟨r, ps ++ [c]⟩ ++ []).reverse.dropWhile (· == slash)).reverse =
      render ⟨r, ps ++ [c]⟩ :=
    Files.dropWhile_reverse_append (by simp) fun b hb => by
      simpa using h.getLast?_render_ne_slash (by simp) hb
  rw [List.append_nil] at htrim
  rw [base, if_neg (by simp [hne]), htrim, if_neg (by simp [hne]), render_concat]
  by_cases hlone : r = false ∧ ps = []
  · rw [if_pos hlone, Text.cutLast?_of_not_mem hc]
  · rw [if_neg hlone, Text.cutLast?_append hc]

end Path

namespace FileSystem

variable {fs fs' : FileSystem} {s : Place} {path : Text}

/-! ### Staying in a place -/

/-- Nothing has changed outside a place, apart from directories that were made on the way to it. -/
structure Confined (s : Place) (fs fs' : FileSystem) : Prop where
  keep : ∀ {q : Place} {n : FileNode}, ¬ s <+: q → fs.node? q = some n → fs'.node? q = some n
  new : ∀ {q : Place} {n : FileNode}, ¬ s <+: q → fs'.node? q = some n →
    fs.node? q = some n ∨ (n = .dir ∧ q <+: s)
  current : fs'.current = fs.current
  sound : fs'.Sound

theorem Sound.confined_refl (h : fs.Sound) (s : Place) : Confined s fs fs :=
  ⟨fun _ h => h, fun _ h => .inl h, rfl, h⟩

theorem Confined.trans {fs'' : FileSystem} (h : Confined s fs fs') (h' : Confined s fs' fs'') :
    Confined s fs fs'' where
  keep hq hn := h'.keep hq (h.keep hq hn)
  new hq hn := (h'.new hq hn).elim (h.new hq) .inr
  current := h'.current.trans h.current
  sound := h'.sound

theorem Confined.above {ys : List Text} (h : Confined (s ++ ys) fs fs') : Confined s fs fs' where
  keep hq := h.keep fun hp => hq ((List.prefix_append _ _).trans hp)
  new hq hn := by
    rcases h.new (fun hp => hq ((List.prefix_append _ _).trans hp)) hn with hold | ⟨hdir, hp⟩
    · exact .inl hold
    · refine .inr ⟨hdir, ?_⟩
      rcases List.prefix_or_prefix_of_prefix hp (List.prefix_append s ys) with h₁ | h₁
      · exact h₁
      · exact absurd h₁ hq
  current := h.current
  sound := h.sound

theorem Confined.node?_eq (h : Confined s fs fs') {q : Place} (hq : ¬ s <+: q) (hq' : ¬ q <+: s) :
    fs'.node? q = fs.node? q := by
  refine Option.ext fun n => ⟨fun hn => ?_, h.keep hq⟩
  exact (h.new hq hn).resolve_right fun hnew => hq' hnew.2

theorem Confined.node?_below_eq (h : Confined s fs fs') {t : Place} (hst : ¬ s <+: t)
    (hts : ¬ t <+: s) (ys : List Text) : fs'.node? (t ++ ys) = fs.node? (t ++ ys) := by
  refine h.node?_eq (fun hp => ?_) fun hp => hts ((List.prefix_append t ys).trans hp)
  rcases List.prefix_or_prefix_of_prefix hp (List.prefix_append t ys) with h₁ | h₁
  · exact hst h₁
  · exact hts h₁

theorem Confined.keeps_eraseBelow (h : Confined s fs fs') :
    (fs.eraseBelow s).Keeps (fs'.eraseBelow s) :=
  .of_node? fun _ _ hq => node?_eraseBelow_mono hq id h.keep

/-! ### Scratch directories -/

/-- A clean path that leads to the place `s`, without going through it, as far as there is a way.
The rest of the way are names of directories that can be made. -/
structure Scratch (path : Text) (s : Place) (fs : FileSystem) : Prop where
  sound : fs.Sound
  current : ¬ s <+: fs.current
  way : ∃ rooted xs ys left d, path = Path.Normal.render ⟨rooted, xs ++ ys⟩ ∧
    Path.Normal.Proper ⟨rooted, xs ++ ys⟩ ∧ (∀ y ∈ ys, Path.IsName y) ∧ ys ≠ [] ∧ s = d ++ ys ∧
    Reaches (fs.eraseBelow s) linkLimit (fs.origin rooted) xs left d ∧
    ∀ zs ws, ys = zs ++ ws → zs ≠ [] → ws ≠ [] →
      fs.node? (d ++ zs) = none ∨ fs.node? (d ++ zs) = some .dir

theorem Sound.scratch_root (h : fs.Sound) {name : Text} (hn : Path.IsName name)
    (hcurrent : ¬ [name] <+: fs.current) :
    Scratch (Path.Normal.render ⟨true, [name]⟩) [name] fs := by
  refine ⟨h, hcurrent, true, [], [name], linkLimit, [], rfl, ?_, by simpa using hn, by simp, rfl,
    .here _ _, fun zs ws hzw hz hw => ?_⟩
  · have hnames : ∀ c ∈ [name], Path.IsName c := by simpa using hn
    exact Path.proper_below (Text.ofString "/") hnames
  · -- there is nothing between the root and the name
    have hlength := congrArg List.length hzw
    have := List.length_pos_iff.2 hz
    have := List.length_pos_iff.2 hw
    rw [List.length_append, List.length_singleton] at hlength
    omega

/-- Whatever happens at the place, the path goes on to lead there. -/
theorem Scratch.confined (h : Scratch path s fs) (hc : Confined s fs fs') : Scratch path s fs' := by
  obtain ⟨hsound, hcurrent, r, xs, ys, left, d, hpath, hproper, hnames, hys, rfl, hreach, hrest⟩ := h
  refine ⟨hc.sound, hc.current ▸ hcurrent, r, xs, ys, left, d, hpath, hproper, hnames, hys, rfl, ?_,
    fun zs ws hzw hz hw => ?_⟩
  · rw [origin, hc.current]
    exact hreach.mono hc.keeps_eraseBelow
  have hout : ¬ d ++ ys <+: d ++ zs := by
    rw [List.prefix_append_right_inj]
    intro hp
    have := hp.length_le
    rw [hzw, List.length_append] at this
    exact hw (List.length_eq_zero_iff.1 (by omega))
  rcases hnode : fs'.node? (d ++ zs) with _ | n
  · exact .inl rfl
  rcases hc.new hout hnode with hold | ⟨rfl, -⟩
  · rcases hrest zs ws hzw hz hw with hnone | hdir
    · simp [hnone] at hold
    · exact .inr (by rw [← hold, hdir])
  · exact .inr rfl

/-- How far the way to a scratch directory leads: up to the last name, or to one that is free. -/
theorem Scratch.front (h : Scratch path s fs) :
    ∃ rooted xs c ws left d, path = Path.Normal.render ⟨rooted, xs ++ c :: ws⟩ ∧
      Path.Normal.Proper ⟨rooted, xs ++ c :: ws⟩ ∧ (∀ y ∈ c :: ws, Path.IsName y) ∧
      s = d ++ c :: ws ∧ Reaches (fs.eraseBelow s) linkLimit (fs.origin rooted) xs left d ∧
      (ws = [] ∨ fs.node? (d ++ [c]) = none) := by
  obtain ⟨r, xs, ys, left, d, hpath, hproper, hnames, hys, hs, hreach, hrest⟩ := h.way
  -- go down from name to name as long as there are directories
  induction ys generalizing xs d with
  | nil => exact absurd rfl hys
  | cons c ws ih =>
    by_cases hws : ws = []
    · exact ⟨r, xs, c, ws, left, d, hpath, hproper, hnames, hs, hreach, .inl hws⟩
    rcases hrest [c] ws rfl (by simp) hws with hnone | hdir
    · exact ⟨r, xs, c, ws, left, d, hpath, hproper, hnames, hs, hreach, .inr hnone⟩
    have hc := hnames c (by simp)
    have hkept : (fs.eraseBelow s).node? (d ++ [c]) = some .dir := by
      rw [node?_eraseBelow (by simp), if_neg, hdir]
      rw [hs, List.prefix_append_right_inj]
      intro hp
      simpa [hws] using hp.length_le
    refine ih (xs ++ [c]) (d ++ [c]) (by simpa using hpath) (by simpa using hproper)
      (fun y hy => hnames y (by simp [hy])) hws (by simpa using hs)
      (hreach.trans (.down hc.ne_dot hc.ne_dotdot hkept (.here _ _))) ?_
    intro zs vs hzv hz hv
    simpa using hrest (c :: zs) vs (by simp [hzv]) (by simp) hv

theorem keeps_eraseBelow_below (fs : FileSystem) (s : Place) (ys : List Text) :
    (fs.eraseBelow s).Keeps (fs.eraseBelow (s ++ ys)) :=
  .of_node? fun _ _ hq => node?_eraseBelow_mono hq
    (fun hs hp => hs ((List.prefix_append s ys).trans hp)) fun _ => id

theorem Scratch.child (h : Scratch path s fs) (hs : fs.node? s = none ∨ fs.node? s = some .dir)
    {name : Text} (hn : Path.IsName name) :
    Scratch (Path.join [path, name]) (s ++ [name]) fs := by
  obtain ⟨r, xs, ys, left, d, hpath, hproper, hnames, hys, heq, hreach, hrest⟩ := h.way
  have hnormal : Path.normalize path = ⟨r, xs ++ ys⟩ := by rw [hpath, hproper.normalize_render]
  have hjoin : Path.join [path, name] = Path.Normal.render ⟨r, xs ++ (ys ++ [name])⟩ := by
    rw [Path.join_name path hn, Path.below, hnormal, List.append_assoc]
  have hname : ∀ c ∈ [name], Path.IsName c := by simpa using hn
  have hproper' := hproper.append_names hname
  rw [List.append_assoc] at hproper'
  refine ⟨h.sound, fun hp => h.current ((List.prefix_append _ _).trans hp), r, xs, ys ++ [name], left,
    d, hjoin, hproper', ?_, by simp, by rw [heq, List.append_assoc],
    hreach.mono (keeps_eraseBelow_below fs s [name]), ?_⟩
  · intro y hy
    rcases List.mem_append.1 hy with hy | hy
    · exact hnames y hy
    · rwa [List.mem_singleton.1 hy]
  · intro zs ws hzw hz hw
    rcases List.eq_nil_or_concat ws with rfl | ⟨init, e, rfl⟩
    · exact absurd rfl hw
    rw [List.concat_eq_append, ← List.append_assoc] at hzw
    obtain ⟨hys', -⟩ := List.append_inj' hzw rfl
    by_cases hinit : init = []
    · rw [hinit, List.append_nil] at hys'
      rwa [← hys', ← heq]
    · exact hrest zs init hys' hz hinit

theorem Scratch.ne_nil (h : Scratch path s fs) : s ≠ [] := by
  obtain ⟨_, _, _, _, _, _, _, _, _, rfl, _⟩ := h.front
  simp

theorem eraseBelow_eq_self (hs : s ≠ []) (h : ∀ q, s <+: q → fs.node? q = none) :
    fs.eraseBelow s = fs := by
  rw [eraseBelow, List.filter_eq_self.2]
  rintro ⟨q, n⟩ hmem
  simp only [Bool.not_eq_true', Bool.eq_false_iff, ne_eq, List.isPrefixOf_iff_prefix]
  intro hp
  have hq : q.isEmpty = false := by
    rw [Bool.eq_false_iff, ne_eq, List.isEmpty_iff]
    rintro rfl
    exact hs (List.prefix_nil.1 hp)
  have hnone := h q hp
  simp only [node?, hq, Bool.false_eq_true, if_false, List.lookup_eq_none_iff] at hnone
  simpa using hnone (q, n) hmem

theorem Sound.eraseBelow_free (h : fs.Sound) (hs : s ≠ []) (hnone : fs.node? s = none) :
    fs.eraseBelow s = fs := by
  refine eraseBelow_eq_self hs ?_
  rintro q ⟨ys, rfl⟩
  by_cases hys : ys = []
  · rwa [hys, List.append_nil]
  · exact h.below_none (by simp [hnone]) hys

theorem Sound.eraseBelow (h : fs.Sound) (hcurrent : ¬ s <+: fs.current) :
    (fs.eraseBelow s).Sound := by
  refine ⟨fun q c hsome => ?_, (node?_eraseBelow_apart hcurrent).trans h.current⟩
  rw [node?_eraseBelow (by simp)] at hsome
  split at hsome
  · simp at hsome
  · rename_i hp
    rw [node?_eraseBelow_apart fun hq => hp (hq.trans (List.prefix_append _ _))]
    exact h.parent q c hsome

theorem Scratch.confined_eraseBelow (h : Scratch path s fs) : Confined s fs (fs.eraseBelow s) where
  keep hq hn := (node?_eraseBelow_apart hq).trans hn
  new _ hn := .inl ((shrinks_eraseBelow fs s).node hn)
  current := rfl
  sound := h.sound.eraseBelow h.current

theorem Sound.confined_plantDirs {d : Place} {c : Text} {ws : List Text} (h : fs.Sound) (hd : fs.node? d = some .dir)
    (hnone : fs.node? (d ++ [c]) = none) (hs : d ++ c :: ws <+: s) :
    Confined s fs (fs.plantDirs d (c :: ws)) := by
  refine ⟨fun _ hn => node?_plantDirs_of_some h hnone ws hn, fun {q n} _ hn => ?_, by simp,
    h.plantDirs hd hnone ws⟩
  by_cases hway : ∃ zs vs, c :: ws = zs ++ vs ∧ zs ≠ [] ∧ q = d ++ zs
  · obtain ⟨zs, vs, hzv, hz, rfl⟩ := hway
    rw [hzv, node?_plantDirs_of hz] at hn
    refine .inr ⟨(Option.some.inj hn).symm, List.IsPrefix.trans ?_ hs⟩
    rw [hzv, ← List.append_assoc]
    exact List.prefix_append _ _
  · rw [node?_plantDirs_other fun zs vs hzv hz heq => hway ⟨zs, vs, hzv, hz, heq⟩] at hn
    exact .inl hn

/-- There is an empty directory at the place. -/
structure Emptied (s : Place) (fs : FileSystem) : Prop where
  dir : fs.node? s = some .dir
  empty : ∀ ys, ys ≠ [] → fs.node? (s ++ ys) = none

end FileSystem

namespace Files

open FileSystem

theorem removeAll_run (path : Text) (fs : FileSystem) :
    (removeAll path).run fs =
      if path = [] then (.ok (), fs)
      else if Path.base path = Path.dot then (.error ⟨"RemoveAll", [path], .invalid⟩, fs)
      else
        match fs.locate false path with
        | .ok (_, none) => (.ok (), fs)
        | .ok (place, some _) => (.ok (), fs.eraseBelow place)
        | .error .noEntry => (.ok (), fs)
        | .error e => (.error ⟨"unlinkat", [Path.base path], e⟩, fs) := by
  rw [removeAll]
  by_cases hpath : path = []
  · rw [if_pos (by simpa using hpath), if_pos hpath]
    rfl
  rw [if_neg (by simpa using hpath), if_neg hpath]
  by_cases hbase : Path.base path = Path.dot
  · rw [if_pos (by simpa using hbase), if_pos hbase]
    rfl
  rw [if_neg (by simpa using hbase), if_neg hbase, run_get_bind]
  rcases fs.locate false path with e | ⟨p, _ | n⟩
  · cases e <;> rfl
  · rfl
  · rfl

end Files

namespace FileSystem

variable {fs fs' : FileSystem} {s : Place} {path : Text}

/-- Following a scratch path comes to its last name, or to one that is free. -/
theorem Scratch.locate_front (h : Scratch path s fs) :
    ∃ left d c ws, s = d ++ c :: ws ∧ Path.IsName c ∧
      fs.locate false path = fs.walk false left d (c :: ws) ∧
      (ws = [] ∨ fs.node? (d ++ [c]) = none) := by
  obtain ⟨r, xs, c, ws, left, d, hpath, hproper, hnames, hs, hreach, hfree⟩ := h.front
  refine ⟨left, d, c, ws, hs, hnames c (by simp), ?_, hfree⟩
  rw [hpath, locate_render hproper]
  exact ((shrinks_eraseBelow fs _).reaches hreach).walk_append (.inr (by simp))

theorem Scratch.find_place (h : Scratch path s fs) :
    fs.find false path =
      match fs.node? s with
      | none => .error .noEntry
      | some n => .ok (s, n) := by
  obtain ⟨left, d, c, ws, rfl, hc, hlocate, hfree⟩ := h.locate_front
  rw [find, hlocate]
  cases hnode : fs.node? (d ++ [c]) with
  | none =>
    rw [h.sound.node?_eq_none hnode, walk, if_neg hc.ne_dot, if_neg hc.ne_dotdot]
    simp only [hnode]
    cases ws <;> rfl
  | some n =>
    obtain rfl : ws = [] := hfree.resolve_right (by simp [hnode])
    rw [walk_name hc.ne_dot hc.ne_dotdot, hnode]
    cases n <;> rfl

/-- **Removing a scratch directory succeeds, and removes what is there.** -/
theorem Scratch.removeAll_run (h : Scratch path s fs) :
    (Files.removeAll path).run fs = (.ok (), fs.eraseBelow s) := by
  obtain ⟨r, xs, ys, -, -, hpath, hproper, hnames, hys, -⟩ := h.way
  have hne : path ≠ [] := hpath ▸ Path.Normal.render_ne_nil hproper
  have hbase : Path.base path ≠ Path.dot := by
    obtain ⟨init, e, rfl⟩ := (List.eq_nil_or_concat ys).resolve_left hys
    rw [List.concat_eq_append, ← List.append_assoc] at hpath hproper
    rw [hpath, Path.Normal.base_render hproper]
    exact (hnames e (by simp)).ne_dot
  have hplace := h.find_place
  rw [Files.removeAll_run, if_neg hne, if_neg hbase]
  rw [find] at hplace
  cases hnode : fs.node? s with
  | none =>
    rw [hnode] at hplace
    rw [h.sound.eraseBelow_free h.ne_nil hnode]
    split at hplace <;> simp_all
  | some n =>
    rw [hnode] at hplace
    split at hplace <;> simp_all

/-- **Emptying a scratch directory succeeds, and nothing else changes.** -/
theorem Scratch.resetDir_run (h : Scratch path s fs) :
    ∃ fs', (Files.resetDir path).run fs = (.ok (), fs') ∧ Confined s fs fs' ∧ Emptied s fs' ∧
      fs'.clock = fs.clock ∧ fs'.mask = fs.mask := by
  have hconfined := h.confined_eraseBelow
  obtain ⟨r, xs, c, ws, left, d, hpath, hproper, hnames, hs, hreach, hfree⟩ := h.front
  have hsound := hconfined.sound
  have hd : (fs.eraseBelow s).node? d = some .dir := hreach.dir hsound (hsound.dir_origin _)
  -- the place is free once the tree below it is removed
  have hnone : (fs.eraseBelow s).node? (d ++ [c]) = none := by
    rw [node?_eraseBelow (by simp)]
    rcases hfree with rfl | hfree
    · rw [if_pos (by rw [hs])]
    · split
      · rfl
      · exact hfree
  have hmake := Files.makeDirs_missing hsound hreach (hnames c (by simp)).ne_dotdot hnone hproper
  rw [← hpath] at hmake
  have hprefix : d ++ c :: ws <+: s := hs ▸ List.prefix_refl _
  refine ⟨_, ?_, hconfined.trans (hsound.confined_plantDirs hd hnone hprefix), ⟨?_, fun ys hys => ?_⟩,
    plantDirs_clock _ _ _, plantDirs_mask _ _ _⟩
  · rw [Files.resetDir, run_bind, h.removeAll_run]
    exact hmake
  · rw [hs]
    exact node?_plantDirs_last (by simp)
  · rw [node?_plantDirs_other, node?_eraseBelow (by simp [hys]), if_pos (List.prefix_append _ _)]
    rintro zs vs hzv - heq
    rw [hs, List.append_assoc, List.append_cancel_left_eq] at heq
    have h₁ := congrArg List.length heq
    have h₂ := congrArg List.length hzv
    have h₃ := List.length_pos_iff.2 hys
    simp only [List.length_append, List.length_cons] at h₁ h₂
    omega

end FileSystem

namespace Files

open FileSystem

/-- A name in a directory is where the directory leads to. -/
theorem node?_of_find {fs : FileSystem} {r : Bool} {ps : List Text} {c : Text} {q : Place}
    {n : FileNode} (hproper : Path.Normal.Proper ⟨r, ps ++ [c]⟩) (hc : Path.IsName c)
    (h : fs.find false (Path.Normal.render ⟨r, ps ++ [c]⟩) = .ok (q, n)) :
    ∃ left d, Reaches fs linkLimit (fs.origin r) ps left d ∧ q = d ++ [c] ∧
      fs.node? (d ++ [c]) = some n := by
  rw [FileSystem.find, locate_render hproper] at h
  split at h
  · simp at h
  · simp at h
  rename_i hwalk
  obtain ⟨left, d, hreach, hlast⟩ := reaches_of_walk_ok hwalk
  rw [walk_name hc.ne_dot hc.ne_dotdot] at hlast
  refine ⟨left, d, hreach, ?_⟩
  simp only [Except.ok.injEq, Prod.mk.injEq] at h
  obtain ⟨rfl, rfl⟩ := h
  cases hnode : fs.node? (d ++ [c]) with
  | none => simp [hnode] at hlast
  | some m => cases m <;> simp_all

/-- **Whatever the files are like, a path leads nowhere after it was removed.** -/
theorem find_removeAll (fs : FileSystem) {r : Bool} {ps : List Text} {c : Text}
    (hproper : Path.Normal.Proper ⟨r, ps ++ [c]⟩) (hc : Path.IsName c) :
    let path := Path.Normal.render ⟨r, ps ++ [c]⟩
    ∃ e, ((removeAll path).run fs).2.find false path = .error e := by
  intro path
  have hbase : Path.base path ≠ Path.dot := by
    rw [Path.Normal.base_render hproper]
    exact hc.ne_dot
  have hshrinks := removeAll_shrinks path fs
  rcases hfind : ((removeAll path).run fs).2.find false path with e | ⟨q, n⟩
  · exact ⟨e, rfl⟩
  exfalso
  -- what is left was found before the removal at the same place, and so it was removed
  obtain ⟨left, d, hreach, rfl, hnode⟩ := node?_of_find hproper hc hfind
  rw [origin, hshrinks.current] at hreach
  have hbefore : fs.locate false path = .ok (d ++ [c], some n) := by
    have hwalk : fs.walk false linkLimit (fs.origin r) (ps ++ [c]) = fs.walk false left d [c] :=
      (hshrinks.reaches hreach).walk_append (.inr (by simp))
    rw [walk_name hc.ne_dot hc.ne_dotdot, hshrinks.node hnode] at hwalk
    rw [locate_render hproper]
    exact hwalk.trans (by cases n <;> rfl)
  rw [removeAll_run, if_neg (Path.Normal.render_ne_nil hproper), if_neg hbase, hbefore] at hnode
  simp only at hnode
  rw [node?_eraseBelow (by simp), if_pos (List.prefix_refl _)] at hnode
  simp at hnode

end Files

/-! ### What a scratch directory holds -/

/-- The node without the time of its last change. -/
def FileNode.unstamped : FileNode → FileNode
  | .file mode content _ => .file mode content Time.zero
  | n => n

/-- What is below a directory, by the names that lead to it; the times of files do not count. -/
abbrev Tree := List Text → Option FileNode

namespace FileSystem

variable {fs fs' : FileSystem} {s : Place} {path : Text}

/-- There is exactly a tree at a place. -/
def Shows (s : Place) (tree : Tree) (fs : FileSystem) : Prop :=
  fs.node? s = some .dir ∧ ∀ ys, ys ≠ [] → (fs.node? (s ++ ys)).map FileNode.unstamped = tree ys

theorem Emptied.shows (h : Emptied s fs) : Shows s (fun _ => none) fs :=
  ⟨h.dir, fun ys hys => by rw [h.empty ys hys]; rfl⟩

/-- A tree is not touched by what happens in another place. -/
theorem Shows.confined {t : Place} {tree : Tree} (h : Shows t tree fs) (hc : Confined s fs fs')
    (hst : ¬ s <+: t) (hts : ¬ t <+: s) : Shows t tree fs' := by
  refine ⟨?_, fun ys hys => ?_⟩
  · rw [← List.append_nil t, hc.node?_below_eq hst hts [], List.append_nil, h.1]
  · rw [hc.node?_below_eq hst hts ys, h.2 ys hys]

theorem isDir_iff : fs.isDir path = true ↔
    path ≠ [] ∧ ∃ left d, Reaches fs linkLimit (fs.start path) (steps path) left d := by
  by_cases hpath : path = []
  · simp [isDir, FileSystem.find, locate, hpath]
  rw [isDir, FileSystem.find, locate, if_neg (by simpa using hpath)]
  constructor
  · intro h
    refine ⟨hpath, ?_⟩
    rcases hw : fs.walk true linkLimit (fs.start path) (steps path) with e | ⟨d, _ | n⟩
    · simp [hw] at h
    · simp [hw] at h
    · obtain rfl : n = .dir := by
        cases n with
        | dir => rfl
        | _ => simp [hw, FileNode.isDir] at h
      obtain ⟨left, hreach⟩ := reaches_of_walk_dir hw
      exact ⟨left, d, hreach⟩
  · rintro ⟨-, left, d, hreach⟩
    rw [hreach.walk_eq]
    rfl

theorem Keeps.isDir (h : fs.Keeps fs') (hc : fs'.current = fs.current) (hdir : fs.isDir path = true) :
    fs'.isDir path = true := by
  obtain ⟨hpath, left, d, hreach⟩ := isDir_iff.1 hdir
  have hstart : fs'.start path = fs.start path := by rw [start, start, hc]
  exact isDir_iff.2 ⟨hpath, left, d, hstart ▸ hreach.mono h⟩

theorem Sound.dir_of_prefix (h : fs.Sound) {q : Place} (hs : fs.node? s = some .dir)
    (hq : q <+: s) : fs.node? q = some .dir := by
  obtain ⟨ys, rfl⟩ := hq
  by_cases hys : ys = []
  · simpa [hys] using hs
  by_contra hdir
  rw [h.below_none hdir hys] at hs
  simp at hs

/-- A scratch path leads to the directory at its place. -/
theorem Scratch.reaches (h : Scratch path s fs) (hs : fs.node? s = some .dir) :
    ∃ left, Reaches fs linkLimit (fs.origin (Path.normalize path).rooted)
      (Path.normalize path).parts left s := by
  obtain ⟨r, xs, ys, left, d, hpath, hproper, hnames, -, rfl, hreach, -⟩ := h.way
  have hnormal : Path.normalize path = ⟨r, xs ++ ys⟩ := by rw [hpath, hproper.normalize_render]
  have hbefore : Reaches fs linkLimit (fs.origin r) xs left d :=
    (shrinks_eraseBelow fs (d ++ ys)).reaches hreach
  -- from where the way leads it goes down by names, all of them directories
  have hdown : Reaches fs left d ys left (d ++ ys) := by
    refine reaches_names hnames fun zs ws hzw _ => h.sound.dir_of_prefix hs ?_
    rw [List.prefix_append_right_inj, hzw]
    exact List.prefix_append _ _
  rw [hnormal]
  exact ⟨left, hbefore.trans hdown⟩

theorem Scratch.find_eq (h : Scratch path s fs) (hs : fs.node? s = some .dir) :
    fs.find true path = .ok (s, .dir) := by
  obtain ⟨r, xs, ys, -, -, hpath, hproper, -⟩ := h.way
  obtain ⟨left, hreach⟩ := h.reaches hs
  rw [hpath, hproper.normalize_render] at hreach
  rw [hpath]
  exact Files.find_render_dir hproper hreach

/-- Where the same tree was put in the same surroundings, the directories and links are the
same. -/
theorem Confined.keeps {base : FileSystem} {tree : Tree} (h : Confined s base fs)
    (h' : Confined s base fs') (hshows : Shows s tree fs) (hshows' : Shows s tree fs') :
    fs.Keeps fs' := by
  have houtside : ∀ q n, ¬ s <+: q → fs.node? q = some n → fs'.node? q = some n := by
    intro q n hq hn
    rcases h.new hq hn with hold | ⟨rfl, hp⟩
    · exact h'.keep hq hold
    · exact h'.sound.dir_of_prefix hshows'.1 hp
  have hinside : ∀ ys, ys ≠ [] →
      (fs.node? (s ++ ys)).map FileNode.unstamped = (fs'.node? (s ++ ys)).map FileNode.unstamped :=
    fun ys hys => (hshows.2 ys hys).trans (hshows'.2 ys hys).symm
  refine ⟨fun {q} hq => ?_, fun {q t} hq => ?_⟩
  · by_cases hp : s <+: q
    · obtain ⟨ys, rfl⟩ := hp
      by_cases hys : ys = []
      · simpa [hys] using hshows'.1
      · have := hinside ys hys
        rw [hq] at this
        rcases hn : fs'.node? (s ++ ys) with _ | _ | _ | _ <;> simp_all [FileNode.unstamped]
    · exact houtside q _ hp hq
  · by_cases hp : s <+: q
    · obtain ⟨ys, rfl⟩ := hp
      by_cases hys : ys = []
      · have := hshows.1
        simp [hys] at hq
        simp [hq] at this
      · have := hinside ys hys
        rw [hq] at this
        rcases hn : fs'.node? (s ++ ys) with _ | _ | _ | _ <;> simp_all [FileNode.unstamped]
    · exact houtside q _ hp hq

end FileSystem

end MetricHistory
