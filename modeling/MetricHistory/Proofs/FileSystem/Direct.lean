import MetricHistory.Proofs.Cache.Directory

/-!
# Paths that lead to a place of their own

A path may lead through the place at its end, as `x/../x` does when `x` is a link to a directory:
then it leads nowhere once there is a file.  `FileSystem.Direct path s` says that the path leads to
the place `s` whatever is there.

* `FileSystem.locate_base` : what a path leads to has the last component of the path as its name;
* `FileSystem.Direct.fileOf?_eq` : such a path leads to what is at its place;
* `FileSystem.Direct.mono` : it goes on to do so as long as nothing goes away elsewhere and no link
  comes.
-/

namespace MetricHistory

namespace FileSystem

variable {fs fs' : FileSystem} {path c : Text} {links : Nat} {d s q : Place} {xs ys : List Text}

theorem base_of_steps (h : steps path = xs ++ [c]) (hc : c ≠ Path.dot) : Path.base path = c := by
  have hlast : path.getLast? ≠ some Path.slash := by
    intro hslash
    have hends : path.endsWith [Path.slash] = true := by
      rw [Text.endsWith, List.isSuffixOf_iff_suffix]
      exact List.singleton_suffix_iff_getLast?_eq_some.2 hslash
    rw [steps, if_pos hends] at h
    exact hc (List.cons.inj (List.append_inj' h rfl).2).1.symm
  rw [steps_of_parts rfl hlast] at h
  have hne : path ≠ [] := by
    rintro rfl
    simp [Text.splitOn] at h
  have htrim : ((path ++ []).reverse.dropWhile (· == Path.slash)).reverse = path :=
    Files.dropWhile_reverse_append (by simp) fun b hb => by
      rw [beq_eq_false_iff_ne]
      rintro rfl
      exact hlast hb
  rw [List.append_nil] at htrim
  rw [Path.base, if_neg (by simpa using hne), htrim, if_neg (by simpa using hne)]
  by_cases hmem : Path.slash ∈ path
  · -- the last component is what is behind the last slash
    obtain ⟨last, front, hrev, hfree⟩ :=
      List.eq_append_cons_of_mem (List.mem_reverse.2 hmem)
    obtain rfl : path = front.reverse ++ Path.slash :: last.reverse := by
      simpa using congrArg List.reverse hrev
    have hfree' : Path.slash ∉ last.reverse := by simpa using hfree
    have hlast' : last.reverse ≠ [] := by
      intro hnil
      simp [hnil] at hlast
    rw [Text.splitOn_append_sep, Text.splitOn_of_not_mem hfree', List.filter_append,
      List.filter_cons_of_pos (by simpa using hlast')] at h
    rw [Text.cutLast?_append hfree']
    exact (List.cons.inj (List.append_inj' h rfl).2).1
  · rw [Text.splitOn_of_not_mem hmem, List.filter_cons_of_pos (by simpa using hne)] at h
    rw [Text.cutLast?_of_not_mem hmem]
    have h : [] ++ [path] = xs ++ [c] := h
    exact (List.cons.inj (List.append_inj' h rfl).2).1

/-- **What a path leads to has the last component of the path as its name**, unless it is a
directory. -/
theorem locate_base {there : Option FileNode} (h : fs.locate false path = .ok (q, there))
    (hdir : there ≠ some .dir) : ∃ d, q = d ++ [Path.base path] := by
  rw [locate] at h
  split at h
  · simp at h
  rcases List.eq_nil_or_concat (steps path) with hnil | ⟨xs, c, hsteps⟩
  · rw [hnil, walk] at h
    simp only [Except.ok.injEq, Prod.mk.injEq] at h
    exact absurd h.2.symm hdir
  rw [List.concat_eq_append] at hsteps
  rw [hsteps] at h
  obtain ⟨left, d, -, hwalk⟩ := reaches_of_walk_ok h
  -- the last step goes to something that is no directory, or to a directory
  have hend : ∀ {e}, fs.walk false left e [] = .ok (q, there) → False := by
    intro e he
    rw [walk] at he
    simp only [Except.ok.injEq, Prod.mk.injEq] at he
    exact hdir he.2.symm
  cases firstStep_of_walk hwalk with
  | stay h => exact (hend h).elim
  | up h => exact (hend h).elim
  | stop hdot => exact ⟨d, by rw [base_of_steps hsteps hdot]⟩
  | down _ _ _ h => exact (hend h).elim
  | link _ _ _ _ hfollow => simp at hfollow

theorem locate_true {there : Option FileNode} (h : fs.locate false path = .ok (q, there))
    (hlink : ∀ t, there ≠ some (.link t)) : fs.locate true path = .ok (q, there) := by
  rw [locate] at h ⊢
  split at h
  · simp at h
  rename_i hpath
  rw [if_neg hpath]
  rcases List.eq_nil_or_concat (steps path) with hnil | ⟨xs, c, hsteps⟩
  · rw [hnil, walk] at h ⊢
    exact h
  rw [List.concat_eq_append] at hsteps
  rw [hsteps] at h ⊢
  obtain ⟨left, d, hreach, hlast⟩ := reaches_of_walk_ok h
  rw [hreach.walk_append (.inr (by simp))]
  refine FirstStep.walk_eq ?_
  cases firstStep_of_walk hlast with
  | stay h => exact .stay (by rwa [walk] at h ⊢)
  | up h => exact .up (by rwa [walk] at h ⊢)
  | stop hdot hup hn hrest hdir => exact .stop hdot hup hn hrest hdir fun _ => hlink
  | down hdot hup hn h => exact .down hdot hup hn (by rwa [walk] at h ⊢)
  | link _ _ _ _ hfollow => simp at hfollow

theorem walk_names (hs : fs.Sound) (hnames : ∀ y ∈ ys, Path.IsName y) (hys : ys ≠ [])
    (hlinks : ∀ zs ws t, ys = zs ++ ws → zs ≠ [] → ws ≠ [] → fs.node? (d ++ zs) ≠ some (.link t)) :
    fs.walk false links d ys = .ok (d ++ ys, fs.node? (d ++ ys)) ∨
      (∃ e, fs.walk false links d ys = .error e) ∧ fs.node? (d ++ ys) = none := by
  induction ys generalizing d with
  | nil => exact absurd rfl hys
  | cons c ws ih =>
    have hc := hnames c (by simp)
    by_cases hws : ws = []
    · subst hws
      rw [walk_name hc.ne_dot hc.ne_dotdot]
      rcases fs.node? (d ++ [c]) with _ | _ | _ | _ <;> exact .inl rfl
    have happend : d ++ c :: ws = d ++ [c] ++ ws := by simp
    rw [happend, walk, if_neg hc.ne_dot, if_neg hc.ne_dotdot]
    dsimp only
    rcases hnode : fs.node? (d ++ [c]) with _ | _ | _ | t
    · exact .inr ⟨⟨.noEntry, by simp [hws]⟩, hs.below_none (by simp [hnode]) hws⟩
    · refine ih (fun y hy => hnames y (by simp [hy])) hws fun zs vs t hzv hz hv => ?_
      simpa using hlinks (c :: zs) vs t (by simp [hzv]) (by simp) hv
    · exact .inr ⟨⟨.notDirectory, by simp [hws]⟩, hs.below_none (by simp [hnode]) hws⟩
    · exact absurd hnode (hlinks [c] ws t rfl (by simp) hws)

/-- The path leads to the place `s` without going through it, as far as there is a way.  The rest of
the way are names, and no links. -/
def Direct (path : Text) (s : Place) (fs : FileSystem) : Prop :=
  ∃ xs ys left d, steps path = xs ++ ys ∧ (∀ y ∈ ys, Path.IsName y) ∧ ys ≠ [] ∧ s = d ++ ys ∧
    Reaches (fs.eraseBelow s) linkLimit (fs.start path) xs left d ∧
    ∀ zs ws t, ys = zs ++ ws → zs ≠ [] → ws ≠ [] → fs.node? (d ++ zs) ≠ some (.link t)

/-- The file or the link that a path leads to, a link at its end not followed. -/
def fileOf? (fs : FileSystem) (path : Text) : Option FileNode :=
  match fs.find false path with
  | .ok (_, .dir) => none
  | .ok (_, n) => some n
  | .error _ => none

theorem direct_root (fs : FileSystem) {name : Text} (hn : Path.IsName name)
    (hsteps : steps path = [name]) (habsolute : Path.isAbsolute path = true) :
    Direct path [name] fs := by
  have hstart : fs.start path = [] := by rw [start, if_pos habsolute]
  refine ⟨[], [name], linkLimit, [], hsteps, by simpa using hn, by simp, rfl, ?_,
    fun zs ws t hzw hz hw => ?_⟩
  · rw [hstart]
    exact .here _ _
  -- there is nothing between the root and the name
  have hlength := congrArg List.length hzw
  have := List.length_pos_iff.2 hz
  have := List.length_pos_iff.2 hw
  rw [List.length_append, List.length_singleton] at hlength
  omega

namespace Direct

/-- The place has the last component of the path as its name. -/
theorem base (h : Direct path s fs) :
    Path.IsName (Path.base path) ∧ ∃ d, s = d ++ [Path.base path] := by
  obtain ⟨xs, ys, _, d, hsteps, hnames, hys, rfl, -⟩ := h
  obtain ⟨init, c, rfl⟩ := (List.eq_nil_or_concat ys).resolve_left hys
  rw [List.concat_eq_append] at hnames hsteps ⊢
  have hc := hnames c (by simp)
  rw [← List.append_assoc] at hsteps
  rw [base_of_steps hsteps hc.ne_dot]
  exact ⟨hc, d ++ init, (List.append_assoc _ _ _).symm⟩

/-- The path leads to its place, or there is nothing. -/
theorem locate (h : Direct path s fs) (hs : fs.Sound) :
    fs.locate false path = .ok (s, fs.node? s) ∨
      (∃ e, fs.locate false path = .error e) ∧ fs.node? s = none := by
  obtain ⟨xs, ys, left, d, hsteps, hnames, hys, rfl, hreach, hlinks⟩ := h
  have hpath : path ≠ [] := by
    rintro rfl
    have hnil : steps [] = [] := by decide
    rw [hnil] at hsteps
    exact hys (List.append_eq_nil_iff.1 hsteps.symm).2
  have hlocate : fs.locate false path = fs.walk false left d ys := by
    rw [FileSystem.locate, if_neg (by simpa using hpath), hsteps]
    exact ((shrinks_eraseBelow fs _).reaches hreach).walk_append (.inr hys)
  rw [hlocate]
  exact walk_names hs hnames hys hlinks

/-- **The path leads to what is at its place.** -/
theorem fileOf?_eq (h : Direct path s fs) (hs : fs.Sound) :
    fs.fileOf? path = (fs.node? s).filter (!·.isDir) := by
  rw [fileOf?, find]
  rcases h.locate hs with hlocate | ⟨⟨e, hlocate⟩, hnone⟩
  · rw [hlocate]
    rcases fs.node? s with _ | _ | _ | _ <;> rfl
  · rw [hlocate, hnone]
    rfl

/-- **It goes on to do so, whatever happens there, as long as nothing goes away elsewhere and no
link comes.** -/
theorem mono (h : Direct path s fs)
    (hkeep : ∀ q n, ¬ s <+: q → fs.node? q = some n → fs'.node? q = some n)
    (hlink : ∀ q t, ¬ s <+: q → fs'.node? q = some (.link t) → fs.node? q = some (.link t))
    (hcurrent : fs'.current = fs.current) : Direct path s fs' := by
  obtain ⟨xs, ys, left, d, hsteps, hnames, hys, rfl, hreach, hlinks⟩ := h
  have hstart : fs'.start path = fs.start path := by rw [start, start, hcurrent]
  have hkeeps : (fs.eraseBelow (d ++ ys)).Keeps (fs'.eraseBelow (d ++ ys)) :=
    .of_node? fun q n hq => node?_eraseBelow_mono hq id (hkeep q n)
  refine ⟨xs, ys, left, d, hsteps, hnames, hys, rfl, hstart ▸ hreach.mono hkeeps,
    fun zs ws t hzw hz hw hnode => ?_⟩
  refine hlinks zs ws t hzw hz hw (hlink _ _ ?_ hnode)
  rw [List.prefix_append_right_inj]
  intro hp
  have hlength := hp.length_le
  rw [hzw, List.length_append] at hlength
  exact hw (List.length_eq_zero_iff.1 (by omega))

end Direct

theorem Direct.find_file (h : Direct path s fs) (hs : fs.Sound) {mode : ℕ} {content : Text}
    {modified : Time} (hnode : fs.node? s = some (.file mode content modified)) (follow : Bool) :
    fs.find follow path = .ok (s, .file mode content modified) := by
  have hlocate : fs.locate false path = .ok (s, fs.node? s) :=
    (h.locate hs).resolve_right fun hnone => by simp [hnode] at hnone
  rw [hnode] at hlocate
  cases follow with
  | false => rw [find, hlocate]
  | true => rw [find, locate_true hlocate (by simp)]

/-! ### Scratch paths -/

theorem Scratch.direct (h : Scratch path s fs) : Direct path s fs := by
  obtain ⟨r, xs, ys, left, d, rfl, hproper, hnames, hys, hs, hreach, hrest⟩ := h.way
  have hstart : fs.start (Path.Normal.render ⟨r, xs ++ ys⟩) = fs.origin r := by
    rw [start, hproper.isAbsolute_render, origin]
  refine ⟨xs, ys, left, d, steps_render hproper (by simp [hys]), hnames, hys, hs, hstart ▸ hreach,
    fun zs ws t hzw hz hw => ?_⟩
  rcases hrest zs ws hzw hz hw with h | h <;> simp [h]

theorem Scratch.join_dir_base (h : Scratch path s fs) :
    Path.join [Path.dir path, Path.base path] = path := by
  obtain ⟨r, xs, ys, -, -, rfl, hproper, hnames, hys, -⟩ := h.way
  obtain ⟨init, c, rfl⟩ := (List.eq_nil_or_concat ys).resolve_left hys
  rw [List.concat_eq_append] at hnames
  rw [List.concat_eq_append, ← List.append_assoc] at hproper ⊢
  rw [Path.Normal.base_render hproper, Path.Normal.dir_render hproper,
    Path.join_name _ (hnames c (by simp)), Path.below, hproper.init.normalize_render]

theorem Scratch.makeDirs_dir (h : Scratch path s fs) :
    ∃ fs' d, (Files.makeDirs (Path.dir path)).run fs = (.ok (), fs') ∧ Confined s fs fs' ∧
      Cache.LeadsTo (Path.dir path) fs' d ∧ s = d ++ [Path.base path] ∧
      fs'.node? s = fs.node? s ∧ fs'.clock = fs.clock ∧ fs'.mask = fs.mask := by
  obtain ⟨r, xs, c, ws, left, d, hpath, hproper, hnames, hs, hreach, hfree⟩ := h.front
  have hfull := (shrinks_eraseBelow fs s).reaches hreach
  have hd : fs.node? d = some .dir := hfull.dir h.sound (h.sound.dir_origin _)
  rcases List.eq_nil_or_concat ws with rfl | ⟨init, e, rfl⟩
  · -- the directory is there
    have hdir : Path.dir path = Path.Normal.render ⟨r, xs⟩ := by
      rw [hpath, Path.Normal.dir_render hproper]
    refine ⟨fs, d, ?_, h.sound.confined_refl s, ⟨left, ?_⟩, ?_, rfl, rfl, rfl⟩
    · rw [hdir]
      exact Files.makeDirs_there hproper.init hfull
    · rw [hdir, hproper.init.normalize_render]
      exact hfull
    · rw [hs, hpath, Path.Normal.base_render hproper]
  · -- the directory is made, from the first missing name on
    rw [List.concat_eq_append] at hpath hproper hnames hs hfree
    have hnone : fs.node? (d ++ [c]) = none := hfree.resolve_left (by simp)
    have hparts : xs ++ c :: (init ++ [e]) = (xs ++ c :: init) ++ [e] := by simp
    have hplace : s = d ++ c :: init ++ [e] := by simp [hs]
    rw [hparts] at hpath hproper
    have hdir : Path.dir path = Path.Normal.render ⟨r, xs ++ c :: init⟩ := by
      rw [hpath, Path.Normal.dir_render hproper]
    have hmake := Files.makeDirs_missing h.sound hfull (hnames c (by simp)).ne_dotdot hnone
      hproper.init
    refine ⟨fs.plantDirs d (c :: init), d ++ c :: init, ?_,
      h.sound.confined_plantDirs hd hnone (hplace ▸ List.prefix_append _ _), ⟨left, ?_⟩, ?_, ?_,
      plantDirs_clock _ _ _, plantDirs_mask _ _ _⟩
    · rw [hdir, hmake]
    · rw [hdir, hproper.init.normalize_render, origin, plantDirs_current]
      exact hfull.plantDirs h.sound hnone fun a ha => hnames a (by simp at ha ⊢; tauto)
    · rw [hplace, hpath, Path.Normal.base_render hproper]
    · rw [hplace, node?_plantDirs_next h.sound hnone, List.append_assoc, List.cons_append,
        ← List.singleton_append, ← List.append_assoc, h.sound.below_none (by simp [hnone]) (by simp)]

end FileSystem

end MetricHistory
