import MetricHistory.Proofs.FileSystem.Directories

/-!
# Putting things below directories

`FileSystem.plant` puts a node with the directories on the way to it where nothing was.  It is
what writing a file or making a link amounts to after the missing directories above it have been
made (`Files.makeDirs_dir_missing`).
-/

namespace MetricHistory

namespace FileSystem

variable {fs : FileSystem} {links left : Nat} {at_ d : Place} {c : Text} {ys : List Text}
  {n : FileNode}

/-- Puts a node with the directories on the way down to it. -/
def plant (fs : FileSystem) (d : Place) (names : List Text) (n : FileNode) : FileSystem :=
  (fs.plantDirs d names.dropLast).put (d ++ names) n

@[simp] theorem plant_current (names : List Text) : (fs.plant d names n).current = fs.current :=
  plantDirs_current fs d names.dropLast

@[simp] theorem plant_clock (names : List Text) : (fs.plant d names n).clock = fs.clock :=
  plantDirs_clock fs d names.dropLast

@[simp] theorem plant_mask (names : List Text) : (fs.plant d names n).mask = fs.mask :=
  plantDirs_mask fs d names.dropLast

theorem plant_dir {names : List Text} (h : names ≠ []) :
    fs.plant d names .dir = fs.plantDirs d names := by
  rcases List.eq_nil_or_concat names with rfl | ⟨init, e, rfl⟩
  · exact absurd rfl h
  · rw [plant, List.concat_eq_append, List.dropLast_concat, plantDirs_concat, List.append_assoc]

theorem node?_plant_self {names : List Text} (h : names ≠ []) :
    (fs.plant d names n).node? (d ++ names) = some n := by
  rw [plant, node?_put (by simp [h]), if_pos rfl]

theorem node?_plant_first : (fs.plant d (c :: ys) n).node? (d ++ [c]) ≠ none := by
  by_cases hys : ys = []
  · subst hys
    rw [node?_plant_self (by simp)]
    simp
  · have hdrop : (c :: ys).dropLast = [c] ++ ys.dropLast := by
      rw [List.dropLast_cons_of_ne_nil hys]
      rfl
    rw [plant, node?_put (by simp), if_neg, hdrop, node?_plantDirs_of (by simp)]
    · simp
    · intro heq
      exact hys (by simpa using heq)

/-- Every node after planting is the new one, a directory above it, or an old one. -/
theorem node?_plant_cases {names : List Text} (h : names ≠ []) {p : Place} {m : FileNode}
    (hp : (fs.plant d names n).node? p = some m) :
    (p = d ++ names ∧ m = n) ∨
      (m = .dir ∧ ∃ zs ws, names = zs ++ ws ∧ zs ≠ [] ∧ ws ≠ [] ∧ p = d ++ zs) ∨
        fs.node? p = some m := by
  rw [plant, node?_put (by simp [h])] at hp
  split at hp
  · rename_i heq
    exact .inl ⟨heq, (Option.some.inj hp).symm⟩
  · by_cases hon : ∃ zs ws, names.dropLast = zs ++ ws ∧ zs ≠ [] ∧ p = d ++ zs
    · obtain ⟨zs, ws, hz, hzs, rfl⟩ := hon
      rw [hz, node?_plantDirs_of hzs] at hp
      refine .inr (.inl ⟨(Option.some.inj hp).symm, zs, ws ++ [names.getLast h], ?_, hzs, by simp, rfl⟩)
      rw [← List.append_assoc, ← hz, List.dropLast_concat_getLast]
    · rw [node?_plantDirs_other] at hp
      · exact .inr (.inr hp)
      · intro zs ws hz hzs heq
        exact hon ⟨zs, ws, hz, hzs, heq⟩

theorem node?_plant_other {p : Place} (h : ¬ (d ++ [c]) <+: p) :
    (fs.plant d (c :: ys) n).node? p = fs.node? p := by
  have hne : ∀ zs ws, c :: ys = zs ++ ws → zs ≠ [] → p ≠ d ++ zs := by
    rintro zs ws hz hzs rfl
    cases zs with
    | nil => exact hzs rfl
    | cons z zs =>
      rw [List.cons_append, List.cons.injEq] at hz
      exact h ⟨zs, by simp [hz.1]⟩
  rw [plant, node?_put (by simp), if_neg (hne (c :: ys) [] (by simp) (by simp)),
    node?_plantDirs_other]
  intro zs ws hz hzs
  refine hne zs (ws ++ [(c :: ys).getLast (by simp)]) ?_ hzs
  rw [← List.append_assoc, ← hz, List.dropLast_concat_getLast]

theorem node?_plant_of_some (hs : fs.Sound) (h : fs.node? (d ++ [c]) = none) {p : Place}
    {m : FileNode} (hp : fs.node? p = some m) : (fs.plant d (c :: ys) n).node? p = some m := by
  rw [node?_plant_other, hp]
  rintro ⟨zs, rfl⟩
  rw [List.append_assoc, List.singleton_append, hs.node?_eq_none h] at hp
  simp at hp

theorem Sound.plant (hs : fs.Sound) (hd : fs.node? d = some .dir)
    (h : fs.node? (d ++ [c]) = none) : (fs.plant d (c :: ys) n).Sound := by
  rcases List.eq_nil_or_concat ys with rfl | ⟨init, e, rfl⟩
  · exact hs.put hd (by rw [h]; simp) n
  · rw [List.concat_eq_append, ← List.cons_append, FileSystem.plant, List.dropLast_concat,
      ← List.append_assoc]
    refine (hs.plantDirs hd h init).put (node?_plantDirs_last (by simp)) ?_ n
    rw [node?_plantDirs_next hs h]
    simp

end FileSystem

namespace Files

open FileSystem

theorem write_run (path content : Text) (mode : Nat) (fs : FileSystem) :
    (write path content mode).run fs =
      match fs.locate true path with
      | .ok (place, none) => (.ok (), fs.put place (.file (fs.granted mode) content fs.clock))
      | .ok (place, some (.file old _ _)) => (.ok (), fs.put place (.file old content fs.clock))
      | .ok (_, some _) => (.error ⟨"open", [path], .isDirectory⟩, fs)
      | .error e => (.error ⟨"open", [path], e⟩, fs) := by
  have hl : (locate "open" true path).run fs =
      ((fs.locate true path).mapError (⟨"open", [path], ·⟩), fs) := by
    rw [locate, run_get_bind]
    rcases fs.locate true path with e | found <;> rfl
  rw [write, run_get_bind, run_bind, hl]
  rcases fs.locate true path with e | ⟨p, _ | _ | _ | _⟩ <;> rfl

theorem symlink_run (target path : Text) (fs : FileSystem) :
    (symlink target path).run fs =
      match fs.locate false path with
      | .error e => (.error ⟨"symlink", [target, path], e⟩, fs)
      | .ok (_, some _) => (.error ⟨"symlink", [target, path], .exists⟩, fs)
      | .ok (place, none) => (.ok (), fs.put place (.link target)) := by
  rw [symlink, run_get_bind]
  rcases fs.locate false path with e | ⟨p, _ | _⟩ <;> rfl

variable {fs : FileSystem} {xs ys : List Text} {c : Text} {left : Nat} {d : Place} {r : Bool}

/-- Once the missing directories above it are made, a path leads to a free place. -/
theorem makeDirs_dir_missing (hs : fs.Sound)
    (hx : Reaches fs linkLimit (fs.origin r) xs left d)
    (hnone : fs.node? (d ++ [c]) = none) (hn : Path.Normal.Proper ⟨r, xs ++ c :: ys⟩)
    (hc : c ≠ Path.dotdot) :
    (makeDirs (Path.dir (Path.Normal.render ⟨r, xs ++ c :: ys⟩))).run fs =
        (.ok (), fs.plantDirs d (c :: ys).dropLast) ∧
      ∀ follow, (fs.plantDirs d (c :: ys).dropLast).locate follow
        (Path.Normal.render ⟨r, xs ++ c :: ys⟩) = .ok (d ++ c :: ys, none) := by
  have hnames : ∀ a ∈ c :: ys, Path.IsName a := by
    intro a ha
    rcases List.mem_cons.1 ha with rfl | ha
    · exact hn.part (by simp) hc
    · exact hn.names_after rfl hc a ha
  rcases List.eq_nil_or_concat ys with rfl | ⟨init, e, rfl⟩
  · refine ⟨?_, fun follow => ?_⟩
    · rw [Path.Normal.dir_render hn]
      exact makeDirs_there hn.init hx
    · have hcn := hnames c (by simp)
      rw [locate_render hn]
      change fs.walk follow linkLimit (fs.origin r) (xs ++ [c]) = _
      rw [hx.walk_append (.inr (by simp)), walk_name hcn.ne_dot hcn.ne_dotdot, hnone]
  · rw [List.concat_eq_append] at hn hnames ⊢
    have hparts : xs ++ c :: (init ++ [e]) = (xs ++ c :: init) ++ [e] := by simp
    rw [hparts] at hn ⊢
    rw [← List.cons_append, List.dropLast_concat]
    refine ⟨?_, fun follow => ?_⟩
    · rw [Path.Normal.dir_render hn]
      exact makeDirs_missing hs hx hc hnone hn.init
    · have he := hnames e (by simp)
      -- the directories are there now, and the last name is free in them
      have hreach := hx.plantDirs hs hnone fun a ha => hnames a (by simp at ha ⊢; tauto)
      have horigin : (fs.plantDirs d (c :: init)).origin r = fs.origin r := by
        simp only [origin, plantDirs_current]
      rw [locate_render hn, horigin]
      simp only
      rw [hreach.walk_append (.inr (by simp)), walk_name he.ne_dot he.ne_dotdot,
        node?_plantDirs_next hs hnone]
      simp

end Files

end MetricHistory
