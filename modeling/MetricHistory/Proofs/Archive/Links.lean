import MetricHistory.Proofs.Archive.Confinement

/-!
# Where the links of a tree lead

A tree of directories, files and links is unpacked without a failure, every link to its own place
(`Archive.Unpacked.run`).  A link whose text goes up only at its beginning, and not above the top of
the tree, never leads out, whatever the other links are.

* `Path.staysBelow` : the steps go up only at their beginning, and at most a number of times.
* `Archive.walk_inside` : as long as the other links stay inside, a walk does.
* `Archive.extract_links_iff` : all paths below the destination lead to places below it exactly when
  the remaining links do.
-/

namespace MetricHistory

namespace Path

/-- Read by name, the steps go up only at their beginning, and at most `depth` times. -/
def staysBelow : Nat → List Text → Bool
  | _, [] => true
  | depth, c :: rest =>
    if c = dot then staysBelow depth rest
    else if c = dotdot then depth != 0 && staysBelow (depth - 1) rest
    else !rest.contains dotdot

theorem staysBelow_of_not_mem {xs : List Text} (h : dotdot ∉ xs) (depth : Nat) :
    staysBelow depth xs = true := by
  induction xs with
  | nil => rfl
  | cons c xs ih =>
    rw [List.mem_cons, not_or] at h
    obtain ⟨hc, hxs⟩ := h
    unfold staysBelow
    split
    · exact ih hxs
    · rw [if_neg (Ne.symm hc)]
      simpa using hxs

end Path

namespace Archive

open FileSystem

variable {fs fs' : FileSystem} {dest : Text} {spare links links' : Nat} {root at_ q : Place}
  {e : ArchiveEntry} {xs : List Text}

/-- A walk that gets somewhere gets there with more links to spare. -/
theorem walk_of_le {r : Place × Option FileNode} (h : fs.walk true links at_ xs = .ok r)
    (hle : links ≤ links') : fs.walk true links' at_ xs = .ok r := by
  induction links using Nat.strongRecOn generalizing xs at_ links' with
  | ind links ihl =>
    induction xs generalizing at_ with
    | nil => rw [walk] at h ⊢; exact h
    | cons c xs ih =>
      refine FirstStep.walk_eq ?_
      cases firstStep_of_walk h with
      | stay h => exact .stay (ih h)
      | up h => exact .up (ih h)
      | stop h₁ h₂ hn hrest hdir hlink => exact .stop h₁ h₂ hn hrest hdir hlink
      | down h₁ h₂ hn h => exact .down h₁ h₂ hn (ih h)
      | @link links _ _ _ _ _ h₁ h₂ hn ht hfollow h =>
        obtain ⟨links', rfl⟩ : ∃ k, links' = k + 1 := ⟨links' - 1, by omega⟩
        exact .link h₁ h₂ hn ht hfollow (ihl links (by omega) h (by omega))

/-- A walk stays below the root if its first steps do, and the others do from wherever below the root
they start. -/
theorem prefix_of_walk_append {D ys : List Text} {n : Option FileNode}
    (hfirst : ∀ q n, fs.walk true links (root ++ D) ys = .ok (q, n) → root <+: q)
    (hrest : ∀ left D', left ≤ links → fs.walk true left (root ++ D') xs = .ok (q, n) → root <+: q)
    (h : fs.walk true links (root ++ D) (ys ++ xs) = .ok (q, n)) : root <+: q := by
  cases xs with
  | nil =>
    rw [List.append_nil] at h
    exact hfirst q n h
  | cons c xs =>
    obtain ⟨left, d, h₁, h₂⟩ := reaches_of_walk_ok h
    obtain ⟨D', rfl⟩ := hfirst d _ h₁.walk_eq
    exact hrest left D' h₁.left_le h₂

/-- **A walk from inside the root stays there** when every link below the root goes up only at its
beginning and not above the root, or leads to a place below the root by itself. -/
theorem walk_inside {bound : Nat} {D : List Text} {n : Option FileNode}
    (hlinks : ∀ D s t, fs.node? (root ++ D ++ [s]) = some (.link t) →
      Path.isAbsolute t = false ∧ (Path.staysBelow D.length (steps t) = true ∨
        ∀ links q n, links < bound → fs.walk true links (root ++ D) (steps t) = .ok (q, n) →
          root <+: q))
    (hle : links ≤ bound) (hxs : Path.staysBelow D.length xs = true)
    (h : fs.walk true links (root ++ D) xs = .ok (q, n)) : root <+: q := by
  -- the outer induction is on the links to spare, the inner one on the steps of one text
  induction links using Nat.strongRecOn generalizing xs D q n with
  | ind links ihl =>
    induction xs generalizing D with
    | nil =>
      simp only [walk, Except.ok.injEq, Prod.mk.injEq] at h
      exact h.1 ▸ List.prefix_append _ _
    | cons c xs ih =>
      unfold Path.staysBelow at hxs
      cases firstStep_of_walk h with
      | stay h =>
        rw [if_pos rfl] at hxs
        exact ih hxs h
      | up h =>
        rw [if_neg (by decide), if_pos rfl] at hxs
        simp only [Bool.and_eq_true, bne_iff_ne, ne_eq, List.length_eq_zero_iff] at hxs
        rw [List.dropLast_append_of_ne_nil hxs.1] at h
        exact ih (by rw [List.length_dropLast]; exact hxs.2) h
      | stop =>
        rw [List.append_assoc]
        exact List.prefix_append _ _
      | down hd hdd hn h =>
        rw [if_neg hd, if_neg hdd] at hxs
        rw [List.append_assoc] at h
        exact ih (Path.staysBelow_of_not_mem (by simpa using hxs) _) h
      | @link links _ _ target _ _ hd hdd hn ht _ h =>
        rw [if_neg hd, if_neg hdd] at hxs
        obtain ⟨habs, htarget⟩ := hlinks D c target hn
        rw [if_neg (by simp [habs])] at h
        refine prefix_of_walk_append (fun q n hw => ?_) (fun left D' hleft hw => ?_) h
        · rcases htarget with hbelow | hlead
          · exact ihl links (by omega) (by omega) hbelow hw
          · exact hlead links q n (by omega) hw
        · exact ihl left (by omega) (by omega) (Path.staysBelow_of_not_mem (by simpa using hxs) _) hw

/-! ### Unpacking a tree -/

/-- The names of the path of an entry. -/
def parts (e : ArchiveEntry) : List Text := Path.components e.name

/-- The entries of a tree, in any order: directories, files and links with different paths, none of
them below a file or a link. -/
structure IsTree (es : List ArchiveEntry) : Prop where
  kind : ∀ e ∈ es, e.kind ≠ .special
  named : ∀ e ∈ es, parts e ≠ []
  isName : ∀ e ∈ es, ∀ c ∈ parts e, Path.IsName c
  apart : es.Pairwise fun e e' => parts e ≠ parts e'
  leaf : ∀ e ∈ es, ∀ e' ∈ es, e.kind ≠ .directory → parts e <+: parts e' → parts e = parts e'

/-- The entries `done` have been recreated below the root, each at its own place, and nothing else
is there but the directories around them. -/
structure Unpacked (dest : Text) (spare : Nat) (root : Place) (done : List ArchiveEntry)
    (fs : FileSystem) : Prop where
  sound : fs.Sound
  leads : Leads fs dest spare root
  nodes : ∀ names n, names ≠ [] → fs.node? (root ++ names) = some n →
    ∃ e ∈ done, Asks dest e (parts e) ∧ names <+: parts e ∧
      (n = .dir ∨ (e.kind ≠ .directory ∧ names = parts e ∧ n = node e fs))

variable {done : List ArchiveEntry}

theorem Unpacked.idle (h : Unpacked dest spare root done fs) (e : ArchiveEntry) :
    Unpacked dest spare root (done ++ [e]) fs := by
  refine ⟨h.sound, h.leads, fun names n hne hn => ?_⟩
  obtain ⟨e', he', hrest⟩ := h.nodes names n hne hn
  exact ⟨e', by simp [he'], hrest⟩

/-- Places on a way down that are directories as far as they are there are all there, or there is a
first one that is missing. -/
theorem exists_missing {names : List Text}
    (h : ∀ zs, zs <+: names → fs.node? (root ++ zs) = none ∨ fs.node? (root ++ zs) = some .dir)
    (hroot : fs.node? root = some .dir) :
    (∀ zs, zs <+: names → fs.node? (root ++ zs) = some .dir) ∨
      ∃ xs c ys, names = xs ++ c :: ys ∧ (∀ zs, zs <+: xs → fs.node? (root ++ zs) = some .dir) ∧
        fs.node? (root ++ xs ++ [c]) = none := by
  induction names using List.reverseRecOn with
  | nil =>
    refine .inl fun zs hz => ?_
    rw [List.prefix_nil.1 hz, List.append_nil]
    exact hroot
  | append_singleton names c ih =>
    rcases ih fun zs hz => h zs (hz.trans (List.prefix_append _ _)) with
      hall | ⟨xs, c', ys, rfl, hxs, hnone⟩
    · rcases h (names ++ [c]) (List.prefix_refl _) with hnone | hdir
      · exact .inr ⟨names, c, [], rfl, hall, by rwa [List.append_assoc]⟩
      · refine .inl fun zs hz => ?_
        rcases List.prefix_concat_iff.1 hz with rfl | hz
        · exact hdir
        · exact hall zs hz
    · exact .inr ⟨xs, c', ys ++ [c], by simp, hxs, hnone⟩

theorem reaches_of_dirs {names : List Text} (hn : ∀ c ∈ names, Path.IsName c)
    (h : ∀ zs, zs <+: names → fs.node? (root ++ zs) = some .dir) :
    Reaches fs spare root names spare (root ++ names) :=
  reaches_names hn fun zs _ hz _ => h zs (hz ▸ List.prefix_append _ _)

theorem reaches_of_node? {names : List Text} {c : Text} {n : FileNode} (hs : fs.Sound)
    (hnames : ∀ x ∈ names, Path.IsName x) (hn : fs.node? (root ++ (names ++ [c])) = some n) :
    Reaches fs spare root names spare (root ++ names) := by
  refine reaches_of_dirs hnames fun zs hz => ?_
  obtain ⟨ws, rfl⟩ := hz
  rw [List.append_assoc, ← List.append_assoc] at hn
  exact hs.dir_of_below hn (by simp)

/-- An entry that is planted at its own place. -/
theorem Unpacked.plant (h : Unpacked dest spare root done fs) {c : Text} {ys : List Text}
    (hparts : parts e = xs ++ c :: ys) (ha : Asks dest e (parts e))
    (hd : fs.node? (root ++ xs) = some .dir) (hnone : fs.node? (root ++ xs ++ [c]) = none) :
    Unpacked dest spare root (done ++ [e]) (fs.plant (root ++ xs) (c :: ys) (node e fs)) := by
  have hkeep : fs.Keeps (fs.plant (root ++ xs) (c :: ys) (node e fs)) :=
    .of_node? fun p n hp => node?_plant_of_some h.sound hnone hp
  refine ⟨h.sound.plant hd hnone, h.leads.mono hkeep (by simp), fun names n hne hn => ?_⟩
  simp only [node_congr (plant_clock _) (plant_mask _)]
  rcases node?_plant_cases (by simp) hn with ⟨hp, rfl⟩ | ⟨rfl, zs, ws, hz, -, -, hp⟩ | hold
  · rw [List.append_assoc, List.append_cancel_left_eq] at hp
    have hpe : names = parts e := hp.trans hparts.symm
    refine ⟨e, by simp, ha, hpe ▸ List.prefix_refl _, ?_⟩
    by_cases hk : e.kind = .directory
    · exact .inl (by simp only [node, hk])
    · exact .inr ⟨hk, hpe, rfl⟩
  · rw [List.append_assoc, List.append_cancel_left_eq] at hp
    refine ⟨e, by simp, ha, ⟨ws, ?_⟩, .inl rfl⟩
    rw [hp, hparts, hz, List.append_assoc]
  · obtain ⟨e', he', hrest⟩ := h.nodes names n hne hold
    exact ⟨e', by simp [he'], hrest⟩

/-- The entry is not left out: if it is a link, it does not lead out. -/
def Kept (dest : Text) (e : ArchiveEntry) : Prop :=
  e.kind = .symlink → Path.linkInside dest e.name e.link = true

/-- Entries have been recreated below the root: those that are not left out are at their places, and
nothing that was there has changed. -/
structure Placed (dest : Text) (root : Place) (es : List ArchiveEntry) (fs fs' : FileSystem) :
    Prop where
  kept : ∀ {q : Place} {n : FileNode}, fs.node? q = some n → fs'.node? q = some n
  outside : ∀ {q : Place}, ¬ root <+: q → fs'.node? q = fs.node? q
  current : fs'.current = fs.current
  clock : fs'.clock = fs.clock
  mask : fs'.mask = fs.mask
  entries : ∀ e ∈ es, Kept dest e → fs'.node? (root ++ parts e) = some (node e fs)

theorem placed_idle {es : List ArchiveEntry}
    (h : ∀ e ∈ es, Kept dest e → fs.node? (root ++ parts e) = some (node e fs)) :
    Placed dest root es fs fs :=
  ⟨id, fun _ => rfl, rfl, rfl, rfl, h⟩

theorem Placed.node_eq {es : List ArchiveEntry} (h : Placed dest root es fs fs') (e : ArchiveEntry) :
    node e fs' = node e fs :=
  node_congr h.clock h.mask e

theorem Placed.trans {es es' : List ArchiveEntry} {fs'' : FileSystem}
    (h : Placed dest root es fs fs') (h' : Placed dest root es' fs' fs'') :
    Placed dest root (es ++ es') fs fs'' where
  kept hq := h'.kept (h.kept hq)
  outside hq := (h'.outside hq).trans (h.outside hq)
  current := h'.current.trans h.current
  clock := h'.clock.trans h.clock
  mask := h'.mask.trans h.mask
  entries e he hk := by
    rcases List.mem_append.1 he with he | he
    · exact h'.kept (h.entries e he hk)
    · rw [h'.entries e he hk, h.node_eq]

theorem placed_plant {c : Text} {ys : List Text} (hs : fs.Sound) (hparts : parts e = xs ++ c :: ys)
    (hnone : fs.node? (root ++ xs ++ [c]) = none) :
    Placed dest root [e] fs (fs.plant (root ++ xs) (c :: ys) (node e fs)) where
  kept hq := node?_plant_of_some hs hnone hq
  outside {q} hq := by
    refine node?_plant_other fun hp => hq ?_
    rw [List.append_assoc] at hp
    exact (List.prefix_append _ _).trans hp
  current := by simp
  clock := by simp
  mask := by simp
  entries e' he' _ := by
    rw [List.mem_singleton.1 he', hparts, ← List.append_assoc]
    exact node?_plant_self (by simp)

/-- The next entry of a tree is recreated at its place. -/
theorem Unpacked.step {rest : List ArchiveEntry} (h : Unpacked dest spare root done fs)
    (ht : IsTree (done ++ e :: rest)) :
    ∃ fs', (extractEntry dest e).run fs = (.ok (), fs') ∧
      Unpacked dest spare root (done ++ [e]) fs' ∧ Placed dest root [e] fs fs' := by
  have he : e ∈ done ++ e :: rest := by simp
  have hnew : ∀ e' ∈ done, parts e' ≠ parts e := fun e' he' =>
    (List.pairwise_append.1 ht.apart).2.2 e' he' e (by simp)
  have hmem : ∀ e' ∈ done, e' ∈ done ++ e :: rest := fun e' he' => by simp [he']
  have hjoin := Path.safeJoin?_of_names h.leads.named (ht.isName e he)
  by_cases hout : e.kind = .symlink ∧ Path.linkInside dest e.name e.link = false
  · exact ⟨fs, extractEntry_leftOut hout.1 hjoin hout.2, h.idle e,
      placed_idle (by simp [Kept, hout.1, hout.2])⟩
  have ha : Asks dest e (parts e) :=
    ⟨hjoin, ht.isName e he, ht.kind e he, fun hk => by simpa [hk] using hout⟩
  have hroot := h.leads.dir h.sound
  -- whatever is on the way to the place of the entry is a directory
  have hway : ∀ zs, zs <+: parts e →
      fs.node? (root ++ zs) = none ∨ fs.node? (root ++ zs) = some .dir := by
    intro zs hz
    by_cases hnil : zs = []
    · rw [hnil, List.append_nil]
      exact .inr hroot
    cases hn : fs.node? (root ++ zs) with
    | none => exact .inl rfl
    | some n =>
      obtain ⟨e', he', -, -, rfl | ⟨hk, rfl, -⟩⟩ := h.nodes zs n hnil hn
      · exact .inr rfl
      · exact absurd (ht.leaf e' (hmem e' he') e he hk hz) (hnew e' he')
  rcases exists_missing hway hroot with hall | ⟨xs, c, ys, hparts, hxs, hnone⟩
  · -- only a directory can be there already
    have hk : e.kind = .directory := by
      by_contra hk
      obtain ⟨e', he', -, hpre, -⟩ := h.nodes (parts e) .dir (ht.named e he)
        (hall _ (List.prefix_refl _))
      exact hnew e' he' (ht.leaf e he e' (hmem e' he') hk hpre).symm
    have hreach := h.leads.reaches.trans (reaches_of_dirs ha.isName hall)
    have hrun := Files.makeDirs_there (Path.proper_below dest ha.isName) hreach
    have hthere : fs.node? (root ++ parts e) = some (node e fs) := by
      rw [hall _ (List.prefix_refl _), node, hk]
    refine ⟨fs, ?_, h.idle e, placed_idle (by simpa using fun _ => hthere)⟩
    rw [extractEntry_asks ha, FileTask.ofFiles_run]
    simp only [recreate, hk]
    rw [Path.below, hrun]
  · have hd := hxs xs (List.prefix_refl _)
    have hnx : ∀ a ∈ xs, Path.IsName a := fun a hax => ha.isName a (by rw [hparts]; simp [hax])
    refine ⟨_, ?_, h.plant hparts ha hd hnone, placed_plant h.sound hparts hnone⟩
    exact extractEntry_plant h.sound h.leads (hparts ▸ ha) (reaches_of_dirs hnx hxs) hnone

/-- A tree is unpacked without a failure, and its entries are at their places. -/
theorem Unpacked.run_placed {es : List ArchiveEntry} (h : Unpacked dest spare root done fs)
    (ht : IsTree (done ++ es)) :
    ∃ fs', (extract dest es).run fs = (.ok (), fs') ∧
      Unpacked dest spare root (done ++ es) fs' ∧ Placed dest root es fs fs' := by
  induction es generalizing done fs with
  | nil => exact ⟨fs, rfl, by rwa [List.append_nil], placed_idle (by simp)⟩
  | cons e es ih =>
    obtain ⟨fs₁, hr, h₁, hp₁⟩ := h.step ht
    obtain ⟨fs₂, hrun, h₂, hp₂⟩ := ih h₁ (by simpa using ht)
    refine ⟨fs₂, ?_, by simpa using h₂, hp₁.trans hp₂⟩
    rw [extract_cons, hr]
    exact hrun

/-- A tree is unpacked without a failure. -/
theorem Unpacked.run {es : List ArchiveEntry} (h : Unpacked dest spare root done fs)
    (ht : IsTree (done ++ es)) :
    ∃ fs', (extract dest es).run fs = (.ok (), fs') ∧
      Unpacked dest spare root (done ++ es) fs' := by
  obtain ⟨fs', hrun, hunpacked, -⟩ := h.run_placed ht
  exact ⟨fs', hrun, hunpacked⟩

/-! ### Links -/

theorem Vacant.unpacked (h : Vacant fs dest root) : ∃ spare, Unpacked dest spare root [] fs := by
  obtain ⟨spare, hu⟩ := h.underway
  refine ⟨spare, hu.sound, hu.leads, fun names n hne hn => ?_⟩
  rw [h.empty _ (List.prefix_append _ _) (by simpa using hne)] at hn
  simp at hn

theorem node_eq_link {t : Text} (h : node e fs = .link t) :
    e.kind = .symlink ∧ e.link = t := by
  unfold node at h
  split at h
  · simp at h
  · rename_i hk
    exact ⟨hk, FileNode.link.inj h⟩
  · simp at h

theorem Unpacked.exists_entry (h : Unpacked dest spare root done fs) {D : List Text} {s t : Text}
    (hn : fs.node? (root ++ D ++ [s]) = some (.link t)) :
    ∃ e ∈ done, Asks dest e (D ++ [s]) ∧ parts e = D ++ [s] ∧ e.kind = .symlink ∧ e.link = t := by
  rw [List.append_assoc] at hn
  obtain ⟨e, he, ha, -, hdir | ⟨-, hparts, hnode⟩⟩ := h.nodes (D ++ [s]) _ (by simp) hn
  · simp at hdir
  · exact ⟨e, he, hparts ▸ ha, hparts.symm, node_eq_link hnode.symm⟩

/-- Following the path of a link leads where its text leads from its directory. -/
theorem Unpacked.locate_link (h : Unpacked dest spare root done fs) {D : List Text} {s t : Text}
    (hn : fs.node? (root ++ D ++ [s]) = some (.link t)) (hnames : ∀ c ∈ D ++ [s], Path.IsName c)
    (ht : t ≠ []) (habs : Path.isAbsolute t = false) {n : Option FileNode} (hle : links < spare)
    (hw : fs.walk true links (root ++ D) (steps t) = .ok (q, n)) :
    fs.locate true (Path.below dest (D ++ [s])) = .ok (q, n) := by
  have hreach : Reaches fs spare root D spare (root ++ D) :=
    reaches_of_node? h.sound (fun c hc => hnames c (by simp [hc])) (by rwa [← List.append_assoc])
  have hs := hnames s (by simp)
  obtain ⟨more, rfl⟩ : ∃ more, spare = more + 1 := ⟨spare - 1, by omega⟩
  rw [h.leads.locate_below hnames (.inl rfl), hreach.walk_append (.inl rfl),
    walk_name hs.ne_dot hs.ne_dotdot, hn]
  simp only [Bool.not_true, Bool.false_eq_true, if_false, List.isEmpty_iff, ht, habs]
  exact walk_of_le hw (by omega)

/-- The link of the entry, read by name, goes up only at the beginning of its text, and not above
the top of the tree. -/
def Straight (e : ArchiveEntry) : Prop :=
  Path.staysBelow ((parts e).length - 1) (steps e.link) = true

/-- **A tree is unpacked into an empty directory without a failure, and then every path below the
directory leads to a place below it exactly when every link does that goes up above the top of the
tree or after a name.** -/
theorem extract_links_iff {es : List ArchiveEntry} (hv : Vacant fs dest root) (ht : IsTree es) :
    ∃ fs', (extract dest es).run fs = (.ok (), fs') ∧
      ((∀ names q n, (∀ c ∈ names, Path.IsName c) →
          fs'.locate true (Path.below dest names) = .ok (q, n) → root <+: q) ↔
        ∀ e ∈ es, e.kind = .symlink → Path.linkInside dest e.name e.link = true → ¬ Straight e →
          ∀ q n, fs'.locate true (Path.below dest (parts e)) = .ok (q, n) → root <+: q) := by
  obtain ⟨spare, hu⟩ := hv.unpacked
  obtain ⟨fs', hrun, h⟩ := hu.run (show IsTree ([] ++ es) from ht)
  rw [List.nil_append] at h
  refine ⟨fs', hrun, ?_, ?_⟩
  · intro hall e he _ _ _ q n hw
    exact hall (parts e) q n (ht.isName e he) hw
  · intro hlinks names q n hnames hw
    rw [h.leads.locate_below hnames (.inl rfl), ← List.append_nil root] at hw
    have hbelow : Path.staysBelow ([] : List Text).length names = true :=
      Path.staysBelow_of_not_mem (fun hmem => (hnames _ hmem).ne_dotdot rfl) _
    refine walk_inside ?_ (Nat.le_refl spare) hbelow hw
    intro D s t hn
    obtain ⟨e, he, ha, hparts, hkind, rfl⟩ := h.exists_entry hn
    have hin := ha.inside hkind
    have hguard : e.link ≠ [] ∧ Path.isAbsolute e.link = false := by
      unfold Path.linkInside at hin
      simp only [Bool.and_eq_true, Bool.not_eq_true', List.isEmpty_eq_false_iff] at hin
      exact hin.1
    refine ⟨hguard.2, ?_⟩
    by_cases hstraight : Straight e
    · refine .inl ?_
      rw [Straight, hparts] at hstraight
      simpa using hstraight
    · refine .inr fun links q n hlt hw => ?_
      have hloc := h.locate_link hn ha.isName hguard.1 hguard.2 hlt hw
      exact hlinks e he hkind hin hstraight q n (hparts ▸ hloc)

/-- Two links.  The text of the second goes up after a name, which is the first link. -/
def crossing : List ArchiveEntry :=
  [{ kind := .symlink, name := "a", link := "." },
    { kind := .symlink, name := "b", link := "a/.." }]

theorem isTree_crossing : IsTree crossing :=
  ⟨by decide, by decide, by decide, by decide, by decide⟩

theorem extract_links_iff_crossing :
    Vacant bareDisk "/d" [Text.ofString "d"] ∧ IsTree crossing ∧
      ∃ fs', (extract "/d" crossing).run bareDisk = (.ok (), fs') ∧
        ((∀ names q n, (∀ c ∈ names, Path.IsName c) →
            fs'.locate true (Path.below "/d" names) = .ok (q, n) → [Text.ofString "d"] <+: q) ↔
          ∀ e ∈ crossing, e.kind = .symlink → Path.linkInside "/d" e.name e.link = true →
            ¬ Straight e → ∀ q n,
              fs'.locate true (Path.below "/d" (parts e)) = .ok (q, n) → [Text.ofString "d"] <+: q) :=
  ⟨vacant_bareDisk, isTree_crossing, extract_links_iff vacant_bareDisk isTree_crossing⟩

/-- The second link leads to the directory around the destination. -/
theorem locate_crossing_outside :
    Vacant bareDisk "/d" [Text.ofString "d"] ∧ IsTree crossing ∧
      ¬ ∀ names q n, (∀ c ∈ names, Path.IsName c) →
        ((extract "/d" crossing).run bareDisk).2.locate true (Path.below "/d" names) = .ok (q, n) →
          [Text.ofString "d"] <+: q := by
  refine ⟨vacant_bareDisk, isTree_crossing, fun h => ?_⟩
  have hloc : ((extract "/d" crossing).run bareDisk).2.locate true
      (Path.below "/d" [Text.ofString "b"]) = .ok ([], some .dir) := by cbv
  exact absurd (h _ _ _ (by decide) hloc) (by decide)

end Archive

end MetricHistory
