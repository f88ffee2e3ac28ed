import MetricHistory.Proofs.Archive.Effect

/-!
# Where an archive is written

The checks on names and link texts are lexical, while what is written goes through the links that
earlier entries of the same archive have left on disk.

* `Archive.Change` keeps directories and links, so the destination stays where it is.
* `Archive.Lands.leadsOut` : an entry gets out of the destination only through a link in it.
* `Archive.extract_confined_iff` : an archive is written below the destination exactly when no
  entry goes out through a link of an earlier one.
-/

namespace MetricHistory

namespace Archive

open FileSystem

variable {fs fs' : FileSystem} {dest : Text} {spare : Nat} {root p q : Place} {e : ArchiveEntry}
  {names : List Text}

/-! ### What a change leaves alone -/

namespace Change

theorem clock (h : Change fs e q fs') : fs'.clock = fs.clock := by
  cases h with
  | plant => exact plant_clock _
  | overwrite => rfl

theorem current (h : Change fs e q fs') : fs'.current = fs.current := by
  cases h with
  | plant => exact plant_current _
  | overwrite => rfl

theorem node?_other (h : Change fs e q fs') (hp : ¬ q <+: p) : fs'.node? p = fs.node? p := by
  cases h with
  | plant ys hq hd hnone => exact node?_plant_other (hq ▸ hp)
  | overwrite mode hkind hq =>
    rw [node?_put (by simp [hq]), if_neg]
    rintro rfl
    exact hp (List.prefix_refl _)

theorem node?_of_some (h : Change fs e q fs') (hs : fs.Sound) {n : FileNode}
    (hp : fs.node? p = some n) :
    fs'.node? p = some n ∨
      ∃ a b t mode content, n = .file a b t ∧ fs'.node? p = some (.file mode content fs.clock) := by
  cases h with
  | plant ys hq hd hnone => exact .inl (node?_plant_of_some hs hnone hp)
  | overwrite mode hkind hq hd hold =>
    rw [node?_put (by simp [hq])]
    by_cases hpq : p = q
    · subst hpq
      rw [hp] at hold
      rcases hold with hnone | ⟨a, b, t, hfile⟩
      · simp at hnone
      · rw [Option.some.injEq] at hfile
        exact .inr ⟨a, b, t, mode, e.content, hfile, if_pos rfl⟩
    · exact .inl (by rw [if_neg hpq, hp])

theorem keeps (h : Change fs e q fs') (hs : fs.Sound) : fs.Keeps fs' := by
  constructor
  · intro p hp
    rcases h.node?_of_some hs hp with h | ⟨a, b, t, mode, content, hfile, -⟩
    · exact h
    · simp at hfile
  · intro p t hp
    rcases h.node?_of_some hs hp with h | ⟨a, b, t, mode, content, hfile, -⟩
    · exact h
    · simp at hfile

theorem sound (h : Change fs e q fs') (hs : fs.Sound) : fs'.Sound := by
  cases h with
  | plant ys hq hd hnone => exact hs.plant hd hnone
  | overwrite mode hkind hq hd hold =>
    subst hq
    refine hs.put hd ?_ _
    rcases hold with hnone | ⟨a, b, t, hfile⟩
    · rw [hnone]
      simp
    · rw [hfile]
      simp

theorem node?_self (h : Change fs e q fs') :
    (fs.node? q = none ∧ fs'.node? q ≠ none) ∨
      ∃ mode content, fs'.node? q = some (.file mode content fs.clock) := by
  cases h with
  | @plant d c ys hq hd hnone =>
    subst hq
    exact .inl ⟨hnone, node?_plant_first⟩
  | overwrite mode hkind hq => exact .inr ⟨mode, e.content, by rw [node?_put (by simp [hq])]; simp⟩

theorem link (h : Change fs e q fs') {t : Text} (hp : fs'.node? p = some (.link t)) :
    fs.node? p = some (.link t) ∨ (e.kind = .symlink ∧ e.link = t) := by
  cases h with
  | plant ys hq hd hnone =>
    rcases node?_plant_cases (by simp) hp with ⟨-, hn⟩ | ⟨hdir, -⟩ | hold
    · unfold node at hn
      split at hn
      · simp at hn
      · rename_i hk
        exact .inr ⟨hk, (FileNode.link.inj hn).symm⟩
      · simp at hn
    · simp at hdir
    · exact .inl hold
  | overwrite mode hkind hq =>
    rw [node?_put (by simp [hq])] at hp
    split at hp
    · simp at hp
    · exact .inl hp

end Change

theorem Leads.mono (h : Leads fs dest spare root) (hk : fs.Keeps fs')
    (hc : fs'.current = fs.current) : Leads fs' dest spare root := by
  refine ⟨h.named, ?_⟩
  rw [origin, hc]
  exact h.reaches.mono hk

/-! ### The way out -/

/-- A leading part of the path is a link in the destination, left there by an earlier entry, that
leads out of the destination. -/
def LeadsOut (fs : FileSystem) (dest : Text) (root : Place) (earlier : List ArchiveEntry)
    (names : List Text) : Prop :=
  ∃ zs s d text q n, zs ++ [s] <+: names ∧ fs.find true (Path.below dest zs) = .ok (d, .dir) ∧
    root <+: d ∧ fs.node? (d ++ [s]) = some (.link text) ∧
    (∃ e ∈ earlier, e.kind = .symlink ∧ e.link = text ∧
      Path.linkInside dest e.name text = true) ∧
    fs.locate true (Path.below dest (zs ++ [s])) = .ok (q, n) ∧ ¬ root <+: q

/-- Recreating the entry changes a place outside the destination, through a link of an earlier
entry. -/
def Escapes (fs : FileSystem) (dest : Text) (root : Place) (earlier : List ArchiveEntry)
    (e : ArchiveEntry) : Prop :=
  ∃ names q, Asks dest e names ∧ Lands fs dest e names q ∧ ¬ root <+: q ∧
    LeadsOut fs dest root earlier names

/-- Every link below the destination is that of an entry. -/
def LinksFrom (fs : FileSystem) (dest : Text) (root : Place) (entries : List ArchiveEntry) : Prop :=
  ∀ p text, root <+: p → fs.node? p = some (.link text) →
    ∃ e ∈ entries, e.kind = .symlink ∧ e.link = text ∧ Path.linkInside dest e.name text = true

/-- Names that get out of a directory go through a link in it. -/
theorem exists_link_of_reaches {xs : List Text} {left : Nat} {d : Place}
    (h : Reaches fs spare root xs left d) (hn : ∀ c ∈ xs, Path.IsName c) (hout : ¬ root <+: d) :
    ∃ zs s l a text l' q, zs ++ [s] <+: xs ∧ Reaches fs spare root zs l a ∧ root <+: a ∧
      fs.node? (a ++ [s]) = some (.link text) ∧ Reaches fs spare root (zs ++ [s]) l' q ∧
      ¬ root <+: q := by
  induction xs using List.reverseRecOn generalizing left d with
  | nil =>
    cases h
    exact absurd (List.prefix_refl _) hout
  | append_singleton xs s ih =>
    obtain ⟨l, a, h₁, h₂⟩ := h.split
    by_cases ha : root <+: a
    · have hs := hn s (by simp)
      cases h₂ with
      | stay => exact absurd rfl hs.ne_dot
      | up => exact absurd rfl hs.ne_dotdot
      | down _ _ _ h₂ =>
        -- a directory in `a` is still below the root
        cases h₂
        exact absurd (ha.trans (List.prefix_append _ _)) hout
      | follow _ _ hlink =>
        exact ⟨xs, s, _, a, _, left, d, List.prefix_refl _, h₁, ha, hlink, h, hout⟩
    · obtain ⟨zs, s', l', a', text, l'', q, hz, hrest⟩ :=
        ih h₁ (fun c hc => hn c (by simp [hc])) ha
      exact ⟨zs, s', l', a', text, l'', q, hz.trans (List.prefix_append _ _), hrest⟩

/-- An entry gets out of the destination only through a link in it. -/
theorem Lands.leadsOut {earlier : List ArchiveEntry} (h : Lands fs dest e names q)
    (hl : Leads fs dest spare root) (hn : ∀ c ∈ names, Path.IsName c) (hout : ¬ root <+: q)
    (hfrom : LinksFrom fs dest root earlier) : LeadsOut fs dest root earlier names := by
  have found : ∀ {zs l a}, zs <+: names → Reaches fs spare root zs l a →
      fs.find true (Path.below dest zs) = .ok (a, .dir) := by
    intro zs l a hz hr
    rw [FileSystem.find, hl.locate_below (fun c hc => hn c (hz.subset hc)) (.inl rfl), hr.walk_eq]
  -- a way to a directory outside passes a link inside
  have through : ∀ {xs left d}, xs <+: names → Reaches fs spare root xs left d → ¬ root <+: d →
      LeadsOut fs dest root earlier names := by
    intro xs left d hx hr hd
    obtain ⟨zs, s, l, a, text, l', q', hz, h₁, ha, hlink, h₂, hq⟩ :=
      exists_link_of_reaches hr (fun c hc => hn c (hx.subset hc)) hd
    have hzn := hz.trans hx
    refine ⟨zs, s, a, text, q', some .dir, hzn,
      found ((List.prefix_append _ _).trans hzn) h₁, ha, hlink,
      hfrom _ _ (ha.trans (List.prefix_append _ _)) hlink, ?_, hq⟩
    rw [hl.locate_below (fun c hc => hn c (hzn.subset hc)) (.inl rfl), h₂.walk_eq]
  rcases h with ⟨zs, hz, hw⟩ | ⟨hkind, old, hw, hold⟩
  · obtain ⟨init, c, l, d, rfl, hx, -, rfl⟩ :=
      hl.locate_none (fun c hc => hn c (hz.subset hc)) hw
    exact through ((List.prefix_append _ _).trans hz) hx fun hd =>
      hout (hd.trans (List.prefix_append _ _))
  · -- the file or directory that is written to is there already
    have hpath := hw
    rw [hl.locate_below hn (.inl rfl)] at hw
    rcases List.eq_nil_or_concat names with rfl | ⟨init, c, rfl⟩
    · simp only [walk, Except.ok.injEq, Prod.mk.injEq] at hw
      exact absurd hw.2.symm hold
    rw [List.concat_eq_append] at *
    obtain ⟨l, d, h₁, h₂⟩ := reaches_of_walk_ok hw
    by_cases hd : root <+: d
    · -- the last name is the link
      have hc := hn c (by simp)
      rw [walk_name hc.ne_dot hc.ne_dotdot] at h₂
      split at h₂
      · rename_i text hlink
        exact ⟨init, c, d, text, q, old, List.prefix_refl _, found (List.prefix_append _ _) h₁, hd,
          hlink, hfrom _ _ (hd.trans (List.prefix_append _ _)) hlink, hpath, hout⟩
      · simp only [Except.ok.injEq, Prod.mk.injEq] at h₂
        exact absurd (h₂.1 ▸ hd.trans (List.prefix_append _ _)) hout
    · exact through (List.prefix_append _ _) h₁ hd

/-! ### Whole archives -/

/-- The destination is an empty directory. -/
structure Vacant (fs : FileSystem) (dest : Text) (root : Place) : Prop where
  sound : fs.Sound
  named : dest ≠ []
  leads : fs.find true (Path.clean dest) = .ok (root, .dir)
  empty : ∀ p, root <+: p → p ≠ root → fs.node? p = none

/-- No file has been written at the present time, so that every file that is written shows it. -/
def Fresh (fs : FileSystem) : Prop :=
  ∀ p mode content time, fs.node? p = some (.file mode content time) → time ≠ fs.clock

/-- What holds while the entries `earlier` have been recreated, starting from `fs₀`. -/
structure Underway (fs₀ : FileSystem) (dest : Text) (spare : Nat) (root : Place)
    (earlier : List ArchiveEntry) (fs : FileSystem) : Prop where
  sound : fs.Sound
  leads : Leads fs dest spare root
  clock : fs.clock = fs₀.clock
  links : LinksFrom fs dest root earlier
  grown : ∀ p, fs₀.node? p ≠ none → fs.node? p ≠ none

/-- The place was free at first, or has been written since. -/
def Marked (fs₀ fs : FileSystem) (p : Place) : Prop :=
  (fs₀.node? p = none ∧ fs.node? p ≠ none) ∨
    ∃ mode content, fs.node? p = some (.file mode content fs₀.clock)

variable {fs₀ : FileSystem} {earlier : List ArchiveEntry}

theorem Vacant.underway (h : Vacant fs dest root) :
    ∃ spare, Underway fs dest spare root [] fs := by
  obtain ⟨spare, hr⟩ := Files.reaches_of_find (Path.normalize_proper dest) h.leads
  refine ⟨spare, h.sound, ⟨h.named, hr⟩, rfl, fun p text hp hlink => ?_, fun _ => id⟩
  have hdir := (Leads.mk h.named hr).dir h.sound
  by_cases hpr : p = root
  · rw [hpr, hdir] at hlink
    simp at hlink
  · rw [h.empty p hp hpr] at hlink
    simp at hlink

theorem LinksFrom.mono {es es' : List ArchiveEntry} (h : LinksFrom fs dest root es)
    (hsub : es ⊆ es') : LinksFrom fs dest root es' := by
  intro p text hp hlink
  obtain ⟨e, he, hrest⟩ := h p text hp hlink
  exact ⟨e, hsub he, hrest⟩

theorem extractEntry_cases (hs : fs.Sound) (hl : Leads fs dest spare root) (e : ArchiveEntry) :
    (∃ r, (extractEntry dest e).run fs = (r, fs)) ∨
      ∃ names q fs', Asks dest e names ∧ Lands fs dest e names q ∧
        (extractEntry dest e).run fs = (.ok (), fs') ∧ Change fs e q fs' := by
  by_cases hask : ∃ names, Asks dest e names
  · obtain ⟨names, ha⟩ := hask
    by_cases hland : ∃ q, Lands fs dest e names q
    · obtain ⟨q, h⟩ := hland
      obtain ⟨fs', hrun, hc⟩ := extractEntry_lands hs hl ha h
      exact .inr ⟨names, q, fs', ha, h, hrun, hc⟩
    · exact .inl (extractEntry_idle hl ha fun q h => hland ⟨q, h⟩)
  · exact .inl (extractEntry_skips hl.named fun names ha => hask ⟨names, ha⟩)

theorem Underway.change (h : Underway fs₀ dest spare root earlier fs) (ha : Asks dest e names)
    (hc : Change fs e q fs') : Underway fs₀ dest spare root (earlier ++ [e]) fs' := by
  refine ⟨hc.sound h.sound, h.leads.mono (hc.keeps h.sound) hc.current, hc.clock.trans h.clock,
    fun p text hp hlink => ?_, fun p hp => ?_⟩
  · rcases hc.link hlink with hold | ⟨hkind, rfl⟩
    · exact h.links.mono (List.subset_append_left _ _) p text hp hold
    · exact ⟨e, by simp, hkind, rfl, ha.inside hkind⟩
  · obtain ⟨n, hn⟩ := Option.ne_none_iff_exists'.1 (h.grown p hp)
    rcases hc.node?_of_some h.sound hn with h' | ⟨a, b, t, mode, content, -, h'⟩
    · rw [h']
      simp
    · rw [h']
      simp

theorem Underway.idle (h : Underway fs₀ dest spare root earlier fs) (e : ArchiveEntry) :
    Underway fs₀ dest spare root (earlier ++ [e]) fs :=
  ⟨h.sound, h.leads, h.clock, h.links.mono (List.subset_append_left _ _), h.grown⟩

theorem Underway.step (h : Underway fs₀ dest spare root earlier fs) (e : ArchiveEntry) :
    Underway fs₀ dest spare root (earlier ++ [e]) ((extractEntry dest e).run fs).2 := by
  rcases extractEntry_cases h.sound h.leads e with ⟨r, hr⟩ | ⟨names, q, fs', ha, -, hr, hc⟩
  · rw [hr]
    exact h.idle e
  · rw [hr]
    exact h.change ha hc

theorem Marked.change (hm : Marked fs₀ fs p) (hs : fs.Sound) (hclock : fs.clock = fs₀.clock)
    (hc : Change fs e q fs') : Marked fs₀ fs' p := by
  rcases hm with ⟨hnone, hsome⟩ | ⟨mode, content, hfile⟩
  · obtain ⟨n, hn⟩ := Option.ne_none_iff_exists'.1 hsome
    refine .inl ⟨hnone, ?_⟩
    rcases hc.node?_of_some hs hn with h' | ⟨a, b, t, mode, content, -, h'⟩
    · rw [h']
      simp
    · rw [h']
      simp
  · rcases hc.node?_of_some hs hfile with h' | ⟨a, b, t, mode', content', -, h'⟩
    · exact .inr ⟨mode, content, h'⟩
    · exact .inr ⟨mode', content', hclock ▸ h'⟩

theorem extract_cons (dest : Text) (e : ArchiveEntry) (es : List ArchiveEntry) (fs : FileSystem) :
    (extract dest (e :: es)).run fs =
      match (extractEntry dest e).run fs with
      | (.ok _, fs) => (extract dest es).run fs
      | (.error f, fs) => (.error f, fs) := by
  rw [extract, run_bind]
  rcases (extractEntry dest e).run fs with ⟨f | u, fs'⟩ <;> rfl

theorem extract_append (dest : Text) (done es : List ArchiveEntry) (fs : FileSystem) :
    (extract dest (done ++ es)).run fs =
      match (extract dest done).run fs with
      | (.ok _, fs) => (extract dest es).run fs
      | (.error f, fs) => (.error f, fs) := by
  induction done generalizing fs with
  | nil => rfl
  | cons e done ih =>
    rw [List.cons_append, extract_cons, extract_cons]
    rcases (extractEntry dest e).run fs with ⟨f | u, fs'⟩
    · rfl
    · exact ih fs'

theorem Underway.run (h : Underway fs₀ dest spare root earlier fs) (es : List ArchiveEntry) :
    Underway fs₀ dest spare root (earlier ++ es) ((extract dest es).run fs).2 := by
  induction es generalizing fs earlier with
  | nil =>
    rw [List.append_nil]
    exact h
  | cons e es ih =>
    have hstep := h.step e
    rw [extract_cons]
    rcases hr : (extractEntry dest e).run fs with ⟨f | u, fs'⟩
    · rw [hr] at hstep
      refine ⟨hstep.sound, hstep.leads, hstep.clock, hstep.links.mono ?_, hstep.grown⟩
      simp
    · rw [hr] at hstep
      simpa using ih hstep

theorem Marked.run (hm : Marked fs₀ fs p) (h : Underway fs₀ dest spare root earlier fs)
    (es : List ArchiveEntry) : Marked fs₀ ((extract dest es).run fs).2 p := by
  induction es generalizing fs earlier with
  | nil => exact hm
  | cons e es ih =>
    rw [extract_cons]
    rcases extractEntry_cases h.sound h.leads e with ⟨_ | _, hr⟩ | ⟨names, q, fs', ha, -, hr, hc⟩
    · rw [hr]
      exact hm
    · rw [hr]
      exact ih hm h
    · rw [hr]
      exact ih (hm.change h.sound h.clock hc) (h.change ha hc)

theorem Marked.node?_ne (hm : Marked fs₀ fs p) (hf : Fresh fs₀) :
    fs.node? p ≠ fs₀.node? p := by
  intro heq
  rcases hm with ⟨hnone, hsome⟩ | ⟨mode, content, hfile⟩
  · exact hsome (heq.trans hnone)
  · exact hf p mode content _ (heq ▸ hfile) rfl

/-- As long as no entry escapes, nothing outside the destination changes. -/
theorem Underway.node?_outside (h : Underway fs₀ dest spare root earlier fs)
    {es : List ArchiveEntry} (hp : ¬ root <+: p)
    (hno : ∀ done e rest fs', es = done ++ e :: rest → (extract dest done).run fs = (.ok (), fs') →
      ¬ Escapes fs' dest root (earlier ++ done) e) :
    ((extract dest es).run fs).2.node? p = fs.node? p := by
  induction es generalizing fs earlier with
  | nil => rfl
  | cons e es ih =>
    have hrest : ∀ fs', (extractEntry dest e).run fs = (.ok (), fs') →
        Underway fs₀ dest spare root (earlier ++ [e]) fs' →
        ((extract dest es).run fs').2.node? p = fs'.node? p := by
      intro fs' hr h'
      refine ih h' fun done e' rest fs'' hes hdone => ?_
      have hrun : (extract dest (e :: done)).run fs = (.ok (), fs'') := by
        rw [extract_cons, hr]
        exact hdone
      have := hno (e :: done) e' rest fs'' (by rw [hes]; rfl) hrun
      rwa [List.append_assoc]
    rw [extract_cons]
    rcases extractEntry_cases h.sound h.leads e with ⟨_ | _, hr⟩ | ⟨names, q, fs', ha, hland, hr, hc⟩
    · rw [hr]
    · rw [hr]
      exact hrest fs hr (h.idle e)
    · -- the entry does not escape, so it lands in the destination
      have hq : root <+: q := by
        by_contra hq
        refine hno [] e es fs rfl rfl ⟨names, q, ha, hland, hq, ?_⟩
        rw [List.append_nil]
        exact hland.leadsOut h.leads ha.isName hq h.links
      rw [hr]
      exact (hrest fs' hr (h.change ha hc)).trans
        (hc.node?_other fun hqp => hp (hq.trans hqp))

/-- **An archive unpacked into an empty directory changes nothing outside of it exactly when no
entry, at its turn, goes out through a link that an earlier entry has left in the directory.** -/
theorem extract_confined_iff (h : Vacant fs dest root) (hf : Fresh fs) (es : List ArchiveEntry) :
    (∀ p, ¬ root <+: p → ((extract dest es).run fs).2.node? p = fs.node? p) ↔
      ∀ done e rest fs', es = done ++ e :: rest →
        (extract dest done).run fs = (.ok (), fs') → ¬ Escapes fs' dest root done e := by
  obtain ⟨spare, hu⟩ := h.underway
  constructor
  · rintro hconf done e rest fs' rfl hdone ⟨names, q, ha, hland, hq, -⟩
    have hu' := hu.run done
    rw [hdone, List.nil_append] at hu'
    simp only at hu'
    obtain ⟨fs'', hrun, hc⟩ := extractEntry_lands hu'.sound hu'.leads ha hland
    have hm : Marked fs fs'' q := by
      rcases hc.node?_self with ⟨hnone, hsome⟩ | ⟨mode, content, hfile⟩
      · refine .inl ⟨?_, hsome⟩
        by_contra hold
        exact hu'.grown q hold hnone
      · exact .inr ⟨mode, content, hu'.clock ▸ hfile⟩
    have hfinal := hm.run (hu'.change ha hc) rest
    refine hfinal.node?_ne hf ?_
    have := hconf q hq
    rw [extract_append, hdone] at this
    simp only at this
    rwa [extract_cons, hrun] at this
  · intro hno p hp
    exact hu.node?_outside hp hno

/-! ### A link that leads out -/

/-- A disk with one empty directory. -/
def bareDisk : FileSystem := ({} : FileSystem).put [Text.ofString "d"] .dir

/-- The second link stays below the destination when it is read by name, but the first link takes
it to the directory above. -/
def detour : List ArchiveEntry :=
  [{ kind := .symlink, name := "a", link := "." },
    { kind := .symlink, name := "b", link := "a/.." },
    { kind := .file, name := "b/evil", mode := 0o644, content := "x" }]

theorem vacant_bareDisk : Vacant bareDisk "/d" [Text.ofString "d"] := by
  refine ⟨sound_empty.put (d := []) rfl (by simp [node?]) .dir, by decide, by cbv, ?_⟩
  intro p hp hne
  obtain ⟨t, rfl⟩ := hp
  rw [bareDisk, node?_put (by simp), if_neg hne]
  simp [node?]

theorem fresh_bareDisk : Fresh bareDisk := by
  intro p mode content time h
  rw [bareDisk, node?_put (by simp)] at h
  split at h
  · simp at h
  · unfold node? at h
    split at h <;> simp at h

theorem extract_confined_iff_detour :
    Vacant bareDisk "/d" [Text.ofString "d"] ∧ Fresh bareDisk ∧
      ((∀ p, ¬ [Text.ofString "d"] <+: p →
          ((extract "/d" detour).run bareDisk).2.node? p = bareDisk.node? p) ↔
        ∀ done e rest fs', detour = done ++ e :: rest →
          (extract "/d" done).run bareDisk = (.ok (), fs') →
          ¬ Escapes fs' "/d" [Text.ofString "d"] done e) :=
  ⟨vacant_bareDisk, fresh_bareDisk, extract_confined_iff vacant_bareDisk fresh_bareDisk detour⟩

/-- The file of the detour is written next to the destination. -/
theorem extract_detour_outside :
    Vacant bareDisk "/d" [Text.ofString "d"] ∧ Fresh bareDisk ∧
      ¬ ∀ p, ¬ [Text.ofString "d"] <+: p →
        ((extract "/d" detour).run bareDisk).2.node? p = bareDisk.node? p := by
  refine ⟨vacant_bareDisk, fresh_bareDisk, fun h => ?_⟩
  have hout := h [Text.ofString "evil"] (by decide)
  have hafter : ((extract "/d" detour).run bareDisk).2.node? [Text.ofString "evil"] =
      some (.file 0o644 "x" Time.zero) := by cbv
  have hbefore : bareDisk.node? [Text.ofString "evil"] = none := by cbv
  rw [hafter, hbefore] at hout
  simp at hout

end Archive

end MetricHistory
