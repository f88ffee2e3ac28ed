import MetricHistory.Proofs.Cache.Map

/-!
# What a failed write leaves behind

Storing an entry makes the cache directory, fills a temporary file and moves it into the place of the
entry.  Every step can fail.

* `Cache.Outcome` is what can come of it, and `Cache.replace_outcome` says that nothing else can.
* `Cache.Blocked` : a directory is in the place of the entry.
* `Cache.set_failure_iff` : **a failed write leaves the files as they were, unless it was blocked; then
  it leaves its temporary file behind.**
* `Cache.blocked_leaves_temp` : it does.
-/

namespace MetricHistory

namespace Cache

open FileSystem

variable {c : Cache} {key fingerprint data raw : Text} {d : Place} {fs fs' : FileSystem}

/-- Files and links are at the same places, with the same contents. -/
def SameFiles (fs fs' : FileSystem) : Prop :=
  ∀ q n, n ≠ .dir → (fs'.node? q = some n ↔ fs.node? q = some n)

/-- Once the cache directory has been made, a directory is in the place of the entry. -/
def Blocked (c : Cache) (key : Text) (fs : FileSystem) : Prop :=
  ∃ made q, (Files.makeDirs c.dir).run fs = (.ok (), made) ∧
    made.find false (c.entryPath key) = .ok (q, .dir)

theorem sameFiles_of_grows (h : fs.Grows fs') : SameFiles fs fs' :=
  fun _ _ hn => ⟨fun hq => h.new hq hn, h.keep⟩

theorem find_entryPath (hd : LeadsTo c.dir fs d) (key : Text) :
    fs.find false (c.entryPath key) =
      match fs.node? (d ++ [entryName key]) with
      | some n => .ok (d ++ [entryName key], n)
      | none => .error .noEntry := by
  rw [show c.entryPath key = Path.join [c.dir, entryName key] from rfl, FileSystem.find,
    hd.locate (isName_entryName key)]
  rcases fs.node? (d ++ [entryName key]) with _ | n <;> rfl

theorem blocked_iff (hclean : Path.clean c.dir = c.dir) (hd : LeadsTo c.dir fs d) :
    Blocked c key fs ↔ fs.node? (d ++ [entryName key]) = some .dir := by
  have hmake : (Files.makeDirs c.dir).run fs = (.ok (), fs) := by
    obtain ⟨left, hreach⟩ := hd
    have hthere := Files.makeDirs_there (Path.normalize_proper c.dir) hreach
    rwa [← Path.clean, hclean] at hthere
  have hfind := find_entryPath hd key
  constructor
  · rintro ⟨made, q, hmade, hq⟩
    obtain rfl : fs = made := congrArg Prod.snd (hmake.symm.trans hmade)
    rw [hfind] at hq
    split at hq
    · rename_i n hn
      have hdir : n = .dir := congrArg Prod.snd (Except.ok.inj hq)
      rw [hn, hdir]
    · cases hq
  · intro hdir
    exact ⟨fs, d ++ [entryName key], hmake, by rw [hfind, hdir]⟩

/-! ### The ways it can end -/

/-- What can come of putting the text of an entry into the file of its key. -/
inductive Outcome (c : Cache) (key raw : Text) (fs : FileSystem) :
    Except FileError Unit × FileSystem → Prop where
  /-- No temporary file was created. -/
  | refused {e : FileError} {fs' : FileSystem} (grows : fs.Grows fs') (free : ¬ Blocked c key fs) :
      Outcome c key raw fs (.error e, fs')
  /-- The temporary file could not be moved, and stays. -/
  | blocked {e : FileError} {made : FileSystem} {d : Place} {i : ℕ}
      (make : (Files.makeDirs c.dir).run fs = (.ok (), made))
      (fresh : FileSystem.Fresh c.dir (tempName i) d made)
      (dir : made.node? (d ++ [entryName key]) = some .dir) :
      Outcome c key raw fs (.error e, made.withTemp (d ++ [tempName i]) raw)
  /-- The temporary file has become that of the entry. -/
  | replaced {made : FileSystem} {d : Place} {i : ℕ}
      (make : (Files.makeDirs c.dir).run fs = (.ok (), made))
      (fresh : FileSystem.Fresh c.dir (tempName i) d made)
      (dir : made.node? (d ++ [entryName key]) ≠ some .dir) :
      Outcome c key raw fs (.ok (),
        (made.withTemp (d ++ [tempName i]) raw).moved (d ++ [tempName i]) (d ++ [entryName key]))

theorem leadsTo_of_find {q : Place} {n : FileNode}
    (h : fs.find false (c.entryPath key) = .ok (q, n)) : ∃ d, LeadsTo c.dir fs d := by
  rw [FileSystem.find] at h
  rcases hlocate : fs.locate false (Path.join [c.dir, entryName key]) with e | found
  · rw [show c.entryPath key = Path.join [c.dir, entryName key] from rfl, hlocate] at h
    cases h
  · exact leadsTo_of_locate (isName_entryName key) hlocate

/-- Once there is a temporary file, all that can come in its way is a directory. -/
theorem fill_outcome {made : FileSystem} {i : ℕ}
    (hmake : (Files.makeDirs c.dir).run fs = (.ok (), made))
    (hfresh : FileSystem.Fresh c.dir (tempName i) d made)
    (hcreate : (Files.createTemp c.dir ".entry-").run made =
      (.ok (Path.join [c.dir, tempName i]), made.withTemp (d ++ [tempName i]) [])) (raw : Text) :
    Outcome c key raw fs ((fill c key raw).run made) := by
  have hlocate := (hfresh.leads_withTemp raw).locate (isName_entryName key)
  have hnode : (made.withTemp (d ++ [tempName i]) raw).node? (d ++ [entryName key]) =
      made.node? (d ++ [entryName key]) := by
    rw [node?_withTemp (by simp), if_neg]
    simpa using (tempName_ne_entryName i key).symm
  rw [fill, run_bind_ok hcreate, run_bind_ok (hfresh.write_run [] raw)]
  by_cases hdir : made.node? (d ++ [entryName key]) = some .dir
  · have hrename : (Files.rename (Path.join [c.dir, tempName i]) (c.entryPath key)).run
        (made.withTemp (d ++ [tempName i]) raw) =
          (.error ⟨"rename", [Path.join [c.dir, tempName i], c.entryPath key], .exists⟩,
            made.withTemp (d ++ [tempName i]) raw) := by
      rw [Files.rename_run, hfresh.find_eq raw false,
        show c.entryPath key = Path.join [c.dir, entryName key] from rfl, hlocate, hnode, hdir]
    exact hrename ▸ .blocked hmake hfresh hdir
  · have hrename := hfresh.rename_free raw hlocate (by rwa [hnode])
    exact hrename ▸ .replaced hmake hfresh hdir

theorem replace_outcome (hs : fs.Sound) (c : Cache) (key raw : Text) :
    Outcome c key raw fs ((replace c key raw).run fs) := by
  have hgrows := Files.makeDirs_grows hs c.dir
  rcases hmake : (Files.makeDirs c.dir).run fs with ⟨e | u, made⟩
  · rw [hmake] at hgrows
    rw [replace, run_bind, hmake]
    refine .refused hgrows ?_
    rintro ⟨made', q, hmade, -⟩
    cases hmake.symm.trans hmade
  replace hgrows : fs.Grows made := by rwa [hmake] at hgrows
  rw [replace, run_bind_ok hmake]
  rcases hcreate : (Files.createTemp c.dir ".entry-").run made with ⟨e | temp, after⟩
  · -- then the cache directory is not there, and neither is anything in it
    obtain rfl : after = made := Files.createTemp_error hcreate
    rw [run_bind, hcreate]
    refine .refused hgrows ?_
    rintro ⟨made', q, hmade, hfind⟩
    obtain rfl : after = made' := congrArg Prod.snd (hmake.symm.trans hmade)
    obtain ⟨d, hd⟩ := leadsTo_of_find hfind
    obtain ⟨i, -, hcreated⟩ := Files.createTemp_leadsTo hgrows.sound hd
      (show Path.slash ∉ Text.ofString ".entry-" by decide)
    cases hcreate.symm.trans hcreated
  · obtain ⟨i, d, hfresh, htemp, hafter⟩ := Files.createTemp_fresh hgrows.sound hcreate
    rw [htemp, hafter] at hcreate
    exact fill_outcome hmake hfresh hcreate raw

/-! ### What is left behind -/

/-- There is one file more, and otherwise there are at most more directories. -/
structure OneMore (fs fs' : FileSystem) (t : Place) (content : Text) : Prop where
  free : fs.node? t = none
  files : ∀ q n, n ≠ .dir →
    (fs'.node? q = some n ↔
      fs.node? q = some n ∨ q = t ∧ n = .file (fs.granted 0o600) content fs.clock)

theorem OneMore.not_sameFiles {t : Place} {content : Text} (h : OneMore fs fs' t content) :
    ¬ SameFiles fs fs' := by
  intro hsame
  have hfile := (h.files t (.file (fs.granted 0o600) content fs.clock) (by simp)).2 (.inr ⟨rfl, rfl⟩)
  have hold := (hsame t _ (by simp)).1 hfile
  simp [h.free] at hold

theorem oneMore_withTemp {made : FileSystem} {i : ℕ} (hgrows : fs.Grows made)
    (hfresh : FileSystem.Fresh c.dir (tempName i) d made) (raw : Text) :
    OneMore fs (made.withTemp (d ++ [tempName i]) raw) (d ++ [tempName i]) raw where
  free := by
    rw [Option.eq_none_iff_forall_not_mem]
    intro n hn
    have hkept := hgrows.keep hn
    simp [hfresh.free] at hkept
  files q n hn := by
    rw [node?_withTemp (by simp), hgrows.clock, granted_congr hgrows.mask]
    split
    · rename_i hq
      have hfree : fs.node? q ≠ some n := by
        intro hthere
        have hkept := hgrows.keep hthere
        simp [hq, hfresh.free] at hkept
      rw [hq] at hfree ⊢
      simp [hfree, eq_comm]
    · rename_i hq
      simp only [hq, false_and, or_false]
      exact sameFiles_of_grows hgrows q n hn

/-- Putting an entry into the file of its key fails in two ways. -/
theorem replace_error (hs : fs.Sound) {e : FileError}
    (h : (replace c key raw).run fs = (.error e, fs')) :
    (fs.Grows fs' ∧ ¬ Blocked c key fs) ∨
      Blocked c key fs ∧ (∀ q n, fs.node? q = some n → fs'.node? q = some n) ∧
        ∃ d i, LeadsTo c.dir fs' d ∧ OneMore fs fs' (d ++ [tempName i]) raw := by
  have hgrows := Files.makeDirs_grows hs c.dir
  have houtcome := replace_outcome hs c key raw
  rw [h] at houtcome
  cases houtcome with
  | refused grows free => exact .inl ⟨grows, free⟩
  | @blocked _ made d i make fresh dir =>
    rw [make] at hgrows
    exact .inr ⟨⟨made, _, make, by rw [find_entryPath fresh.leads, dir]⟩,
      fun q n hq => fresh.keeps_withTemp raw (hgrows.keep hq), d, i, fresh.leads_withTemp raw,
      oneMore_withTemp hgrows fresh raw⟩

theorem replace_blocked (hs : fs.Sound) (h : Blocked c key fs) (raw : Text) :
    ∃ e fs', (replace c key raw).run fs = (.error e, fs') := by
  obtain ⟨made, q, hmake, hfind⟩ := h
  have houtcome := replace_outcome hs c key raw
  rcases hrun : (replace c key raw).run fs with ⟨e | u, fs'⟩
  · exact ⟨e, fs', rfl⟩
  rw [hrun] at houtcome
  cases houtcome with
  | replaced make fresh dir =>
    obtain rfl := congrArg Prod.snd (hmake.symm.trans make)
    rw [find_entryPath fresh.leads] at hfind
    split at hfind
    · rename_i n hn
      have hdir : n = .dir := congrArg Prod.snd (Except.ok.inj hfind)
      exact absurd (hn.trans (congrArg some hdir)) dir
    · cases hfind

theorem set_blocked (henabled : c.enabled = true) (hs : fs.Sound) (hblocked : Blocked c key fs)
    (hencode : CacheEntry.encode? { key, fingerprint, stored := fs.clock, data } = some raw) :
    ∃ f fs' d i, (c.set key fingerprint data).run fs = (.error f, fs') ∧
      OneMore fs fs' (d ++ [tempName i]) raw := by
  obtain ⟨e, fs', hrun⟩ := replace_blocked hs hblocked raw
  rcases replace_error hs hrun with ⟨-, hfree⟩ | ⟨-, -, d, i, -, hmore⟩
  · exact absurd hblocked hfree
  · refine ⟨.file e, fs', d, i, ?_, hmore⟩
    rw [set_run, if_neg (by simp [henabled]), hencode]
    simp only [FileTask.ofFiles_run, hrun]

/-- **A failed write leaves everything as it was, but that there may be more directories, unless it
was blocked by a directory in the place of the entry.  Then its temporary file, with the complete
entry, stays in the cache directory.** -/
theorem set_failure_sameFiles_iff (hs : fs.Sound) {f : Failure}
    (h : (c.set key fingerprint data).run fs = (.error f, fs')) :
    (∀ q n, fs.node? q = some n → fs'.node? q = some n) ∧
      (SameFiles fs fs' ↔ ¬ (Blocked c key fs ∧
        (CacheEntry.encode? { key, fingerprint, stored := fs.clock, data }).isSome)) ∧
      ∀ raw, CacheEntry.encode? { key, fingerprint, stored := fs.clock, data } = some raw →
        Blocked c key fs →
          ∃ d i, LeadsTo c.dir fs' d ∧ OneMore fs fs' (d ++ [tempName i]) raw := by
  rw [set_run] at h
  split at h
  · cases h
  cases hencode : CacheEntry.encode? { key, fingerprint, stored := fs.clock, data } with
  | none =>
    rw [hencode] at h
    obtain rfl : fs = fs' := congrArg Prod.snd h
    exact ⟨fun _ _ hq => hq, by simp [SameFiles], by simp⟩
  | some raw =>
    rw [hencode] at h
    simp only [FileTask.ofFiles_run] at h
    rcases hrun : (replace c key raw).run fs with ⟨e | u, after⟩
    · rw [hrun] at h
      obtain rfl : after = fs' := congrArg Prod.snd h
      rcases replace_error hs hrun with ⟨hgrows, hfree⟩ | ⟨hblocked, hkeep, d, i, hleads, hmore⟩
      · exact ⟨fun _ _ => hgrows.keep, by simp [sameFiles_of_grows hgrows, hfree],
          fun _ _ hblocked => absurd hblocked hfree⟩
      · refine ⟨hkeep, by simp [hmore.not_sameFiles, hblocked], ?_⟩
        rintro raw' ⟨⟩ -
        exact ⟨d, i, hleads, hmore⟩
    · rw [hrun] at h
      cases h

/-- A cache directory with a directory in the place of an entry. -/
def taken : FileSystem := oneDir.put [Text.ofString "c", entryName "k"] .dir

theorem taken_sound : taken.Sound :=
  oneDir_sound.put (d := [Text.ofString "c"]) rfl (by simp [oneDir, node?, List.lookup_cons]) .dir

theorem taken_blocked : Blocked { dir := "/c", enabled := true } "k" taken := by
  have hdir : taken.node? [Text.ofString "c"] = some .dir := by
    rw [taken, node?_put (by simp), if_neg (by simp)]
    rfl
  have hleads : LeadsTo "/c" taken [Text.ofString "c"] :=
    ⟨linkLimit, .down (by decide) (by decide) hdir (.here _ _)⟩
  rw [blocked_iff (by decide) hleads, taken]
  exact (node?_put (by simp) _ _).trans (if_pos rfl)

theorem taken_encode : ∃ raw,
    CacheEntry.encode? { key := "k", fingerprint := "f", stored := taken.clock, data := "1" } =
      some raw :=
  ⟨_, CacheEntry.encode?_eq (j := .number "1") (show Time.isStrict _ = true by decide) rfl⟩

/-- Data that are no JSON fail without a trace, others leave a file behind. -/
theorem set_failure_sameFiles_iff_taken :
    let c : Cache := { dir := "/c", enabled := true }
    taken.Sound ∧
      (∃ f fs', (c.set "k" "f" "\x7b").run taken = (.error f, fs') ∧ SameFiles taken fs') ∧
      ∃ f fs' raw d i, (c.set "k" "f" "1").run taken = (.error f, fs') ∧
        OneMore taken fs' (d ++ [tempName i]) raw := by
  intro c
  have hno : CacheEntry.encode?
      { key := "k", fingerprint := "f", stored := taken.clock, data := "\x7b" } = none := rfl
  have hrefused : (c.set "k" "f" "\x7b").run taken =
      (.error (.other "entry cannot be encoded"), taken) := by
    rw [set_run, if_neg (by decide), hno]
  obtain ⟨raw, hencode⟩ := taken_encode
  obtain ⟨f, fs', -, -, hrun, -⟩ := set_blocked (c := c) rfl taken_sound taken_blocked hencode
  refine ⟨taken_sound, ⟨_, _, hrefused, ?_⟩, f, fs', raw, ?_⟩
  · rw [(set_failure_sameFiles_iff taken_sound hrefused).2.1, hno]
    simp
  · obtain ⟨-, -, hleft⟩ := set_failure_sameFiles_iff taken_sound hrun
    obtain ⟨d, i, -, hmore⟩ := hleft raw hencode taken_blocked
    exact ⟨d, i, hrun, hmore⟩

/-- A failed write can leave a file that was not there. -/
theorem blocked_leaves_temp :
    let c : Cache := { dir := "/c", enabled := true }
    ∃ f fs' q mode content modified, (c.set "k" "f" "1").run taken = (.error f, fs') ∧
      taken.node? q = none ∧ fs'.node? q = some (.file mode content modified) := by
  intro c
  obtain ⟨raw, hencode⟩ := taken_encode
  obtain ⟨f, fs', d, i, hrun, hmore⟩ := set_blocked (c := c) rfl taken_sound taken_blocked hencode
  exact ⟨f, fs', _, _, _, _, hrun, hmore.free, (hmore.files _ _ (by simp)).2 (.inr ⟨rfl, rfl⟩)⟩

end Cache

end MetricHistory
