import MetricHistory.Proofs.Archive.Links
import MetricHistory.Proofs.Archive.Target

/-!
# An archive gives back its tree

* `Archive.Holds` : what a tree holds at the end of given names, read off its entries.
* `Archive.Unpacked.holds` and `Archive.Placed.node?_of_holds` : after its entries have been recreated,
  there is nothing but what the tree holds, and all of it.
* `Archive.extract_reproduces` : unpacked in any order into an empty directory, the entries of a tree
  leave exactly the tree.
-/

namespace MetricHistory

namespace FileSystem

theorem testBit_granted (fs : FileSystem) (mode bit : ℕ) :
    (fs.granted mode).testBit bit = ((mode &&& 0o777).testBit bit && !fs.mask.testBit bit) := by
  have hnine : (0o777 : ℕ).testBit bit = decide (bit < 9) := Nat.testBit_two_pow_sub_one 9 bit
  rw [granted, Nat.testBit_and, Nat.testBit_and, Nat.testBit_xor, hnine]
  cases decide (bit < 9) <;> simp

end FileSystem

namespace Archive

open FileSystem

variable {fs fs' : FileSystem} {dest : Text} {spare : ℕ} {root p : Place} {e : ArchiveEntry}
  {es es' done : List ArchiveEntry} {names : List Text} {n : FileNode}

/-- The bits of a mode are those that an entry asks for, less those that are withheld. -/
def GivesMode (fs : FileSystem) (e : ArchiveEntry) (mode : ℕ) : Prop :=
  ∀ bit, mode.testBit bit = ((permissions e.mode).testBit bit && !fs.mask.testBit bit)

/-- The entry is one that is recreated: a directory, a file, or a link that stays inside. -/
def Recreated (dest : Text) (e : ArchiveEntry) : Prop :=
  e.kind = .directory ∨ e.kind = .file ∨
    e.kind = .symlink ∧ Path.StaysInside dest (Path.join [dest, e.name]) e.link

/-- What a tree holds at the end of the given names, when it is recreated in a file system: its
directories, its files with their content and permission bits, its links that stay inside with their
texts, and the directories around these. -/
inductive Holds (dest : Text) (es : List ArchiveEntry) (fs : FileSystem) :
    List Text → FileNode → Prop
  | directory {e : ArchiveEntry} (he : e ∈ es) (hk : e.kind = .directory) :
      Holds dest es fs (parts e) .dir
  | file {e : ArchiveEntry} {mode : ℕ} (he : e ∈ es) (hk : e.kind = .file)
      (hmode : GivesMode fs e mode) : Holds dest es fs (parts e) (.file mode e.content fs.clock)
  | link {e : ArchiveEntry} (he : e ∈ es) (hk : e.kind = .symlink)
      (hin : Path.StaysInside dest (Path.join [dest, e.name]) e.link) :
      Holds dest es fs (parts e) (.link e.link)
  | around {e : ArchiveEntry} {names : List Text} (he : e ∈ es) (hr : Recreated dest e)
      (hpre : names <+: parts e) (hne : names ≠ parts e) : Holds dest es fs names .dir

theorem Recreated.kind_ne (h : Recreated dest e) : e.kind ≠ .special := by
  rcases h with hk | hk | ⟨hk, -⟩ <;> simp [hk]

theorem Holds.of_subset (hsub : ∀ e ∈ es, e.kind ≠ .special → e ∈ es')
    (h : Holds dest es fs names n) : Holds dest es' fs names n := by
  cases h with
  | directory he hk => exact .directory (hsub _ he (by simp [hk])) hk
  | file he hk hmode => exact .file (hsub _ he (by simp [hk])) hk hmode
  | link he hk hin => exact .link (hsub _ he (by simp [hk])) hk hin
  | around he hr hpre hne => exact .around (hsub _ he hr.kind_ne) hr hpre hne

theorem permissions_and (mode : ℕ) : permissions mode &&& 0o777 = permissions mode := by
  unfold permissions
  split
  · decide
  · rw [Nat.and_assoc, Nat.and_self]

theorem givesMode_granted (fs : FileSystem) (e : ArchiveEntry) :
    GivesMode fs e (fs.granted (permissions e.mode)) := by
  intro bit
  rw [testBit_granted, permissions_and]

theorem GivesMode.eq_granted {mode : ℕ} (h : GivesMode fs e mode) :
    mode = fs.granted (permissions e.mode) :=
  Nat.eq_of_testBit_eq fun bit => (h bit).trans (givesMode_granted fs e bit).symm

/-! ### Entries of a tree -/

theorem extract_filter (dest : Text) (es : List ArchiveEntry) (fs : FileSystem) :
    (extract dest (es.filter fun e => e.kind != .special)).run fs = (extract dest es).run fs := by
  induction es generalizing fs with
  | nil => rfl
  | cons e es ih =>
    by_cases hk : e.kind = .special
    · have hskip : (extractEntry dest e).run fs = (.ok (), fs) := by
        simp only [extractEntry, hk]
        rfl
      rw [List.filter_cons_of_neg (by simp [hk]), extract_cons, hskip]
      exact ih fs
    · rw [List.filter_cons_of_pos (by simp [hk]), extract_cons, extract_cons]
      rcases (extractEntry dest e).run fs with ⟨f | u, fs₁⟩
      · rfl
      · exact ih fs₁

theorem IsTree.perm (h : IsTree es) (hp : es'.Perm es) : IsTree es' where
  kind e he := h.kind e (hp.mem_iff.1 he)
  named e he := h.named e (hp.mem_iff.1 he)
  isName e he := h.isName e (hp.mem_iff.1 he)
  apart := (hp.pairwise_iff fun hne => Ne.symm hne).2 h.apart
  leaf e he e' he' := h.leaf e (hp.mem_iff.1 he) e' (hp.mem_iff.1 he')

theorem linkInside_iff_staysInside (hd : dest ≠ []) (hname : Path.IsRelative e.name) :
    Path.linkInside dest e.name e.link = true ↔
      Path.StaysInside dest (Path.join [dest, e.name]) e.link := by
  have h := Path.safeJoin?_of_names hd hname.isName
  rw [((Path.safeJoin?_eq_some_iff _ _ _).1 h).1] at h
  exact Path.linkInside_of_name h hname.isAbsolute_eq hname.isName_lastPart

/-- The links of a tree have clean relative paths. -/
def LinksClean (es : List ArchiveEntry) : Prop :=
  ∀ e ∈ es, e.kind = .symlink → Path.IsRelative e.name

instance (es : List ArchiveEntry) : Decidable (LinksClean es) :=
  inferInstanceAs (Decidable (∀ e ∈ es, e.kind = .symlink → Path.IsRelative e.name))

theorem recreated_iff (hd : dest ≠ []) (hkind : e.kind ≠ .special)
    (hname : e.kind = .symlink → Path.IsRelative e.name) : Recreated dest e ↔ Kept dest e := by
  unfold Recreated Kept
  cases hk : e.kind with
  | directory => simp
  | file => simp
  | symlink => simp [linkInside_iff_staysInside hd (hname hk)]
  | special => exact absurd hk hkind

/-! ### Nothing but the tree, and all of it -/

/-- Below the root there is nothing but what the tree holds. -/
theorem Unpacked.holds (h : Unpacked dest spare root es fs') (hplaced : Placed dest root es fs fs')
    (ht : IsTree es) (hclean : LinksClean es) (hne : names ≠ [])
    (hn : fs'.node? (root ++ names) = some n) : Holds dest es fs names n := by
  have hd := h.leads.named
  obtain ⟨e, he, ha, hpre, hnode⟩ := h.nodes names n hne hn
  have hkept : Kept dest e := ha.inside
  by_cases hend : names = parts e
  · -- the entry itself is here
    subst hend
    have hhere := hplaced.entries e he hkept
    rw [hn, Option.some.injEq] at hhere
    subst hhere
    unfold node
    cases hk : e.kind with
    | directory => exact .directory he hk
    | file => exact .file he hk (givesMode_granted fs e)
    | symlink => exact .link he hk ((linkInside_iff_staysInside hd (hclean e he hk)).1 (hkept hk))
    | special => exact absurd hk (ht.kind e he)
  · rcases hnode with rfl | ⟨-, heq, -⟩
    · exact .around he ((recreated_iff hd (ht.kind e he) (hclean e he)).2 hkept) hpre hend
    · exact absurd heq hend

/-- Whatever the tree holds is there below the root. -/
theorem Placed.node?_of_holds (h : Placed dest root es fs fs') (hs : fs'.Sound) (hd : dest ≠ [])
    (ht : IsTree es) (hclean : LinksClean es) (hn : Holds dest es fs names n) :
    fs'.node? (root ++ names) = some n := by
  cases hn with
  | @directory e he hk =>
    have := h.entries e he (by simp [Kept, hk])
    rwa [node, hk] at this
  | @file e mode he hk hmode =>
    have := h.entries e he (by simp [Kept, hk])
    rwa [node, hk, ← hmode.eq_granted] at this
  | @link e he hk hin =>
    have := h.entries e he fun _ => (linkInside_iff_staysInside hd (hclean e he hk)).2 hin
    rwa [node, hk] at this
  | @around e _ he hr hpre hne =>
    obtain ⟨ws, hws⟩ := hpre
    have hthere := h.entries e he ((recreated_iff hd (ht.kind e he) (hclean e he)).1 hr)
    have hws_ne : ws ≠ [] := by
      rintro rfl
      exact hne (by simpa using hws)
    rw [← hws, ← List.append_assoc] at hthere
    exact hs.dir_of_below hthere hws_ne

/-- **The entries of a tree, unpacked in any order into an empty directory, leave exactly the tree**:
below the directory there is what the tree holds and nothing else, and elsewhere nothing has changed.
Special entries may stand between the others. -/
theorem extract_reproduces (hv : Vacant fs dest root)
    (ht : IsTree (es.filter fun e => e.kind != .special)) (hclean : LinksClean es)
    (hp : es'.Perm es) :
    ∃ fs', (extract dest es').run fs = (.ok (), fs') ∧
      (∀ names n, names ≠ [] →
        (fs'.node? (root ++ names) = some n ↔ Holds dest es fs names n)) ∧
      ∀ p, ¬ root <+: p ∨ p = root → fs'.node? p = fs.node? p := by
  -- only the entries that are not special matter, and those of the tree in any order are a tree
  generalize hkept : (es'.filter fun e => e.kind != .special) = kept
  have hmem : ∀ {e}, e ∈ kept ↔ e ∈ es ∧ e.kind ≠ .special := by
    intro e
    simp [← hkept, hp.mem_iff]
  have ht' : IsTree kept := ht.perm (hkept ▸ hp.filter _)
  have hclean' : LinksClean kept := fun e he hk => hclean e (hmem.1 he).1 hk
  obtain ⟨spare, hbare⟩ := hv.unpacked
  obtain ⟨fs', hrun, h, hplaced⟩ := hbare.run_placed (show IsTree ([] ++ kept) from ht')
  refine ⟨fs', by rw [← extract_filter, hkept, hrun], fun names n hne => ?_, ?_⟩
  · have hholds : Holds dest es fs names n ↔ Holds dest kept fs names n :=
      ⟨Holds.of_subset fun e he hk => hmem.2 ⟨he, hk⟩, Holds.of_subset fun e he _ => (hmem.1 he).1⟩
    rw [hholds]
    exact ⟨Unpacked.holds h hplaced ht' hclean' hne,
      hplaced.node?_of_holds h.sound h.leads.named ht' hclean'⟩
  · rintro p (hp | rfl)
    · exact hplaced.outside hp
    · rw [h.leads.dir h.sound, hbare.leads.dir hbare.sound]

/-- A file and the directory it lies in, a link to the file, a link that leads out, and a pipe. -/
def belongings : List ArchiveEntry :=
  [{ kind := .directory, name := "a/" },
    { kind := .file, name := "a/f", content := "text" },
    { kind := .symlink, name := "a/l", link := "f" },
    { kind := .symlink, name := "o", link := ".." },
    { kind := .special, name := "p" }]

theorem isTree_belongings : IsTree (belongings.filter fun e => e.kind != .special) :=
  ⟨by decide, by decide, by decide, by decide, by decide⟩

theorem extract_reproduces_reversed :
    Vacant bareDisk "/d" [Text.ofString "d"] ∧ LinksClean belongings ∧
      ∃ fs', (extract "/d" belongings.reverse).run bareDisk = (.ok (), fs') ∧
        (∀ names n, names ≠ [] →
          (fs'.node? ([Text.ofString "d"] ++ names) = some n ↔
            Holds "/d" belongings bareDisk names n)) ∧
        ∀ p, ¬ [Text.ofString "d"] <+: p ∨ p = [Text.ofString "d"] →
          fs'.node? p = bareDisk.node? p :=
  ⟨vacant_bareDisk, by decide,
    extract_reproduces vacant_bareDisk isTree_belongings (by decide) belongings.reverse_perm⟩

end Archive

end MetricHistory
