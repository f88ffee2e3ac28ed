import MetricHistory.Proofs.Archive.Links

/-!
# Files that come again

An archive of files may hold one and the same file several times.  Writing it again changes nothing,
so that only the set of its entries matters.

* `Archive.AreFiles` : files at paths of which none is below another.
* `Archive.Unpacked.again` : a file that is there already is written without an effect.
* `Archive.Unpacked.run_files` : **files are unpacked without a failure, and are at their places,
  however often they come.**
-/

namespace MetricHistory

namespace Archive

open FileSystem

variable {fs : FileSystem} {dest : Text} {spare : Nat} {root : Place} {e : ArchiveEntry}
  {es done done' : List ArchiveEntry}

/-- Files at paths of which none is below another.  One and the same file may come again. -/
structure AreFiles (es : List ArchiveEntry) : Prop where
  kind : ∀ e ∈ es, e.kind = .file
  named : ∀ e ∈ es, parts e ≠ []
  isName : ∀ e ∈ es, ∀ c ∈ parts e, Path.IsName c
  apart : ∀ e ∈ es, ∀ e' ∈ es, parts e <+: parts e' → e = e'

theorem AreFiles.subset (h : AreFiles es) (hsub : done ⊆ es) : AreFiles done :=
  ⟨fun e he => h.kind e (hsub he), fun e he => h.named e (hsub he),
    fun e he => h.isName e (hsub he), fun e he e' he' => h.apart e (hsub he) e' (hsub he')⟩

theorem AreFiles.isTree (h : AreFiles es) (hnodup : es.Nodup) : IsTree es where
  kind e he := by simp [h.kind e he]
  named := h.named
  isName := h.isName
  apart := hnodup.imp_of_mem fun he he' hne heq =>
    hne (h.apart _ he _ he' (heq ▸ List.prefix_refl _))
  leaf e he e' he' _ hp := congrArg parts (h.apart e he e' he' hp)

theorem Unpacked.subset (h : Unpacked dest spare root done fs) (hsub : done ⊆ done') :
    Unpacked dest spare root done' fs := by
  refine ⟨h.sound, h.leads, fun names n hne hn => ?_⟩
  obtain ⟨e, he, hrest⟩ := h.nodes names n hne hn
  exact ⟨e, hsub he, hrest⟩

/-- A file that is there already is written without an effect. -/
theorem Unpacked.again (h : Unpacked dest spare root done fs) (hk : e.kind = .file)
    (hne : parts e ≠ []) (hnames : ∀ c ∈ parts e, Path.IsName c)
    (hnode : fs.node? (root ++ parts e) = some (node e fs)) :
    ∃ fs', (extractEntry dest e).run fs = (.ok (), fs') ∧
      Unpacked dest spare root done fs' ∧ Placed dest root [e] fs fs' := by
  have ha : Asks dest e (parts e) :=
    ⟨Path.safeJoin?_of_names h.leads.named hnames, hnames, by simp [hk], by simp [hk]⟩
  have hfile : node e fs =
      .file (fs.granted (permissions e.mode)) e.content fs.clock := by
    rw [node, hk]
  -- the walk to the file goes through directories only
  have hwalk : fs.walk true spare root (parts e) =
      .ok (root ++ parts e, some (node e fs)) := by
    obtain ⟨init, c, hparts⟩ := (List.eq_nil_or_concat (parts e)).resolve_left hne
    rw [List.concat_eq_append] at hparts
    have hc := hnames c (by simp [hparts])
    rw [hparts] at hnode ⊢
    rw [(reaches_of_node? h.sound (fun x hx => hnames x (by simp [hparts, hx])) hnode).walk_append
      (.inl rfl), walk_name hc.ne_dot hc.ne_dotdot, List.append_assoc, hnode, hfile]
  obtain ⟨mode, hrun, hmode⟩ :=
    extractEntry_overwrite h.leads ha hk hwalk (.inr ⟨_, _, _, congrArg some hfile⟩)
  have hput : FileNode.file mode e.content fs.clock = node e fs := by
    rw [hmode _ _ _ (congrArg some hfile), hfile]
  rw [hput] at hrun
  have hsame : ∀ q, (fs.put (root ++ parts e) (node e fs)).node? q = fs.node? q :=
    node?_put_same (by simp [hne]) hnode
  refine ⟨_, hrun, ⟨h.sound.congr hsame rfl, h.leads.mono (.of_node? fun p n hp => ?_) rfl, ?_⟩,
    fun hq => ?_, fun _ => hsame _, rfl, rfl, rfl, fun e' he' _ => ?_⟩
  · rw [hsame, hp]
  · intro names n hne hn
    rw [hsame] at hn
    exact h.nodes names n hne hn
  · rw [hsame, hq]
  · rw [List.mem_singleton.1 he', hsame, hnode]

theorem Unpacked.step_files (h : Unpacked dest spare root done fs) (ht : AreFiles (done ++ [e]))
    (hplaced : ∀ e ∈ done, fs.node? (root ++ parts e) = some (node e fs)) :
    ∃ fs', (extractEntry dest e).run fs = (.ok (), fs') ∧
      Unpacked dest spare root (done ++ [e]) fs' ∧ Placed dest root [e] fs fs' := by
  have he : e ∈ done ++ [e] := by simp
  by_cases hmem : e ∈ done
  · obtain ⟨fs', hrun, hunpacked, hplace⟩ :=
      h.again (ht.kind e he) (ht.named e he) (ht.isName e he) (hplaced e hmem)
    exact ⟨fs', hrun, hunpacked.subset (List.subset_append_left _ _), hplace⟩
  · have hnodup : (done.dedup ++ [e]).Nodup := by
      rw [List.nodup_append]
      refine ⟨List.nodup_dedup _, List.nodup_singleton _, ?_⟩
      rintro x hx y hy rfl
      rw [List.mem_singleton.1 hy, List.mem_dedup] at hx
      exact hmem hx
    have htree : IsTree (done.dedup ++ [e]) := by
      refine AreFiles.isTree (ht.subset fun x hx => ?_) hnodup
      simpa using hx
    obtain ⟨fs', hrun, hunpacked, hplace⟩ :=
      (h.subset fun x hx => List.mem_dedup.2 hx).step htree
    refine ⟨fs', hrun, hunpacked.subset fun x hx => ?_, hplace⟩
    simpa using hx

/-- **Files are unpacked without a failure, and are at their places, however often they come.** -/
theorem Unpacked.run_files (h : Unpacked dest spare root done fs) (ht : AreFiles (done ++ es))
    (hplaced : ∀ e ∈ done, fs.node? (root ++ parts e) = some (node e fs)) :
    ∃ fs', (extract dest es).run fs = (.ok (), fs') ∧
      Unpacked dest spare root (done ++ es) fs' ∧ Placed dest root es fs fs' := by
  induction es generalizing done fs with
  | nil => exact ⟨fs, rfl, by rwa [List.append_nil], placed_idle (by simp)⟩
  | cons e es ih =>
    have hfirst : AreFiles (done ++ [e]) := ht.subset (by simp)
    obtain ⟨fs₁, hr, h₁, hp₁⟩ := h.step_files hfirst hplaced
    have hplaced₁ : ∀ x ∈ done ++ [e], fs₁.node? (root ++ parts x) = some (node x fs₁) := by
      intro x hx
      rw [hp₁.node_eq]
      rcases List.mem_append.1 hx with hx | hx
      · exact hp₁.kept (hplaced x hx)
      · refine hp₁.entries x hx fun hk => ?_
        simp [hfirst.kind x (List.mem_append_right _ hx)] at hk
    obtain ⟨fs₂, hrun, h₂, hp₂⟩ := ih h₁ (by simpa using ht) hplaced₁
    refine ⟨fs₂, ?_, by simpa using h₂, hp₁.trans hp₂⟩
    rw [extract_cons, hr]
    exact hrun

end Archive

end MetricHistory
