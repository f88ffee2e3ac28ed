import MetricHistory.Config.Basic
import MetricHistory.Proofs.Path.Place

/-!
# The places of frameworks

Every framework has directories for its scratch files, a mirror and a report, named by its id below
directories of the configuration.  The directories may be given in any way: absolute or relative, with
steps up, or not at all.

* `Paths.scratch` : the directories in which the samples and the commits of a framework are measured;
* `Paths.frameworks_apart` : **different frameworks, and the two scratch directories of one, have
  places of their own.**
-/

namespace MetricHistory

namespace Paths

open MetricHistory.Path (IsName Apart LeadApart place)

variable {p : Paths} {id id' : Text} {cwd : Place}

/-- The scratch directories of a framework: for samples and for commits. -/
def scratch (p : Paths) (id : Text) : List Text :=
  [Path.join [p.workDir id, "work"], Path.join [p.workDir id, "commit_work"]]

theorem isName_append (h : IsName id) {ending : Text} (hslash : Path.slash ∉ ending)
    (hlong : 2 ≤ ending.length) : IsName (id ++ ending) := by
  have hid := List.length_pos_iff.2 h.ne_nil
  refine ⟨by simp [h.ne_nil], fun hdot => ?_, fun hdotdot => ?_, ?_⟩
  · have hlength := congrArg List.length hdot
    rw [List.length_append, show Path.dot.length = 1 from rfl] at hlength
    omega
  · have hlength := congrArg List.length hdotdot
    rw [List.length_append, show Path.dotdot.length = 2 from rfl] at hlength
    omega
  · rw [List.mem_append]
    exact not_or.2 ⟨h.slash_not_mem, hslash⟩

theorem place_workDir (h : IsName id) :
    place cwd (p.workDir id) = place cwd (p.resolve p.outputDir) ++ [id] :=
  Path.place_join cwd _ h

theorem place_scratch (h : IsName id) {d : Text} (hd : d ∈ p.scratch id) :
    ∃ last, ∀ cwd, place cwd d = place cwd (p.resolve p.outputDir) ++ [id, last] := by
  have hjoin : ∀ last : Text, IsName last → ∀ cwd, place cwd (Path.join [p.workDir id, last]) =
      place cwd (p.resolve p.outputDir) ++ [id, last] := by
    intro last hlast cwd
    rw [Path.place_join cwd _ hlast, place_workDir h, List.append_assoc]
    rfl
  simp only [scratch, List.mem_cons, List.not_mem_nil, or_false] at hd
  rcases hd with rfl | rfl
  · exact ⟨_, hjoin _ (by decide)⟩
  · exact ⟨_, hjoin _ (by decide)⟩

theorem clean_scratch {d : Text} (hd : d ∈ p.scratch id) : Path.clean d = d := by
  simp only [scratch, List.mem_cons, List.not_mem_nil, or_false] at hd
  rcases hd with rfl | rfl
  · exact Path.clean_join _ (by decide)
  · exact Path.clean_join _ (by decide)

theorem mirrorDir_eq (h : IsName id) : p.mirrorDir id = Path.join [p.projectDir, id ++ "-core"] := by
  have hrelative : Path.isAbsolute (id ++ Text.ofString "-core") = false := by
    obtain ⟨b, rest, rfl⟩ := List.exists_cons_of_ne_nil h.ne_nil
    rw [Path.isAbsolute, List.cons_append, List.head?_cons]
    have hb : b ≠ Path.slash := fun hb => h.slash_not_mem (by simp [hb])
    simpa using hb
  rw [mirrorDir, resolve, hrelative, if_neg Bool.false_ne_true]

theorem place_mirrorDir (h : IsName id) :
    place cwd (p.mirrorDir id) = place cwd p.projectDir ++ [id ++ "-core"] := by
  rw [mirrorDir_eq h]
  exact Path.place_join cwd _ (isName_append h (by decide) (by decide))

theorem place_reportPath (h : IsName id) :
    place cwd (p.reportPath id) = place cwd (p.resolve p.dataDir) ++ [id ++ ".json"] :=
  Path.place_join cwd _ (isName_append h (by decide) (by decide))

theorem clean_mirrorDir (h : IsName id) : Path.clean (p.mirrorDir id) = p.mirrorDir id := by
  rw [mirrorDir_eq h]
  exact Path.clean_join _ (isName_append h (by decide) (by decide))

theorem clean_reportPath (h : IsName id) : Path.clean (p.reportPath id) = p.reportPath id :=
  Path.clean_join _ (isName_append h (by decide) (by decide))

theorem scratch_apart (p : Paths) (id : Text) : (p.scratch id).Pairwise Apart := by
  have hjoin : ∀ last : Text, IsName last → ∀ cwd, place cwd (Path.join [p.workDir id, last]) =
      place cwd (p.workDir id) ++ [last] := fun last hlast cwd => Path.place_join cwd _ hlast
  rw [scratch, List.pairwise_pair]
  exact Path.apart_of_place (by decide) _ (hjoin "work" (by decide))
    (hjoin "commit_work" (by decide))

/-- **Different frameworks have places of their own, however the directories are given.**  The scratch
directories of two frameworks are pairwise apart, as are their mirrors and their reports.  On a file
system without links they lead to places apart. -/
theorem frameworks_apart (p : Paths) (h : IsName id) (h' : IsName id') (hne : id ≠ id') :
    ((p.scratch id ++ p.scratch id').Pairwise Apart ∧ Apart (p.mirrorDir id) (p.mirrorDir id') ∧
        Apart (p.reportPath id) (p.reportPath id')) ∧
      ∀ fs : FileSystem, (∀ x target, fs.node? x ≠ some (.link target)) →
        (p.scratch id ++ p.scratch id').Pairwise (LeadApart fs) ∧
          LeadApart fs (p.mirrorDir id) (p.mirrorDir id') ∧
            LeadApart fs (p.reportPath id) (p.reportPath id') := by
  have hending : ∀ ending : Text, id ++ ending ≠ id' ++ ending := fun ending heq =>
    hne (List.append_cancel_right heq)
  have hscratch : (p.scratch id ++ p.scratch id').Pairwise Apart := by
    refine List.pairwise_append.2
      ⟨scratch_apart p id, scratch_apart p id', fun d hd d' hd' => ?_⟩
    obtain ⟨last, hplace⟩ := place_scratch h hd
    obtain ⟨last', hplace'⟩ := place_scratch h' hd'
    exact Path.apart_of_place hne _ hplace hplace'
  have hmirror : Apart (p.mirrorDir id) (p.mirrorDir id') :=
    Path.apart_of_place (hending _) p.projectDir (fun _ => place_mirrorDir h)
      fun _ => place_mirrorDir h'
  have hreport : Apart (p.reportPath id) (p.reportPath id') :=
    Path.apart_of_place (hending _) (p.resolve p.dataDir) (fun _ => place_reportPath h)
      fun _ => place_reportPath h'
  refine ⟨⟨hscratch, hmirror, hreport⟩, fun fs hlinks => ⟨?_, ?_, ?_⟩⟩
  · have hclean : ∀ d ∈ p.scratch id ++ p.scratch id', Path.clean d = d := fun d hd =>
      (List.mem_append.1 hd).elim clean_scratch clean_scratch
    exact hscratch.imp_of_mem fun hd hd' hapart =>
      hapart.leadApart (hclean _ hd) (hclean _ hd') hlinks
  · exact hmirror.leadApart (clean_mirrorDir h) (clean_mirrorDir h') hlinks
  · exact hreport.leadApart (clean_reportPath h) (clean_reportPath h') hlinks

/-- Directories in which nothing is where its text says: the scratch files lie above the current
directory, and the reports in the root. -/
def windingPaths : Paths :=
  { projectDir := "a//./../..", outputDir := "./x/../..", dataDir := "/../y/..//" }

/-- The scratch directories of `a` and `..a` are apart there. -/
theorem frameworks_apart_winding :
    IsName (Text.ofString "a") ∧ IsName (Text.ofString "..a") ∧
      windingPaths.scratch "a" = ["../../a/work", "../../a/commit_work"].map Text.ofString ∧
        windingPaths.reportPath "..a" = Text.ofString "/..a.json" ∧
          (windingPaths.scratch "a" ++ windingPaths.scratch "..a").Pairwise Apart := by
  have h : IsName (Text.ofString "a") := by decide
  have h' : IsName (Text.ofString "..a") := by decide
  exact ⟨h, h', by decide, by decide, (frameworks_apart windingPaths h h' (by decide)).1.1⟩

end Paths

end MetricHistory
