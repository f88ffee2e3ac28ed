import MetricHistory.Config.Problem
import Mathlib.Data.List.Basic

/-!
# Valid configurations

* `Config.Valid` : what a configuration has to be like, said without the list of problems.
* `Config.problems_eq_nil_iff` : **a configuration has no problems exactly when it is valid.**
-/

namespace MetricHistory

namespace Config

variable {c : Config}

/-- A collection can be run with the configuration. -/
structure Valid (c : Config) : Prop where
  exists_framework : c.frameworks ≠ []
  frameworks : ∀ id f, c.framework? id = some f → f.fault? = none
  intervalMonths : 0 < c.history.intervalMonths
  recentDays : 0 < c.history.recentDays
  targetCommits : 0 < c.history.targetCommits
  commandTimeout : 0 < c.git.commandTimeoutMinutes
  archiveTimeout : 0 < c.git.archiveTimeoutMinutes
  deltaTimeout : 0 < c.analyzer.deltaTimeoutSeconds
  fullTimeout : 0 < c.analyzer.fullTimeoutSeconds
  deltaMemoryLimit : Memory.isLimit c.analyzer.deltaMemoryLimit
  fullMemoryLimit : Memory.isLimit c.analyzer.fullMemoryLimit

theorem problemIf_eq_nil_iff {b : Bool} {p : ConfigProblem} : problemIf b p = [] ↔ b = false := by
  cases b <;> simp [problemIf]

theorem mem_frameworkIds {id : Text} : id ∈ c.frameworkIds ↔ id ∈ c.frameworks.map (·.1) := by
  rw [frameworkIds, Text.sort, List.mem_mergeSort]

theorem mem_frameworkIds_of_framework? {id : Text} {f : Framework} (h : c.framework? id = some f) :
    id ∈ c.frameworkIds := by
  obtain ⟨r, hr, -⟩ := Option.map_eq_some_iff.1 h
  obtain ⟨l, l', hl, -⟩ := List.lookup_eq_some_iff.1 hr
  have hmem : (id, r) ∈ c.frameworks := by simp [hl]
  exact mem_frameworkIds.2 (List.mem_map_of_mem (f := (·.1)) hmem)

theorem frameworkProblems_eq_nil_iff :
    c.frameworkProblems = [] ↔ ∀ id f, c.framework? id = some f → f.fault? = none := by
  rw [frameworkProblems, List.filterMap_eq_nil_iff]
  constructor
  · intro h id f hf
    have hid := h id (mem_frameworkIds_of_framework? hf)
    rw [hf] at hid
    cases hfault : f.fault? with
    | none => rfl
    | some fault => simp [hfault] at hid
  · intro h id _
    cases hf : c.framework? id with
    | none => rfl
    | some f => simp [h id f hf]

/-- **A configuration has no problems exactly when it is valid.** -/
theorem problems_eq_nil_iff : c.problems = [] ↔ c.Valid := by
  have hlimits : ∀ limits : List Text,
      ((limits.filter fun l => !Memory.isLimit l).map ConfigProblem.memoryLimit = [] ↔
        ∀ l ∈ limits, Memory.isLimit l = true) := by
    intro limits
    rw [List.map_eq_nil_iff, List.filter_eq_nil_iff]
    simp
  simp only [problems, List.append_eq_nil_iff, problemIf_eq_nil_iff, frameworkProblems_eq_nil_iff,
    hlimits, Bool.or_eq_false_iff, decide_eq_false_iff_not, Int.not_le, List.isEmpty_eq_false_iff,
    List.mem_cons, List.not_mem_nil, or_false, forall_eq_or_imp, forall_eq]
  constructor
  · rintro ⟨⟨⟨⟨⟨⟨⟨hsome, hfaults⟩, hinterval⟩, hdays⟩, htarget⟩, hcommand, harchive⟩, hdelta,
      hfull⟩, hdeltaLimit, hfullLimit⟩
    exact ⟨hsome, hfaults, hinterval, hdays, htarget, hcommand, harchive, hdelta, hfull,
      hdeltaLimit, hfullLimit⟩
  · intro h
    exact ⟨⟨⟨⟨⟨⟨⟨h.exists_framework, h.frameworks⟩, h.intervalMonths⟩, h.recentDays⟩,
      h.targetCommits⟩, h.commandTimeout, h.archiveTimeout⟩, h.deltaTimeout, h.fullTimeout⟩,
      h.deltaMemoryLimit, h.fullMemoryLimit⟩

end Config

end MetricHistory
