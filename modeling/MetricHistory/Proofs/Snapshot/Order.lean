import MetricHistory.Proofs.Snapshot.Run
import MetricHistory.Proofs.Snapshot.Schedule

/-!
# The order of a series

Whatever cannot be measured is left out of a series, so that only some of the scheduled labels
appear in it.  Their order is that of the schedule, and the schedule goes from month to month.

* `Schedule.labels_dates` : the labels of the schedule are those of ascending months up to now;
* `SeriesPlan.kept_sublist` : the scheduled samples carry labels of the schedule, in its order;
* `SeriesPlan.run_ordered` : **the labels of a series ascend, they are labels of the schedule or of
  now, and the newest commit is looked up exactly when no scheduled sample carries the label of
  now.**
-/

namespace MetricHistory

/-! ### The labels of the schedule -/

namespace Schedule

open Date (firstOfMonth)

/-- The label of a month. -/
def monthLabel (m : Int) : Text := (firstOfMonth m).yearMonth

theorem label_eq_monthLabel (t : Time) : Snapshot.label t = monthLabel (monthNumber t.date) :=
  Date.yearMonth_ofDays _

variable (anchor now : Time) (months : Int)

theorem label_date (k : Nat) :
    Snapshot.label (date anchor months k) = monthLabel (month anchor months k) := by
  rw [label_eq_monthLabel, Time.date, date, clockSeconds_midnight,
    Int.mul_ediv_cancel _ (by norm_num), Date.monthNumber_ofDays_first]

/-- The labels of the schedule are those of ascending months from the anchor's year up to now. -/
theorem labels_dates (hzone : now.offset = anchor.offset) :
    ∃ ms : List Int, ms.Pairwise (· < ·) ∧
      (∀ m ∈ ms, anchor.date.year * 12 ≤ m ∧ m ≤ monthNumber now.date) ∧
      (dates anchor now months).map Snapshot.label = ms.map monthLabel := by
  set n := bound anchor now months with hn
  refine ⟨(List.range n).map (month anchor months), ?_, ?_, ?_⟩
  · exact List.pairwise_lt_range.map _ fun _ _ h => month_lt_month anchor months h
  · intro m hm
    obtain ⟨k, hk, rfl⟩ := List.mem_map.1 hm
    have hdue := (date_after_eq_false_iff anchor now months).2 (List.mem_range.1 hk)
    refine ⟨?_, ?_⟩
    · have := Int.mul_nonneg (Int.natCast_nonneg k) (interval_pos months).le
      unfold month
      omega
    · have hle := (first_after_eq_false_iff anchor now).1 hdue
      rwa [← hzone] at hle
  · rw [dates_eq, ← hn, List.map_map, List.map_map]
    exact List.map_congr_left fun k _ => label_date anchor months k

theorem monthLabel_pairwise {ms : List Int} (h : ms.Pairwise (· < ·))
    (hms : ∀ m ∈ ms, 0 ≤ m ∧ m < 120000) : (ms.map monthLabel).Pairwise Text.Before := by
  refine List.Pairwise.map _ (R := fun m n => (0 ≤ m ∧ m < n) ∧ n < 120000) (fun m n h => ?_) ?_
  · exact Date.yearMonth_before h.1.1 h.1.2 h.2
  · exact h.imp_of_mem fun hm hn hlt => ⟨⟨(hms _ hm).1, hlt⟩, (hms _ hn).2⟩

theorem monthLabel_inj {m n : Int} (hm : 0 ≤ m ∧ m < 120000) (hn : 0 ≤ n ∧ n < 120000)
    (h : monthLabel m = monthLabel n) : m = n := by
  rcases lt_trichotomy m n with hlt | heq | hgt
  · exact absurd h (Date.yearMonth_before hm.1 hlt hn.2).2
  · exact heq
  · exact absurd h.symm (Date.yearMonth_before hn.1 hgt hm.2).2

theorem monthNumber_date_lt {t : Time} (h : t.date.year ≤ 9999) : monthNumber t.date < 120000 := by
  have := (Date.month_ofDays (t.clockSeconds / 86400)).2
  unfold monthNumber Time.date at *
  omega

end Schedule

/-! ### The samples of a series -/

namespace SeriesPlan

open MetricHistory.Action (Leads)
open Schedule (monthLabel monthNumber)

variable {σ : Type} (p : SeriesPlan σ) {hook : ProgressHook σ}

/-- `heads` counts how often the newest commit is looked up: nothing else raises it. -/
structure CountsHeads (hook : ProgressHook σ) (heads : σ → Nat) : Prop where
  head : ∀ w, heads (p.repository.head.run w).2.outside = heads w.outside + 1
  resolve : ∀ date w, heads ((p.repository.resolve date).run w).2.outside = heads w.outside
  exportFull : ∀ hash dest w,
    heads ((p.repository.exportFull hash dest).run w).2.outside = heads w.outside
  measureFull : ∀ dir w, heads ((p.measurer.measureFull dir).run w).2.outside = heads w.outside
  hook : ∀ done total label w, heads ((hook done total label).run w).2.outside = heads w.outside

/-- The steps of a series other than looking up the newest commit keep `J`. -/
structure Keeps (hook : ProgressHook σ) (J : σ → Prop) : Prop where
  resolve : ∀ date w, J w.outside → J ((p.repository.resolve date).run w).2.outside
  exportFull : ∀ hash dest w,
    J w.outside → J ((p.repository.exportFull hash dest).run w).2.outside
  measureFull : ∀ dir w, J w.outside → J ((p.measurer.measureFull dir).run w).2.outside
  hook : ∀ done total label w, J w.outside → J ((hook done total label).run w).2.outside

variable {p} in
theorem CountsHeads.keeps {heads : σ → Nat} (h : p.CountsHeads hook heads) (n : Nat) :
    p.Keeps hook fun x => heads x = n where
  resolve _ _ hw := (h.resolve _ _).trans hw
  exportFull _ _ _ hw := (h.exportFull _ _ _).trans hw
  measureFull _ _ hw := (h.measureFull _ _).trans hw
  hook _ _ _ _ hw := (h.hook _ _ _ _).trans hw

/-- The sample carries the label. -/
def Labeled (label : Text) (s : Option Snapshot) : Prop := ∀ x ∈ s, x.date = label

theorem labels_sublist {ts : List Time} {outs : List (Option Snapshot)}
    (h : List.Forall₂ (fun t => Labeled (Snapshot.label t)) ts outs) :
    ((outs.flatMap Option.toList).map Snapshot.date).Sublist (ts.map Snapshot.label) := by
  induction h with
  | nil => exact .slnil
  | @cons t s ts outs hs _ ih =>
    rcases s with _ | x
    · exact ih.cons _
    · rw [List.flatMap_cons, Option.toList_some, List.singleton_append, List.map_cons, List.map_cons,
        hs x rfl]
      exact ih.cons_cons _

section Labels

variable {p} {J : σ → Prop} (hkeeps : p.Keeps hook J) {label hash : Text} {fields : LogFields}
include hkeeps

omit hkeeps in
theorem cached_outside (key : Text) (w : World σ) :
    ((p.cached key).run w).2.outside = w.outside := by
  rw [cached]
  split <;> rfl

omit hkeeps in
theorem store_outside (key : Text) (s : Snapshot) (w : World σ) :
    ((p.store key s fields).run w).2.outside = w.outside := by
  rcases hcache : p.cache with _ | ⟨c, fingerprint⟩
  · rw [store, hcache]
    rfl
  · exact p.store_leads (I := fun v => v.outside = w.outside) hcache (fun _ _ hv => hv)
      (fun _ _ _ hv => hv) w rfl

theorem measure_labeled :
    Leads (fun w => J w.outside) (p.measure label hash fields) fun s w =>
      J w.outside ∧ Labeled label s := by
  refine p.measure_leads (E := fun w => J w.outside) (fun _ _ hw => hw) ?_ ?_ ?_
  · intro w hw
    have hJ := hkeeps.exportFull hash p.workDir w hw
    split
    · exact hJ
    · exact ⟨hJ, by simp [Labeled]⟩
  · exact fun w hw _ => ⟨hw, by simp [Labeled]⟩
  · intro w hw
    refine ⟨hkeeps.measureFull _ w hw.1, ?_⟩
    split
    · simp [Labeled, Snapshot.ofDocument]
    · simp [Labeled]

theorem sample_labeled :
    Leads (fun w => J w.outside) (p.sample label hash) fun s w =>
      J w.outside ∧ Labeled label s := by
  refine p.sample_leads (fun _ _ hw => hw) (fun w hw => ?_) (measure_labeled hkeeps)
    (fun s _ w hw => ?_) (fun _ hs => hs)
  · refine ⟨?_, fun s _ => by simp [Labeled]⟩
    rwa [cached_outside]
  · simpa only [store_outside] using hw

theorem sampleAt_labeled (date : Time) :
    Leads (fun w => J w.outside) (p.sampleAt date) fun s w =>
      J w.outside ∧ Labeled (Snapshot.label date) s :=
  p.sampleAt_leads (A := fun _ => True) (fun _ _ hw => hw)
    (fun w hw => ⟨hkeeps.resolve date w hw, trivial⟩) (fun _ _ => sample_labeled hkeeps)
    (fun _ _ => by simp [Labeled])

theorem runSchedule_labeled :
    Leads (fun w => J w.outside) (p.runSchedule hook) fun r w =>
      J w.outside ∧ (r.1.map Snapshot.date).Sublist (p.dates.map Snapshot.label) := by
  refine (p.runSchedule_leads (I := fun w => J w.outside)
    (R := fun t => Labeled (Snapshot.label t)) (fun _ _ hw => hw)
    (fun done total label w hw => hkeeps.hook done total label w hw)
    (fun t _ => sampleAt_labeled hkeeps t)).weaken ?_
  rintro r w ⟨hw, -, outs, hsampled⟩
  refine ⟨hw, ?_⟩
  rw [hsampled.series, List.nil_append]
  exact (labels_sublist hsampled.samples).trans ((List.take_sublist _ _).map _)

/-- The present is sampled under its own label, and only when it is due. -/
theorem runHead_labeled {K : σ → Prop} (taken : List Snapshot) (total : Nat)
    (hdue : p.headIsDue taken = true → ∀ w, K w.outside → J (p.repository.head.run w).2.outside)
    (hskip : p.headIsDue taken = false → ∀ x, K x → J x) :
    Leads (fun w => K w.outside) (p.runHead total hook taken) fun r w =>
      J w.outside ∧ ∃ s, (Labeled (Snapshot.label p.now) s ∧
        (p.headIsDue taken = false → s = none)) ∧ r.1 = taken ++ s.toList := by
  refine (p.runHead_leads (R := fun s => Labeled (Snapshot.label p.now) s ∧
    (p.headIsDue taken = false → s = none)) (J := fun w => J w.outside)
    (fun done label w hw => hkeeps.hook done total label w hw) (fun htrue => ?_)
    (fun hfalse w hw => ⟨hskip hfalse _ hw, by simp [Labeled], fun _ => rfl⟩)).weaken
    fun r w h => ⟨h.1, h.2.1⟩
  refine (p.sampleHead_leads (I := fun w => J w.outside) (R := Labeled (Snapshot.label p.now))
    (A := fun _ => True) (fun _ _ hw => hw) (fun w hw => ⟨hdue htrue w hw, trivial⟩)
    (fun _ _ => sample_labeled hkeeps) (fun _ _ => by simp [Labeled])).weaken ?_
  exact fun s w h => ⟨h.1, h.2, fun hfalse => by simp [htrue] at hfalse⟩

end Labels

section Months

variable {p} {taken : List Snapshot} {ms : List Int}
  (hlabels : taken.map Snapshot.date = ms.map monthLabel)
  (hms : ∀ m ∈ ms, 0 ≤ m ∧ m ≤ monthNumber p.now.date) (hnow : monthNumber p.now.date < 120000)
include hlabels hms hnow

/-- A sample carries the label of now when it is one of the present month. -/
theorem exists_label_now_iff :
    (∃ s ∈ taken, s.date = Snapshot.label p.now) ↔ monthNumber p.now.date ∈ ms := by
  have hmem : (∃ s ∈ taken, s.date = Snapshot.label p.now) ↔
      ∃ m ∈ ms, monthLabel m = monthLabel (monthNumber p.now.date) := by
    rw [← Schedule.label_eq_monthLabel, ← List.mem_map, ← List.mem_map, hlabels]
  rw [hmem]
  constructor
  · rintro ⟨m, hm, heq⟩
    have hm' := hms m hm
    rwa [← Schedule.monthLabel_inj (by omega) (by omega) heq]
  · exact fun h => ⟨_, h, rfl⟩

/-- Months ascend: if any sample carries the label of now, the last one does. -/
theorem headIsDue_iff (hsorted : ms.Pairwise (· < ·)) :
    p.headIsDue taken = true ↔ monthNumber p.now.date ∉ ms := by
  have hlast : taken.getLast?.map Snapshot.date = ms.getLast?.map monthLabel := by
    rw [← List.getLast?_map, hlabels, List.getLast?_map]
  rcases List.eq_nil_or_concat ms with rfl | ⟨front, last, rfl⟩
  · obtain rfl : taken = [] := by simpa using hlabels
    simp [headIsDue]
  simp only [List.concat_eq_append] at *
  obtain ⟨s, hs, hdate⟩ : ∃ s, taken.getLast? = some s ∧ s.date = monthLabel last := by
    simpa using hlast
  have hbound := hms last (by simp)
  have hcarries : s.date = Snapshot.label p.now ↔ last = monthNumber p.now.date := by
    rw [hdate, Schedule.label_eq_monthLabel]
    exact ⟨Schedule.monthLabel_inj (by omega) (by omega), fun h => by rw [h]⟩
  rw [headIsDue, hs]
  simp only [bne_iff_ne, ne_eq, hcarries, List.mem_append, List.mem_singleton]
  refine ⟨fun hne hmem => ?_, fun hmem heq => hmem (.inr heq.symm)⟩
  rcases hmem with hfront | heq
  · have := (List.pairwise_append.1 hsorted).2.2 _ hfront last (by simp)
    omega
  · exact hne heq.symm

end Months

/-- The scheduled samples are those of some months of the schedule. -/
theorem months_runSchedule (hook : ProgressHook σ) (w : World σ)
    (hzone : p.now.offset = p.anchor.offset) (hfirst : 0 ≤ p.anchor.date.year) :
    ∃ ms : List Int, ((p.runSchedule hook).run w).1.1.map Snapshot.date = ms.map monthLabel ∧
      ms.Pairwise (· < ·) ∧ (∀ m ∈ ms, 0 ≤ m ∧ m ≤ monthNumber p.now.date) ∧
      ∀ m ∈ ms, ∃ t ∈ p.dates, monthLabel m = Snapshot.label t := by
  have hkeeps : p.Keeps hook fun _ => True := by constructor <;> intros <;> trivial
  have hsub := (runSchedule_labeled hkeeps w trivial).2
  obtain ⟨all, hsorted, hall, hlabels⟩ :=
    Schedule.labels_dates p.anchor p.now p.interval hzone
  rw [dates, hlabels, List.sublist_map_iff] at hsub
  obtain ⟨ms, hms, heq⟩ := hsub
  refine ⟨ms, heq, hsorted.sublist hms, fun m hm => ?_, fun m hm => ?_⟩
  · have := hall m (hms.subset hm)
    omega
  · have hmem : monthLabel m ∈ p.dates.map Snapshot.label := by
      rw [dates, hlabels]
      exact List.mem_map_of_mem (hms.subset hm)
    obtain ⟨t, ht, hlabel⟩ := List.mem_map.1 hmem
    exact ⟨t, ht, hlabel.symm⟩

theorem run_series (hook : ProgressHook σ) (w : World σ) :
    let taken := ((p.runSchedule hook).run w).1.1
    ∃ head?, Labeled (Snapshot.label p.now) head? ∧ (p.headIsDue taken = false → head? = none) ∧
      ((p.run hook).run w).1.1 = taken ++ head?.toList := by
  have hkeeps : p.Keeps hook fun _ => True := by constructor <;> intros <;> trivial
  rw [p.run_run]
  rcases (p.runSchedule hook).run w with ⟨⟨taken, _ | f⟩, v⟩
  · obtain ⟨-, head?, ⟨hlabel, hskip⟩, hseries⟩ := runHead_labeled hkeeps
      (K := fun _ => True) taken (p.dates.length + 1) (fun _ _ _ => trivial) (fun _ _ _ => trivial) v
      trivial
    exact ⟨head?, hlabel, hskip, hseries⟩
  · exact ⟨none, by simp [Labeled], fun _ => rfl, by simp [runPresent]; rfl⟩

theorem heads_run {heads : σ → Nat} (hcounts : p.CountsHeads hook heads) (w : World σ)
    (h : ((p.run hook).run w).1.2 = none) :
    heads ((p.run hook).run w).2.outside = heads w.outside +
      if p.headIsDue ((p.runSchedule hook).run w).1.1 = true then 1 else 0 := by
  have hscheduled := (runSchedule_labeled (hcounts.keeps (heads w.outside)) w rfl).1
  rw [p.run_run] at h ⊢
  simp only [cleanUp_outside]
  rcases hs : (p.runSchedule hook).run w with ⟨⟨taken, _ | f⟩, v⟩
  · rw [hs] at hscheduled
    refine (runHead_labeled (hcounts.keeps _) (K := fun x => heads x = heads w.outside) taken _
      (fun hdue v hv => ?_) (fun hdue x hx => ?_) v hscheduled).1
    · rw [hcounts.head, hv, if_pos hdue]
    · simp [hx, hdue]
  · rw [hs] at h
    cases h

/-- **The labels of a series ascend, they are labels of the schedule or of now, and the newest
commit is looked up, to be sampled under the label of now, exactly when no scheduled sample carries
that label.**  The last part is about runs that were not called off. -/
theorem run_ordered (hook : ProgressHook σ) (w : World σ)
    (hzone : p.now.offset = p.anchor.offset) (hfirst : 0 ≤ p.anchor.date.year)
    (hlast : p.now.date.year ≤ 9999) :
    let scheduled := (p.runSchedule hook).run w
    let result := (p.run hook).run w
    (result.1.1.map Snapshot.date).Pairwise Text.Before ∧
      (∀ s ∈ result.1.1,
        (∃ t ∈ p.dates, s.date = Snapshot.label t) ∨ s.date = Snapshot.label p.now) ∧
      (result.1.2 = none →
        (∃ head?, Labeled (Snapshot.label p.now) head? ∧
          result.1.1 = scheduled.1.1 ++ head?.toList) ∧
        ∀ heads : σ → Nat, p.CountsHeads hook heads →
          heads result.2.outside = heads w.outside +
            if ∃ s ∈ scheduled.1.1, s.date = Snapshot.label p.now then 0 else 1) := by
  have hnow := Schedule.monthNumber_date_lt hlast
  obtain ⟨ms, hlabels, hsorted, hms, hdates⟩ := p.months_runSchedule hook w hzone hfirst
  have hdue := headIsDue_iff hlabels hms hnow hsorted
  have hcarry := exists_label_now_iff hlabels hms hnow
  obtain ⟨head?, hhead, hskip, hseries⟩ := p.run_series hook w
  intro scheduled result
  refine ⟨?_, fun s hs => ?_, fun hnone => ⟨⟨head?, hhead, hseries⟩, fun heads hcounts => ?_⟩⟩
  · have hkept : (ms.map monthLabel).Pairwise Text.Before :=
      Schedule.monthLabel_pairwise hsorted fun m hm => ⟨(hms m hm).1, (hms m hm).2.trans_lt hnow⟩
    rw [hseries, List.map_append, hlabels]
    refine List.pairwise_append.2 ⟨hkept, by cases head? <;> simp, fun a ha b hb => ?_⟩
    obtain ⟨m, hm, rfl⟩ := List.mem_map.1 ha
    obtain ⟨x, hx, rfl⟩ := List.mem_map.1 hb
    rw [Option.mem_toList] at hx
    -- the present is only sampled when its month is not among those before
    have hnew : monthNumber p.now.date ∉ ms := by
      refine hdue.1 (Bool.eq_true_of_not_eq_false fun hfalse => ?_)
      rw [hskip hfalse] at hx
      cases hx
    rw [hhead x hx, Schedule.label_eq_monthLabel]
    exact Date.yearMonth_before (hms m hm).1 ((hms m hm).2.lt_of_ne fun h => hnew (h ▸ hm)) hnow
  · rw [hseries] at hs
    rcases List.mem_append.1 hs with hs | hs
    · obtain ⟨m, hm, hdate⟩ := List.mem_map.1 (hlabels ▸ List.mem_map_of_mem (f := Snapshot.date) hs)
      obtain ⟨t, ht, hlabel⟩ := hdates m hm
      exact .inl ⟨t, ht, hdate.symm.trans hlabel⟩
    · exact .inr (hhead s (by simpa using hs))
  · rw [p.heads_run hcounts w hnone]
    simp only [hdue, ite_not]
    exact congrArg _ (if_congr hcarry.symm rfl rfl)

/-- A history with commits from February on, which counts how often its newest one is looked
up. -/
def countingHistory : Repository Nat where
  head := fun w => (.ok "b1", { w with outside := w.outside + 1 })
  resolve date := if date.date.month = 1 then throw .noCommit else pure "a0"
  commitsSince _ := pure []
  commitsPerYear := pure []
  commitsPerMonth := pure []
  parent _ := throw .noParent
  changedFiles _ _ := pure []
  exportFull _ _ := pure ()
  exportSparse _ _ _ := pure 0

/-- January and July are scheduled, and it is August. -/
def countingPlan : SeriesPlan Nat where
  framework := "fw"
  repository := countingHistory
  measurer := {
    measureFull := fun _ => pure
      { production := ⟨0, 0, 0, 0, "{}"⟩, testLoc := 0, surfaceArea := [], surfaceAreaLists := [],
        antipatterns := [], hotspots := [] }
    measure := fun _ => pure .empty }
  anchor := Time.midnight 0 ⟨2024, 1, 1⟩
  now := Time.midnight 0 ⟨2024, 8, 15⟩
  subdir := []
  workDir := "/scratch"

/-- The scratch directory is there already. -/
def countingWorld : World Nat where
  files := { nodes := [(["scratch"], .dir)] }
  outside := 0

theorem countsHeads_counting : countingPlan.CountsHeads .none id where
  head _ := rfl
  resolve date w := by
    rcases decEq date.date.month 1 with h | h <;> simp [countingPlan, countingHistory, h] <;> rfl
  exportFull _ _ _ := rfl
  measureFull _ _ := rfl
  hook _ _ _ _ := rfl

/-- January is missing, and the newest commit follows July under the label of August. -/
theorem run_ordered_counting :
    let result := (countingPlan.run .none).run countingWorld
    (countingPlan.now.offset = countingPlan.anchor.offset ∧
      0 ≤ countingPlan.anchor.date.year ∧ countingPlan.now.date.year ≤ 9999) ∧
      result.1.1.map Snapshot.date = ["2024-07", "2024-08"] ∧
      (result.1.1.map Snapshot.date).Pairwise Text.Before ∧ result.2.outside = 1 := by
  have hdates : ((countingPlan.run .none).run countingWorld).1.1.map Snapshot.date =
      ["2024-07", "2024-08"] := by cbv
  have hkept : ∀ s ∈ ((countingPlan.runSchedule .none).run countingWorld).1.1,
      s.date ≠ Snapshot.label countingPlan.now := by
    intro s hs
    have hmem : s.date ∈ [Text.ofString "2024-07"] := by
      rw [show [Text.ofString "2024-07"] =
        ((countingPlan.runSchedule .none).run countingWorld).1.1.map Snapshot.date by cbv]
      exact List.mem_map_of_mem hs
    rw [List.mem_singleton.1 hmem]
    decide
  obtain ⟨hordered, -, hheads⟩ := run_ordered countingPlan .none countingWorld rfl (by decide)
    (by decide)
  have hcount := (hheads (by cbv)).2 id countsHeads_counting
  rw [if_neg (by simpa using hkept)] at hcount
  exact ⟨⟨rfl, by decide, by decide⟩, hdates, hordered, hcount⟩

end SeriesPlan

end MetricHistory
