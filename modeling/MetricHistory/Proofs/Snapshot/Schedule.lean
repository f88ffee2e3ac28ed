import MetricHistory.Proofs.Calendar.Notation

/-!
# The schedule in closed form

The schedule is walked with a year and a month, and the months that lead beyond December are
carried over to the year.  The pair stands for the number of a month, and each round of the walk
adds the cadence to that number.

* `Schedule.Walk` : the walk without a limit on its rounds, and `Schedule.walk_eq_some_iff` : a limit
  does not change what it finds;
* `Schedule.exists_count` : some number of samples is due, and it is within `Schedule.bound`;
* `Schedule.dates_closed` : **the walk ends, and it finds the first days of every so many months,
  exactly those that do not lie after now.**
-/

namespace MetricHistory

namespace Date

theorem ofDays_first (m : Int) : ofDays (firstOfMonth m).toDays = firstOfMonth m := by
  obtain ⟨h₁, h₂⟩ := month_ofDays (firstOfMonth m).toDays
  have hday := day_ofDays (firstOfMonth m).toDays
  have hmonth := firstOfMonth_monthNumber h₁ h₂
  rw [monthNumber_ofDays_first] at hday hmonth
  have hone : (ofDays (firstOfMonth m).toDays).day = 1 := by omega
  calc ofDays (firstOfMonth m).toDays
      = ⟨(ofDays (firstOfMonth m).toDays).year, (ofDays (firstOfMonth m).toDays).month,
          (ofDays (firstOfMonth m).toDays).day⟩ := rfl
    _ = firstOfMonth m := by rw [hone]; exact hmonth.symm

end Date

namespace Schedule

open Date (firstOfMonth)

theorem interval_pos (months : Int) : 0 < interval months := by
  unfold interval defaultInterval
  split <;> omega

/-! ### The order of sampling times -/

section Dates

variable (anchor now : Time) (months : Int)

/-- The month of the `k`-th sampling time. -/
def month (k : Nat) : Int := anchor.date.year * 12 + k * interval months

/-- The `k`-th sampling time. -/
def date (k : Nat) : Time := Time.midnight anchor.offset (firstOfMonth (month anchor months k))

theorem month_lt_month {j k : Nat} (h : j < k) : month anchor months j < month anchor months k := by
  have hstep : (j : Int) * interval months < k * interval months :=
    Int.mul_lt_mul_of_pos_right (by omega) (interval_pos months)
  unfold month
  omega

theorem clockSeconds_midnight (offset : Int) (d : Date) :
    (Time.midnight offset d).clockSeconds = d.toDays * 86400 := by
  simp only [Time.midnight, Time.clockSeconds]
  omega

theorem date_shows (k : Nat) :
    (date anchor months k).date = firstOfMonth (month anchor months k) ∧
      (date anchor months k).clock = (0, 0, 0) := by
  rw [Time.date, Time.clock, date, clockSeconds_midnight, Int.mul_ediv_cancel _ (by norm_num),
    Int.mul_emod_left, Date.ofDays_first]
  exact ⟨rfl, rfl⟩

theorem date_after_date {j k : Nat} (h : j < k) :
    (date anchor months k).after (date anchor months j) = true := by
  have hdays := Date.toDays_first_lt (month_lt_month anchor months h)
  have hseconds : (date anchor months j).seconds < (date anchor months k).seconds := by
    simp only [date, Time.midnight]
    omega
  simp [Time.after, hseconds]

theorem midnight_after_eq_false_iff {offset : Int} {d : Date} :
    (Time.midnight offset d).after now = false ↔ d.toDays * 86400 ≤ now.seconds + offset := by
  have hnanos : ¬ now.nanos < (Time.midnight offset d).nanos := Nat.not_lt_zero _
  rw [Time.after, decide_eq_false hnanos, Bool.and_false, Bool.or_false, decide_eq_false_iff_not,
    not_lt]
  simp only [Time.midnight]
  omega

theorem first_after_eq_false_iff {m : Int} :
    (Time.midnight anchor.offset (firstOfMonth m)).after now = false ↔
      m ≤ monthNumber { now with offset := anchor.offset }.date := by
  rw [midnight_after_eq_false_iff, Time.date, Date.le_monthNumber_iff]
  simp only [Time.clockSeconds]
  omega

theorem date_after_eq_false_iff {k : Nat} :
    (date anchor months k).after now = false ↔ k < bound anchor now months := by
  have hpos := interval_pos months
  set last := monthNumber { now with offset := anchor.offset }.date with hlast
  calc (date anchor months k).after now = false
      ↔ month anchor months k ≤ last := first_after_eq_false_iff anchor now
    _ ↔ (k : Int) * interval months ≤ last - anchor.date.year * 12 := by
      unfold month
      omega
    _ ↔ (k : Int) ≤ (last - anchor.date.year * 12) / interval months :=
      (Int.le_ediv_iff_mul_le hpos).symm
    _ ↔ k < bound anchor now months := by
      rw [bound, ← hlast]
      omega

end Dates

/-! ### The walk -/

/-- A year and a month stand for the number of a month. -/
def numberOf (p : Int × Int) : Int := p.1 * 12 + (p.2 - 1)

theorem carry_spec (year : Int) {month : Int} (h : 1 ≤ month) :
    numberOf (carry year month) = numberOf (year, month) ∧
      1 ≤ (carry year month).2 ∧ (carry year month).2 ≤ 12 := by
  fun_induction carry year month with
  | case1 year month hlarge ih =>
    obtain ⟨hnumber, hrange⟩ := ih (by omega)
    refine ⟨?_, hrange⟩
    rw [hnumber]
    simp only [numberOf]
    omega
  | case2 year month hsmall => exact ⟨rfl, h, by simpa using hsmall⟩

variable {anchor now : Time} {step : Int}

/-- The walk without a limit on its rounds. -/
inductive Walk (anchor now : Time) (step : Int) : Int × Int → List Time → Prop
  | stop {year month : Int} (h : (first anchor year month).after now = true) :
    Walk anchor now step (year, month) []
  | next {year month : Int} {ts : List Time} (h : (first anchor year month).after now = false)
      (rest : Walk anchor now step (carry year (month + step)) ts) :
    Walk anchor now step (year, month) (first anchor year month :: ts)

/-- **A limit does not change what the walk finds**, and suffices as soon as it exceeds the number
of times. -/
theorem walk_eq_some_iff {rounds : Nat} {p : Int × Int} {ts : List Time} :
    walk anchor now step rounds p = some ts ↔ Walk anchor now step p ts ∧ ts.length < rounds := by
  induction rounds generalizing p ts with
  | zero => simp [walk]
  | succ rounds ih =>
    obtain ⟨year, month⟩ := p
    rw [walk]
    cases hafter : (first anchor year month).after now with
    | true =>
      simp only [if_true, Option.some.injEq]
      constructor
      · rintro rfl
        exact ⟨.stop hafter, Nat.succ_pos rounds⟩
      · rintro ⟨_ | ⟨hnot, -⟩, -⟩
        · rfl
        · rw [hafter] at hnot
          cases hnot
    | false =>
      simp only [Bool.false_eq_true, if_false, Option.map_eq_some_iff, ih]
      constructor
      · rintro ⟨rest, ⟨hrest, hlength⟩, rfl⟩
        exact ⟨.next hafter hrest, Nat.succ_lt_succ hlength⟩
      · rintro ⟨hstop | ⟨-, hrest⟩, hlength⟩
        · rw [hafter] at hstop
          cases hstop
        · exact ⟨_, ⟨hrest, Nat.lt_of_succ_lt_succ hlength⟩, rfl⟩

/-- The walk finds one list of times only. -/
theorem Walk.unique {p : Int × Int} {ts ts' : List Time} (h : Walk anchor now step p ts)
    (h' : Walk anchor now step p ts') : ts = ts' := by
  -- a limit that suffices for both
  have hts := walk_eq_some_iff.2 ⟨h, Nat.lt_add_right ts'.length (Nat.lt_succ_self ts.length)⟩
  have hts' := walk_eq_some_iff.2
    ⟨h', show ts'.length < ts.length + 1 + ts'.length by omega⟩
  exact Option.some.inj (hts.symm.trans hts')

/-- A walk that stands at the month of the `j`-th sampling time finds it and all others that are
due. -/
theorem walk_of_month (months : Int) {j n : Nat} {p : Int × Int}
    (hp : numberOf p = month anchor months j) (hmonth : 1 ≤ p.2)
    (hn : j + n = max j (bound anchor now months)) :
    Walk anchor now (interval months) p ((List.range' j n).map (date anchor months)) := by
  induction n generalizing j p with
  | zero =>
    obtain ⟨year, m⟩ := p
    have hfirst : first anchor year m = date anchor months j :=
      congrArg (fun i => Time.midnight anchor.offset (firstOfMonth i)) hp
    -- all samples that are due have been found
    have hover : ¬ j < bound anchor now months := by omega
    refine .stop (Bool.eq_true_of_not_eq_false fun hdue => hover ?_)
    rw [hfirst] at hdue
    exact (date_after_eq_false_iff anchor now months).1 hdue
  | succ n ih =>
    obtain ⟨year, m⟩ := p
    have hfirst : first anchor year m = date anchor months j :=
      congrArg (fun i => Time.midnight anchor.offset (firstOfMonth i)) hp
    have hdue : (first anchor year m).after now = false := by
      rw [hfirst]
      exact (date_after_eq_false_iff anchor now months).2 (by omega)
    -- one round adds the cadence to the number of the month
    have hlater : 1 ≤ m + interval months := le_add_of_le_of_nonneg hmonth (interval_pos months).le
    obtain ⟨hcarry, hcalendar, -⟩ := carry_spec year hlater
    have hnext : numberOf (carry year (m + interval months)) = month anchor months (j + 1) := by
      rw [hcarry]
      unfold month at hp ⊢
      unfold numberOf at hp ⊢
      push_cast
      rw [add_mul]
      omega
    have hrest := ih hnext hcalendar (by omega)
    have hwalk := Walk.next hdue hrest
    rwa [hfirst] at hwalk

/-- **The walk ends**, after as many rounds as there are samples and one more. -/
theorem walk_dates (anchor now : Time) (months : Int) :
    Walk anchor now (interval months) (anchor.date.year, 1)
      ((List.range (bound anchor now months)).map (date anchor months)) := by
  rw [List.range_eq_range']
  refine walk_of_month months ?_ le_rfl (by omega)
  simp [numberOf, month]

theorem dates_eq (anchor now : Time) (months : Int) :
    dates anchor now months = (List.range (bound anchor now months)).map (date anchor months) := by
  have hwalk := walk_eq_some_iff.2 ⟨walk_dates anchor now months,
    show _ < bound anchor now months + 1 by simp⟩
  rw [dates, hwalk, Option.getD_some]

/-- **The schedule in closed form.**  The walk ends, with whatever time that is now.  The `k`-th
time it finds is midnight, on the anchor's clock, of the first day of the month that lies `k`
cadences after January of the anchor's year.  The times ascend, and exactly those that do not lie
after now are found. -/
theorem dates_closed (anchor now : Time) (months : Int) :
    let cadence : Int := if months ≤ 0 then 6 else months
    let start (k : Nat) : Date := firstOfMonth (anchor.date.year * 12 + k * cadence)
    let sample (k : Nat) : Time := Time.midnight anchor.offset (start k)
    (∃ n, dates anchor now months = (List.range n).map sample ∧
        ∀ k, (sample k).after now = false ↔ k < n) ∧
      (∀ ts, Walk anchor now cadence (anchor.date.year, 1) ts ↔ ts = dates anchor now months) ∧
      (dates anchor now months).Pairwise (fun s t => t.after s = true) ∧
      ∀ k, (sample k).date = start k ∧ (sample k).clock = (0, 0, 0) := by
  intro cadence start sample
  have hdates := dates_eq anchor now months
  refine ⟨⟨bound anchor now months, hdates, fun k => date_after_eq_false_iff anchor now months⟩,
    fun ts => ?_, ?_, date_shows anchor months⟩
  · have hwalk := walk_dates anchor now months
    rw [← hdates] at hwalk
    exact ⟨fun h => h.unique hwalk, fun h => h ▸ hwalk⟩
  · rw [hdates]
    exact List.pairwise_lt_range.map _ fun j k h => date_after_date anchor months h

end Schedule

end MetricHistory
