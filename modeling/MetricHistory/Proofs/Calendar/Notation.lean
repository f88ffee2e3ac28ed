import MetricHistory.Proofs.Calendar.Months
import MetricHistory.Proofs.Json.Grammar

/-!
# Times are read back from their notation

* `Date.toDays_ofDays` and `Date.isValid_ofDays` : the date with the number of a day is a date of
  the calendar, and the day is found from it again;
* `Date.digits?_padded` : a number of fixed width is read from the front of a text;
* `Time.parse?_clockText` : what a clock shows, followed by a zone, is read as the time;
* `Time.parse?_rfc3339` : **a time with a year of four digits and an offset in minutes of less than
  a day is read back from its RFC 3339 notation.**
-/

namespace MetricHistory

open Literal (Digits)

/-! ### Days -/

namespace Date

open Schedule (monthNumber)

theorem firstOfMonth_monthNumber {d : Date} (h₁ : 1 ≤ d.month) (h₂ : d.month ≤ 12) :
    firstOfMonth (monthNumber d) = ⟨d.year, d.month, 1⟩ := by
  have hyear : (d.year * 12 + ((d.month : Int) - 1)) / 12 = d.year := by omega
  have hmonth : ((d.year * 12 + ((d.month : Int) - 1)) % 12).toNat + 1 = d.month := by omega
  rw [firstOfMonth, monthNumber, hyear, hmonth]

theorem toDays_eq_first {d : Date} (h₁ : 1 ≤ d.month) (h₂ : d.month ≤ 12) :
    d.toDays = (firstOfMonth (monthNumber d)).toDays + d.day - 1 := by
  rw [firstOfMonth_monthNumber h₁ h₂]
  simp only [toDays]
  omega

theorem isLeap_iff (y : Int) : isLeap y = true ↔ y % 4 = 0 ∧ (y % 100 ≠ 0 ∨ y % 400 = 0) := by
  simp [isLeap]

theorem yearStart_succ (y : Int) :
    yearStart (y + 1) = yearStart y + 337 + daysIn (y + 1) 2 := by
  have hleap := isLeap_iff (y + 1)
  unfold yearStart
  rw [daysIn, if_pos rfl]
  split
  · have := hleap.1 ‹_›
    omega
  · have := mt hleap.2 ‹_›
    omega

theorem toDays_first_succ (m : Int) :
    (firstOfMonth (m + 1)).toDays =
      (firstOfMonth m).toDays + daysIn (firstOfMonth m).year (firstOfMonth m).month := by
  rw [toDays_first, toDays_first]
  simp only [firstOfMonth]
  by_cases hfebruary : m % 12 = 1
  · have hstart := yearStart_succ ((m - 2) / 12)
    rw [show (m - 2) / 12 + 1 = m / 12 by omega] at hstart
    rw [show (m + 1 - 2) / 12 = m / 12 by omega, show (m + 1 - 2) % 12 = 0 by omega,
      show (m - 2) % 12 = 11 by omega, hstart, hfebruary]
    norm_num
    omega
  · rw [show (m + 1 - 2) / 12 = (m - 2) / 12 by omega,
      show (m + 1 - 2) % 12 = (m - 2) % 12 + 1 by omega, daysIn, if_neg (by omega),
      show m % 12 = ((m - 2) % 12 + 2) % 12 by omega]
    -- the eleven other months are counted out, since 153 days make five of them
    have hr₀ : 0 ≤ (m - 2) % 12 := by omega
    have hr : (m - 2) % 12 < 11 := by omega
    generalize (m - 2) % 12 = r at hr₀ hr
    interval_cases r <;> norm_num <;> omega

theorem day_ofDays (z : Int) :
    ((ofDays z).day : Int) = z - (firstOfMonth (monthNumber (ofDays z))).toDays + 1 := by
  have h₀ : 0 ≤ (z + epochShift) % 146097 := by omega
  have h₁ : (z + epochShift) % 146097 < 146097 := by omega
  have hsplit : z + epochShift = (z + epochShift) / 146097 * 146097 + (z + epochShift) % 146097 := by
    omega
  obtain ⟨hy₀, hy, hlow, hhigh⟩ := yearOfEra_bounds h₀ h₁
  rw [toDays_first]
  simp only [ofDays, monthNumber]
  generalize (z + epochShift) / 146097 = era at *
  generalize (z + epochShift) % 146097 = d at *
  rw [show (d - d / 1460 + d / 36524 - d / 146096) / 365 = yearOfEra d from rfl]
  generalize yearOfEra d = y at *
  have hnext := yearStart_succ_le y
  rw [← yearStart_of_lt hy₀ hy]
  obtain ⟨k, hk⟩ : ∃ k, k = (5 * (d - yearStart y) + 2) / 153 := ⟨_, rfl⟩
  have hk₀ : 0 ≤ k := by omega
  have hk₁₁ : k ≤ 11 := by omega
  rw [← hk]
  -- the month that is found is the `k`-th one from March on
  have hmonth : (if (if k < 10 then k + 3 else k - 9) ≤ 2 then y + era * 400 + 1 else y + era * 400) * 12 +
      (((if k < 10 then k + 3 else k - 9).toNat : Int) - 1) = 12 * (y + era * 400) + k + 2 := by
    split <;> split <;> omega
  rw [hmonth, show (12 * (y + era * 400) + k + 2 - 2) / 12 = y + era * 400 by omega,
    show (12 * (y + era * 400) + k + 2 - 2) % 12 = k by omega, yearStart_shift]
  omega

theorem toDays_ofDays (z : Int) : (ofDays z).toDays = z := by
  obtain ⟨h₁, h₂⟩ := month_ofDays z
  rw [toDays_eq_first h₁ h₂, day_ofDays]
  omega

theorem isValid_ofDays (z : Int) : (ofDays z).isValid = true := by
  obtain ⟨h₁, h₂⟩ := month_ofDays z
  have hday := day_ofDays z
  have hlow := toDays_first_le z
  have hhigh := lt_toDays_first z
  rw [toDays_first_succ, firstOfMonth_monthNumber h₁ h₂] at hhigh
  rw [firstOfMonth_monthNumber h₁ h₂] at hday hlow
  simp only [isValid, Bool.and_eq_true, decide_eq_true_eq]
  dsimp only at hhigh
  omega

/-! ### Numbers of fixed width -/

/-- A number that fills its width is read from the front of a text. -/
theorem digits?_padded {w n : ℕ} (hn : n < 10 ^ w) (hw : 0 < w) (t : Text) :
    digits? w (Text.ofNatPadded w n ++ t) = some (n, t) := by
  obtain ⟨hdigits, hlength, hnumeral⟩ := Text.ofNatPadded_facts hn hw
  have htake : (Text.ofNatPadded w n ++ t).take w = Text.ofNatPadded w n := by
    exact List.take_left' hlength
  have hdrop : (Text.ofNatPadded w n ++ t).drop w = t := by
    exact List.drop_left' hlength
  have hne : Text.ofNatPadded w n ≠ [] := by
    intro h
    rw [h, List.length_nil] at hlength
    omega
  have hall : (Text.ofNatPadded w n).all Text.isDigit = true := by
    rw [List.all_eq_true]
    exact hdigits
  rw [digits?]
  simp only [htake, hdrop, hlength, hall, and_self, if_true, Text.nat?_of_digits hdigits hne, hnumeral]
  rfl

theorem front?_iso {d : Date} (hy₀ : 0 ≤ d.year) (hy : d.year ≤ 9999) (hm : d.month < 100)
    (hd : d.day < 100) (t : Text) : front? (d.iso ++ t) = some (d, t) := by
  have hskip : ∀ u : Text, skip? "-" ("-" ++ u) = some u := fun u => Json.after?_append "-" u
  have hyear : padded 4 d.year = Text.ofNatPadded 4 d.year.toNat := by
    rw [padded, if_neg (by omega), show d.year.natAbs = d.year.toNat by omega]
  rw [iso, yearMonth, hyear]
  simp only [List.append_assoc]
  rw [front?, digits?_padded (by omega) (by norm_num)]
  simp only [Option.bind_eq_bind, Option.bind_some, hskip,
    digits?_padded (w := 2) (n := d.month) hm (by norm_num),
    digits?_padded (w := 2) (n := d.day) hd (by norm_num)]
  rw [show ((d.year.toNat : ℕ) : Int) = d.year by omega]

end Date

/-! ### Times -/

namespace Time

/-- The time can be written in RFC 3339 without a loss. -/
structure Writable (t : Time) : Prop where
  nanos : t.nanos < 1000000000
  year : 0 ≤ t.date.year ∧ t.date.year ≤ 9999
  minutes : t.offset % 60 = 0
  offset : t.offset.natAbs < 86400

theorem Writable.isStrict {t : Time} (h : t.Writable) : t.isStrict = true := by
  have := h.offset
  have hyear := h.year
  simp only [Time.isStrict, Bool.and_eq_true, decide_eq_true_eq]
  omega

theorem zone?_head {z : Text} {offset : Int} (h : zone? z = some offset) :
    ∃ b t, z = b :: t ∧ Text.isDigit b = false ∧ b ≠ Text.byte '.' ∧ b ≠ Text.byte ',' := by
  unfold zone? at h
  split at h
  · rename_i hz
    exact ⟨_, _, hz, by decide, by decide, by decide⟩
  split at h
  · simp at h
  · rename_i b t _
    simp only [Option.bind_eq_bind, Option.bind_eq_some_iff] at h
    obtain ⟨⟨hour, t₁⟩, _, t₂, _, ⟨minute, t₃⟩, _, h⟩ := h
    refine ⟨b, t, rfl, ?_⟩
    by_cases hplus : b = Text.byte '+'
    · subst hplus
      decide
    by_cases hminus : b = Text.byte '-'
    · subst hminus
      decide
    simp [hplus, hminus] at h

theorem zone?_signed {sign : UInt8} (hsign : sign = Text.byte '+' ∨ sign = Text.byte '-')
    {h m : ℕ} (hh : h ≤ 24) (hm : m ≤ 60) :
    zone? (sign :: (Text.ofNatPadded 2 h ++ (Text.ofString ":" ++ Text.ofNatPadded 2 m))) =
      some (if sign = Text.byte '+' then ((h * 60 + m) * 60 : Int) else -((h * 60 + m) * 60)) := by
  have hz : ∀ t : Text, sign :: t ≠ Text.ofString "Z" := by
    intro t heq
    have hhead : sign = Text.byte 'Z' := (List.cons.inj heq).1
    rcases hsign with rfl | rfl <;> exact absurd hhead (by decide)
  have hskip : ∀ u : Text, Date.skip? ":" (Text.ofString ":" ++ u) = some u :=
    fun u => Json.after?_append ":" u
  have hminutes : Date.digits? 2 (Text.ofNatPadded 2 m) = some (m, []) := by
    have h := Date.digits?_padded (w := 2) (n := m) (by omega) (by norm_num) []
    rwa [List.append_nil] at h
  rw [zone?, if_neg (hz _)]
  simp only [Option.bind_eq_bind, Option.bind_some, hskip, hminutes,
    Date.digits?_padded (w := 2) (n := h) (by omega) (by norm_num)]
  rw [if_neg (by simp [hh, hm])]
  rcases hsign with rfl | rfl
  · rfl
  · rw [if_neg (by decide), if_pos rfl, if_neg (by decide)]

theorem zone?_zone {offset : Int} (hminutes : offset % 60 = 0) (h : offset.natAbs < 86400) :
    zone? (zone offset) = some offset := by
  by_cases hzero : offset = 0
  · subst hzero
    decide
  have hsize : (((offset.natAbs / 60 / 60 : ℕ) : Int) * 60 + ((offset.natAbs / 60 % 60 : ℕ) : Int)) * 60 =
      offset.natAbs := by omega
  have hzone : zone offset = (if offset < 0 then Text.byte '-' else Text.byte '+') ::
      (Text.ofNatPadded 2 (offset.natAbs / 60 / 60) ++
        (Text.ofString ":" ++ Text.ofNatPadded 2 (offset.natAbs / 60 % 60))) := by
    unfold zone
    dsimp only
    rw [if_neg hzero, List.append_assoc, List.append_assoc]
    -- an offset of whole minutes is below zero when it is by a minute at least
    rcases lt_or_ge offset 0 with hneg | hpos
    · rw [if_pos (by omega : offset ≤ -60), if_pos hneg]
      rfl
    · rw [if_neg (by omega : ¬ offset ≤ -60), if_neg (by omega)]
      rfl
  rw [hzone, zone?_signed (by split <;> simp) (by omega) (by omega), hsize]
  split
  · rw [if_neg (by decide)]
    exact congrArg some (by omega)
  · rw [if_pos rfl]
    exact congrArg some (by omega)

theorem exists_zeros (ds : Text) :
    ∃ k, ds = (ds.reverse.dropWhile (· == Text.byte '0')).reverse ++ List.replicate k (Text.byte '0') := by
  refine ⟨(ds.reverse.takeWhile (· == Text.byte '0')).length, ?_⟩
  have hzeros : ds.reverse.takeWhile (· == Text.byte '0') =
      List.replicate (ds.reverse.takeWhile (· == Text.byte '0')).length (Text.byte '0') := by
    refine List.eq_replicate_of_mem fun b hb => ?_
    simpa using List.mem_takeWhile_imp hb
  have hall := congrArg List.reverse (List.takeWhile_append_dropWhile (p := (· == Text.byte '0')) (l := ds.reverse))
  rw [List.reverse_append, List.reverse_reverse] at hall
  rw [hzeros, List.reverse_replicate] at hall
  exact hall.symm

theorem fraction_fractionText {nanos : ℕ} (h : nanos < 1000000000) {z : Text} {offset : Int}
    (hz : zone? z = some offset) : fraction (fractionText nanos ++ z) = (nanos, z) := by
  obtain ⟨b, t, rfl, hdigit, hpoint, hcomma⟩ := zone?_head hz
  rw [fractionText]
  by_cases hzero : nanos = 0
  · rw [if_pos hzero, hzero]
    change fraction (b :: t) = _
    rw [fraction]
    dsimp only
    rw [if_neg (by simp [hpoint, hcomma])]
  obtain ⟨hdigits, hlength, hnumeral⟩ := Text.ofNatPadded_facts (w := 9) (n := nanos) (by omega) (by norm_num)
  obtain ⟨k, hk⟩ := exists_zeros (Text.ofNatPadded 9 nanos)
  rw [if_neg hzero]
  generalize hds : ((Text.ofNatPadded 9 nanos).reverse.dropWhile (· == Text.byte '0')).reverse = ds at hk ⊢
  have hall : ∀ c ∈ ds, Text.isDigit c = true := fun c hc => hdigits c (hk ▸ List.mem_append_left _ hc)
  have hne : ds ≠ [] := by
    rintro rfl
    rw [hk, List.nil_append, Text.numeral_zeros] at hnumeral
    exact hzero hnumeral.symm
  have htake : (ds ++ b :: t).takeWhile Text.isDigit = ds := by
    rw [List.takeWhile_append_of_pos hall, List.takeWhile_cons_of_neg (by simp [hdigit]), List.append_nil]
  have hdrop : (ds ++ b :: t).dropWhile Text.isDigit = b :: t := by
    rw [List.dropWhile_append_of_pos hall, List.dropWhile_cons_of_neg (by simp [hdigit])]
  have hnine : (ds ++ List.replicate 9 (Text.byte '0')).take 9 = Text.ofNatPadded 9 nanos := by
    rw [hk, List.length_append, List.length_replicate] at hlength
    rw [List.take_append, List.take_of_length_le (by omega), List.take_replicate,
      show min (9 - ds.length) 9 = k by omega, hk]
  change fraction (Text.byte '.' :: (ds ++ b :: t)) = _
  rw [fraction]
  dsimp only
  rw [htake, hdrop, hnine, if_pos (by simp [hne]), Text.nat?_of_digits hdigits (by intro h; simp [h] at hlength), hnumeral]
  rfl

/-- What a clock shows at a time: the date, the time of day and the fraction of the second. -/
def clockText (t : Time) : Text :=
  let (h, m, s) := t.clock
  t.date.iso ++ "T" ++ Text.ofNatPadded 2 h ++ ":" ++ Text.ofNatPadded 2 m ++ ":" ++
    Text.ofNatPadded 2 s ++ fractionText t.nanos

theorem rfc3339_true (t : Time) : t.rfc3339 true = t.clockText ++ zone t.offset := rfl

/-- What a clock shows is read as the time, whichever way the zone of the clock is written. -/
theorem parse?_clockText {t : Time} (h : t.Writable) {z : Text} (hz : zone? z = some t.offset) :
    parse? (t.clockText ++ z) = some t := by
  have hskipT : ∀ u : Text, Date.skip? "T" (Text.ofString "T" ++ u) = some u :=
    fun u => Json.after?_append "T" u
  have hskip : ∀ u : Text, Date.skip? ":" (Text.ofString ":" ++ u) = some u :=
    fun u => Json.after?_append ":" u
  have hvalid : t.date.isValid = true := Date.isValid_ofDays _
  have hdate : t.date.toDays = t.clockSeconds / 86400 := Date.toDays_ofDays _
  have hbounds := hvalid
  simp only [Date.isValid, Bool.and_eq_true, decide_eq_true_eq] at hbounds
  have hday : t.date.day < 100 := by
    have : Date.daysIn t.date.year t.date.month ≤ 31 := by
      unfold Date.daysIn
      split_ifs <;> omega
    omega
  obtain ⟨s, hs⟩ : ∃ s, s = (t.clockSeconds % 86400).toNat := ⟨_, rfl⟩
  have hs' : s < 86400 := by omega
  have hclock : t.clock = (s / 3600, s / 60 % 60, s % 60) := by rw [hs]; rfl
  have hshort : ∀ u, shortDigits? (Text.ofNatPadded 2 (s / 3600) ++ u) = some (s / 3600, u) := by
    intro u
    rw [shortDigits?, Date.digits?_padded (by omega) (by norm_num)]
  have htext : t.clockText ++ z = t.date.iso ++ (Text.ofString "T" ++ (Text.ofNatPadded 2 (s / 3600) ++
      (Text.ofString ":" ++ (Text.ofNatPadded 2 (s / 60 % 60) ++ (Text.ofString ":" ++
        (Text.ofNatPadded 2 (s % 60) ++ (fractionText t.nanos ++ z))))))) := by
    rw [clockText, hclock]
    simp only [List.append_assoc]
  rw [htext, parse?, Date.front?_iso h.year.1 h.year.2 (by omega) hday]
  simp only [Option.bind_eq_bind, Option.bind_some, hskipT, hskip, hshort,
    Date.digits?_padded (w := 2) (n := s / 60 % 60) (by omega) (by norm_num),
    Date.digits?_padded (w := 2) (n := s % 60) (by omega) (by norm_num),
    fraction_fractionText h.nanos hz, hz]
  rw [if_pos (by simp [hvalid]; omega)]
  obtain ⟨seconds, nanos, offset⟩ := t
  simp only [Option.some.injEq, Time.mk.injEq, and_true, hdate, clockSeconds] at hs ⊢
  omega

/-- **A time is read back from its RFC 3339 notation.** -/
theorem parse?_rfc3339 {t : Time} (h : t.Writable) : parse? (t.rfc3339 true) = some t := by
  rw [rfc3339_true]
  exact parse?_clockText h (zone?_zone h.minutes h.offset)

end Time

end MetricHistory
