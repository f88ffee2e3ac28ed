import MetricHistory.Proofs.Commit.ChangedLines
import MetricHistory.Proofs.Json.Fields

/-!
# The commit log is read back

* `CommitLog.Entry.text` is what the log says of a commit, and `CommitLog.Stray` a record that is
  that of no commit.
* `CommitLog.commit?_text` and `CommitLog.commit?_stray` : a record by itself is read, or passed over.
* `CommitLog.filter_newestFirst` : commits that are of the same instant stay in their order.
* `CommitLog.parse_written` : **of a log with stray records between its entries, each commit is read
  once, with all that the log says of it, newest first.**
* `CommitLog.commitLog_eq_written` : the log of a store is such a log.
-/

namespace MetricHistory

namespace CommitLog

/-! ### What the log says -/

/-- A commit as the log shows it. -/
structure Entry where
  hash : Text
  date : Time
  /-- The zone of the date, as it is spelled. -/
  zone : Text
  subject : Text
  /-- The size of the change, where it is shown. -/
  size : Option Git.DiffSize

namespace Entry

/-- What stands below the first line of the entry. -/
def stat (e : Entry) : Text :=
  match e.size with
  | some d => "\n" ++ d.summary
  | none => []

/-- The record of the entry, behind its mark. -/
def text (e : Entry) : Text :=
  Text.join [0] [e.hash, e.date.clockText ++ e.zone, e.subject] ++ [10] ++ e.stat

/-- The fields can be told apart, the date has a year of four digits, and the number of changed lines
is one of 64 bits. -/
structure WellFormed (e : Entry) : Prop where
  hash : 0 ∉ e.hash ∧ 10 ∉ e.hash ∧ recordMark ∉ e.hash
  date : e.date.Writable
  zone : e.zone = Time.zone e.date.offset ∨
    e.date.offset = 0 ∧ (e.zone = "+00:00" ∨ e.zone = "-00:00")
  subject : 10 ∉ e.subject ∧ recordMark ∉ e.subject
  size : ∀ d ∈ e.size, d.insertions + d.deletions < 2 ^ 63

/-- The commit that the entry is about. -/
def commit (e : Entry) : Commit where
  hash := e.hash
  shortHash := e.hash.take 11
  date := e.date
  subject := e.subject
  category := Category.ofSubject e.subject
  lines := match e.size with
    | some d => (d.insertions + d.deletions : ℕ)
    | none => 0

end Entry

/-- The first line of a record. -/
def header (record : Text) : Text := record.takeWhile (· != 10)

/-- A record without two NUL bytes on its first line, or without a date between them. -/
structure Stray (record : Text) : Prop where
  mark : recordMark ∉ record
  header : (header record).count 0 < 2 ∨
    ∃ hash date subject, header record = hash ++ 0 :: (date ++ 0 :: subject) ∧ 0 ∉ hash ∧ 0 ∉ date ∧
      Time.parse? date = none

/-! ### One record -/

theorem header_of_cut (record : Text) :
    ((record.cut? 10).getD (record, [])).1 = header record := by
  unfold Text.cut? header
  split
  · rename_i h
    rw [List.dropWhile_eq_nil_iff] at h
    exact (List.takeWhile_eq_self_iff.2 h).symm
  · rfl

theorem headerFields?_eq {hash date subject : Text} (hhash : 0 ∉ hash) (hdate : 0 ∉ date) :
    headerFields? (hash ++ 0 :: (date ++ 0 :: subject)) = some (hash, date, subject) := by
  rw [headerFields?, Text.cut?_append hhash]
  simp only [Option.bind_eq_bind, Option.bind_some, Text.cut?_append hdate]

theorem headerFields?_of_count {line : Text} (h : line.count 0 < 2) : headerFields? line = none := by
  by_cases hmem : 0 ∈ line
  · obtain ⟨hash, rest, rfl, hhash⟩ := List.eq_append_cons_of_mem hmem
    have hrest : 0 ∉ rest := by
      rw [List.count_append, List.count_cons_self] at h
      exact List.count_eq_zero.1 (by omega)
    rw [headerFields?, Text.cut?_append hhash]
    simp only [Option.bind_eq_bind, Option.bind_some, Text.cut?_of_not_mem hrest, Option.bind_none]
  · rw [headerFields?, Text.cut?_of_not_mem hmem]
    rfl

theorem commit?_stray {record : Text} (h : Stray record) : commit? record = none := by
  have hheader := header_of_cut record
  rw [commit?]
  generalize (record.cut? 10).getD (record, []) = parts at hheader ⊢
  obtain ⟨line, body⟩ := parts
  dsimp only at hheader ⊢
  subst hheader
  rcases h.header with hcount | ⟨hash, date, subject, hline, hhash, hdate, hno⟩
  · rw [headerFields?_of_count hcount]
    rfl
  · rw [hline, headerFields?_eq hhash hdate]
    simp only [Option.bind_eq_bind, Option.bind_some, hno, Option.bind_none]

theorem Entry.WellFormed.zone?_eq {e : Entry} (h : e.WellFormed) :
    Time.zone? e.zone = some e.date.offset := by
  rcases h.zone with hz | ⟨hzero, hz | hz⟩
  · rw [hz, Time.zone?_zone h.date.minutes h.date.offset]
  all_goals
    rw [hz, hzero]
    decide

theorem Entry.WellFormed.not_mem_date {e : Entry} (h : e.WellFormed) {b : UInt8}
    (hb : b = 0 ∨ b = 10 ∨ b = recordMark) : b ∉ e.date.clockText ++ e.zone := by
  have hplain : b ∉ Text.notationBytes := by rcases hb with rfl | rfl | rfl <;> decide
  have hutc : b ∉ Text.ofString "+00:00" ∧ b ∉ Text.ofString "-00:00" := by
    rcases hb with rfl | rfl | rfl <;> decide
  intro hmem
  rcases List.mem_append.1 hmem with hmem | hmem
  · exact hplain (Time.mem_clockText hmem)
  rcases h.zone with hz | ⟨-, hz | hz⟩ <;> rw [hz] at hmem
  · exact hplain (Time.mem_zone hmem)
  · exact hutc.1 hmem
  · exact hutc.2 hmem

theorem changedLines_stat {e : Entry} (h : e.WellFormed) : changedLines e.stat = e.commit.lines := by
  unfold Entry.stat Entry.commit
  cases hsize : e.size with
  | none => rfl
  | some d => exact changedLines_summary (h.size d hsize)

theorem Entry.header_eq (e : Entry) :
    Text.join [0] [e.hash, e.date.clockText ++ e.zone, e.subject] =
      e.hash ++ 0 :: (e.date.clockText ++ e.zone ++ 0 :: e.subject) := by
  simp [Text.join]

/-- An entry of the log is read back, whatever its subject. -/
theorem commit?_text {e : Entry} (h : e.WellFormed) : commit? e.text = some e.commit := by
  -- no field holds a line feed, so the first line is the one of the fields
  have hline : 10 ∉ e.hash ++ 0 :: (e.date.clockText ++ e.zone ++ 0 :: e.subject) := by
    have hdate := h.not_mem_date (.inr (.inl rfl))
    simp only [List.mem_append, List.mem_cons, not_or] at hdate ⊢
    exact ⟨h.hash.2.1, by decide, hdate, by decide, h.subject.1⟩
  rw [commit?, Entry.text, e.header_eq, List.append_assoc, List.singleton_append,
    Text.cut?_append hline]
  simp only [Option.getD_some, Option.bind_eq_bind, Option.bind_some,
    headerFields?_eq h.hash.1 (h.not_mem_date (.inl rfl)), Time.parse?_clockText h.date h.zone?_eq,
    changedLines_stat h]
  rfl

theorem mark_not_mem_text {e : Entry} (h : e.WellFormed) : recordMark ∉ e.text := by
  have hdate := h.not_mem_date (.inr (.inr rfl))
  have hstat : recordMark ∉ e.stat := by
    unfold Entry.stat
    cases e.size with
    | none => simp
    | some d =>
      rw [List.mem_append, not_or]
      exact ⟨by decide, d.mark_not_mem_summary⟩
  rw [Entry.text, e.header_eq]
  simp only [List.mem_append, List.mem_cons, List.not_mem_nil, or_false, not_or] at hdate ⊢
  exact ⟨⟨⟨h.hash.2.2, by decide, hdate, by decide, h.subject.2⟩, by decide⟩, hstat⟩

end CommitLog

theorem Time.after_eq_false_iff {t u : Time} (ht : t.nanos < 1000000000) (hu : u.nanos < 1000000000) :
    t.after u = false ↔ t.toNanos ≤ u.toNanos := by
  simp only [after, toNanos, Bool.or_eq_false_iff, Bool.and_eq_false_iff, decide_eq_false_iff_not,
    beq_eq_false_iff_ne]
  omega

namespace CommitLog

/-! ### Newest first -/

theorem notAfter_trans (a b c : Commit) :
    (!b.date.after a.date) = true → (!c.date.after b.date) = true → (!c.date.after a.date) = true := by
  simp only [Time.after, Bool.not_eq_true', Bool.or_eq_false_iff, Bool.and_eq_false_iff,
    decide_eq_false_iff_not, beq_eq_false_iff_ne]
  omega

theorem notAfter_total (a b : Commit) :
    ((!b.date.after a.date) || (!a.date.after b.date)) = true := by
  simp only [Time.after, Bool.or_eq_true, Bool.not_eq_true', Bool.or_eq_false_iff,
    Bool.and_eq_false_iff, decide_eq_false_iff_not, beq_eq_false_iff_ne]
  omega

theorem newestFirst_perm (cs : List Commit) : (newestFirst cs).Perm cs := List.mergeSort_perm _ _

theorem pairwise_newestFirst (cs : List Commit) :
    (newestFirst cs).Pairwise fun a b => b.date.after a.date = false := by
  refine (List.pairwise_mergeSort notAfter_trans notAfter_total cs).imp fun h => ?_
  simpa using h

/-- Commits of which none is newer than another stay in their order. -/
theorem filter_newestFirst {cs : List Commit} {p : Commit → Bool}
    (h : ∀ a ∈ cs, ∀ b ∈ cs, p a = true → p b = true → b.date.after a.date = false) :
    (newestFirst cs).filter p = cs.filter p := by
  have hsorted : (cs.filter p).Pairwise fun a b => (!b.date.after a.date) = true := by
    refine List.pairwise_of_forall_mem_list fun a ha b hb => ?_
    rw [List.mem_filter] at ha hb
    rw [h a ha.1 b hb.1 ha.2 hb.2]
    rfl
  have hsub : (cs.filter p).Sublist (newestFirst cs) :=
    List.sublist_mergeSort notAfter_trans notAfter_total hsorted List.filter_sublist
  -- the sorted list has no other such commits, since it has the same commits
  have hkept := hsub.filter p
  rw [List.filter_filter] at hkept
  simp only [Bool.and_self] at hkept
  exact (hkept.eq_of_length ((newestFirst_perm cs).filter p).length_eq.symm).symm

/-! ### A whole log -/

/-- A record of a log. -/
inductive Record where
  | entry (e : Entry)
  | stray (text : Text)

namespace Record

def text : Record → Text
  | entry e => e.text
  | stray text => text

/-- The commit of the record, if it is an entry. -/
def commit? : Record → Option Commit
  | entry e => some e.commit
  | stray _ => none

def WellFormed : Record → Prop
  | entry e => e.WellFormed
  | stray text => Stray text

end Record

/-- The log of the records, each behind its mark. -/
def written (records : List Record) : Text := records.flatMap fun r => recordMark :: r.text

theorem mark_not_mem_record {r : Record} (h : r.WellFormed) : recordMark ∉ r.text := by
  cases r with
  | entry e => exact mark_not_mem_text h
  | stray text => exact h.mark

theorem commit?_record {r : Record} (h : r.WellFormed) : commit? r.text = r.commit? := by
  cases r with
  | entry e => exact commit?_text h
  | stray text => exact commit?_stray h

theorem parse_eq_newestFirst {records : List Record} (h : ∀ r ∈ records, r.WellFormed) :
    parse (written records) = newestFirst (records.filterMap Record.commit?) := by
  have hmarks : ∀ text ∈ records.map Record.text, recordMark ∉ text :=
    List.forall_mem_map.2 fun r hr => mark_not_mem_record (h r hr)
  have hsplit := Text.splitOn_flatMap List.not_mem_nil hmarks
  rw [List.nil_append, List.flatMap_map] at hsplit
  have hread : (records.map Record.text).filterMap commit? = records.filterMap Record.commit? := by
    rw [List.filterMap_map]
    exact List.filterMap_congr fun r hr => commit?_record (h r hr)
  rw [parse, written, hsplit, List.filterMap_cons_none (by rfl), hread]

/-- **Each commit of a log is read once, with all that the log says of it, and stray records are
passed over**; the newest commit comes first, and those of the same instant stay in their order. -/
theorem parse_written {records : List Record} (h : ∀ r ∈ records, r.WellFormed) :
    (parse (written records)).Perm (records.filterMap Record.commit?) ∧
      (parse (written records)).Pairwise (fun a b => b.date.toNanos ≤ a.date.toNanos) ∧
      ∀ instant, (parse (written records)).filter (fun c => c.date.toNanos = instant) =
        (records.filterMap Record.commit?).filter fun c => c.date.toNanos = instant := by
  rw [parse_eq_newestFirst h]
  have hnanos : ∀ c ∈ records.filterMap Record.commit?, c.date.nanos < 1000000000 := by
    intro c hc
    obtain ⟨r, hr, hc⟩ := List.mem_filterMap.1 hc
    cases r with
    | entry e =>
      obtain rfl : e.commit = c := Option.some.inj hc
      exact (h _ hr).date.nanos
    | stray text => simp [Record.commit?] at hc
  generalize records.filterMap Record.commit? = found at hnanos ⊢
  have hperm := newestFirst_perm found
  refine ⟨hperm, ?_, fun instant => filter_newestFirst fun a ha b hb hpa hpb => ?_⟩
  · refine (pairwise_newestFirst found).imp_of_mem fun ha hb hab => ?_
    exact (Time.after_eq_false_iff (hnanos _ (hperm.mem_iff.1 hb))
      (hnanos _ (hperm.mem_iff.1 ha))).1 hab
  · rw [decide_eq_true_eq] at hpa hpb
    exact (Time.after_eq_false_iff (hnanos b hb) (hnanos a ha)).2 (by rw [hpa, hpb])

/-- An entry with a NUL byte and a line of counts in its subject, a record of two fields, an entry of
the same instant on another clock, a record without a date, and a newer entry. -/
def mixed : List Record :=
  [.entry ⟨"0123456789abcdef", { seconds := 1700000000 }, "Z",
      "fix: 7 files changed\x00, 9 insertions(+)", some ⟨1, 2, 1⟩⟩,
    .stray "0123\x00fix: a",
    .entry ⟨"fedcba9876543210", { seconds := 1700000000, offset := 5400 }, "+01:30", "feat: b", none⟩,
    .stray "4567\x00yesterday\x00fix: c",
    .entry ⟨"89ab", { seconds := 1700000001 }, "+00:00", "", some ⟨2, 0, 0⟩⟩]

theorem wellFormed_mixed : ∀ r ∈ mixed, r.WellFormed := by
  simp only [mixed, List.forall_mem_cons, List.not_mem_nil, false_imp_iff, implies_true, and_true]
  refine ⟨⟨by decide, ⟨by decide, by decide, by decide, by decide⟩, .inl (by decide), by decide, ?_⟩,
    ⟨by decide, .inl (by decide)⟩,
    ⟨by decide, ⟨by decide, by decide, by decide, by decide⟩, .inl (by decide), by decide, ?_⟩,
    ⟨by decide, .inr ⟨"4567", "yesterday", "fix: c", by decide, by decide, by decide, by decide⟩⟩,
    ⟨by decide, ⟨by decide, by decide, by decide, by decide⟩, .inr ⟨by decide, .inl (by decide)⟩,
      by decide, ?_⟩⟩ <;> simp

theorem parse_written_mixed :
    (∀ r ∈ mixed, r.WellFormed) ∧
      (parse (written mixed)).Perm (mixed.filterMap Record.commit?) ∧
      (parse (written mixed)).Pairwise (fun a b => b.date.toNanos ≤ a.date.toNanos) ∧
      ∀ instant, (parse (written mixed)).filter (fun c => c.date.toNanos = instant) =
        (mixed.filterMap Record.commit?).filter fun c => c.date.toNanos = instant :=
  ⟨wellFormed_mixed, parse_written wellFormed_mixed⟩

/-! ### The log of a store -/

/-- What the log of a store says of a revision. -/
def Entry.ofRevision (s : Git.Store) (r : Git.Revision) : Entry where
  hash := r.hash
  date := r.committed
  zone := Time.zone r.committed.offset
  subject := Git.subject r.message
  size := s.change? r

theorem logEntry_eq (s : Git.Store) {r : Git.Revision} (h : r.committed.nanos = 0) :
    s.logEntry r = recordMark :: (Entry.ofRevision s r).text := by
  have hdate : r.committed.rfc3339 false = r.committed.clockText ++ Time.zone r.committed.offset := by
    rw [← Time.rfc3339_true]
    simp [Time.rfc3339, Time.fractionText, h, Text.ofString]
  have hfiles : ∀ d, s.change? r = some d → d.files ≠ 0 := by
    intro d hd
    have := Option.filter_eq_some_iff.1 hd
    simpa using this.2
  rw [Git.Store.logEntry, Entry.text, Entry.stat, Entry.ofRevision, ← hdate]
  cases hsize : s.change? r with
  | none => rfl
  | some d =>
    dsimp only
    rw [Git.DiffSize.summary_of_files (hfiles d hsize)]
    rfl

/-- The log of a store has an entry for each revision, and no other record. -/
theorem commitLog_eq_written (s : Git.Store) {rs : List Git.Revision}
    (h : ∀ r ∈ rs, r.committed.nanos = 0) :
    s.commitLog rs = written (rs.map fun r => .entry (.ofRevision s r)) := by
  rw [Git.Store.commitLog, written, List.flatMap_map]
  exact List.flatMap_congr fun r hr => logEntry_eq s (h r hr)

end CommitLog

end MetricHistory
