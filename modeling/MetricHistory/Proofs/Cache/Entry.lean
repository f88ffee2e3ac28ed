import MetricHistory.Proofs.Json.Fields
import MetricHistory.Proofs.Snapshot.Stored

/-!
# Entries are read back

`CacheEntry.parse?_encode?` says what an entry is when it is read back.  Here is when it is: its
time has a notation and its data are not too deep.

* `Json.depth_record_le_iff` : a record is one deeper than its deepest member;
* `CacheEntry.parse?_written` : **what is read back of an entry, and that nothing is if its data are
  too deep;**
* `CacheEntry.exists_encode?` : an entry of characters is written, and it is read back with the same
  key, fingerprint, time and value.
-/

namespace MetricHistory

namespace Json

/-- A record is one deeper than its deepest member. -/
theorem depth_record_le_iff {ms : List (Text × Json)} {n : ℕ} :
    depth (record ms) ≤ n + 1 ↔ ∀ m ∈ ms, depth m.2 ≤ n := by
  have hmembers : membersDepth (ofMembers ms) ≤ n ↔ ∀ m ∈ ms, depth m.2 ≤ n := by
    induction ms with
    | nil => simp [ofMembers, membersDepth]
    | cons m ms ih => rw [ofMembers, membersDepth, max_le_iff, ih, List.forall_mem_cons]
  rw [record, depth, Nat.add_le_add_iff_right, hmembers]

theorem parse?_compact {j : Json} (h : Spelled j) (hd : depth j ≤ depthLimit) :
    parse? (compact j) = some (stripped j) := by
  have hrespells := stripped_respells j h
  rw [compact_eq]
  exact parse?_source hrespells.spelled (hrespells.depth.trans_le hd)

theorem parse?_compact_eq_none {j : Json} (h : Spelled j) (hd : depthLimit < depth j) :
    parse? (compact j) = none := by
  rcases hread : parse? (compact j) with _ | k
  · rfl
  · obtain rfl := eq_of_parse?_compact h hread
    have hdepth := (parse?_eq_some hread).2
    rw [(stripped_respells j h).depth] at hdepth
    omega

end Json

namespace CacheEntry

open Json

variable {e : CacheEntry} {j : Json}

/-- What is left of an entry when it is read back. -/
def reread (e : CacheEntry) (j : Json) : CacheEntry where
  key := Utf8.repair e.key
  fingerprint := Utf8.repair e.fingerprint
  stored := e.stored
  data := source (stripped j.markupSafe)

theorem matching_stored {key fingerprint stored data : Json} :
    matching "stored" (members key fingerprint stored data) = [stored] := by cbv

theorem depth_written_le_iff (e : CacheEntry) (h : Spelled j) :
    depth (record (e.written j)) ≤ depthLimit ↔ depth j < depthLimit := by
  have hlimit : depthLimit = depthLimit - 1 + 1 := by decide
  have htext : ∀ t : Text, depth (ofText true t) ≤ depthLimit - 1 := fun _ => Nat.zero_le _
  rw [hlimit, depth_record_le_iff]
  simp only [written, members, List.forall_mem_cons, List.not_mem_nil, false_imp_iff, implies_true,
    and_true, htext, true_and, (markupSafe_respells j h).depth]
  omega

/-- The text of an entry. -/
theorem encode?_eq (hstored : e.stored.isStrict = true) (hdata : Json.parse? e.data = some j) :
    e.encode? = some (compact (record (e.written j))) := by
  rw [encode?, hdata]
  simp only [Option.bind_eq_bind, Option.bind_some, hstored]
  rfl

/-- **What is read back of an entry, and that nothing is if its data are too deep.** -/
theorem parse?_written (hstored : e.stored.Writable) (h : Spelled j) :
    parse? (compact (record (e.written j))) =
      if depth j < depthLimit then some (e.reread j) else none := by
  have hspelled := e.spelled_written h
  have hlimit := e.depth_written_le_iff h
  rw [parse?]
  split
  · rename_i hd
    rw [parse?_compact hspelled (hlimit.2 hd), Option.bind_some, stripped_record, record, decodeRecord,
      memberList_ofMembers ((e.plainKeys_written j).mapValues stripped)]
    change ofMembers {} (members (ofText true e.key) (ofText true e.fingerprint)
      (ofText true (e.stored.rfc3339 true)) (stripped j.markupSafe)) = _
    simp only [ofMembers, field_of_matching matching_key, field_of_matching matching_fingerprint,
      field_of_matching matching_stored, rawField_of_matching matching_data, decodeText_ofText_repair,
      decodeTime_ofText true hstored, Option.bind_eq_bind, Option.bind_some, Option.pure_def]
    rfl
  · rename_i hd
    rw [parse?_compact_eq_none hspelled (not_le.1 (hlimit.not.2 hd)), Option.bind_none]

/-- An entry of characters is written, and it is read back with the same key, fingerprint, time and
value. -/
theorem exists_encode? (hkey : Utf8.valid e.key = true)
    (hprint : Utf8.valid e.fingerprint = true) (hstored : e.stored.Writable)
    (hdata : Json.parse? e.data = some j) (hdepth : depth j < depthLimit) :
    ∃ raw data k, e.encode? = some raw ∧ parse? raw = some { e with data } ∧
      Json.parse? data = some k ∧ k.value = j.value := by
  obtain ⟨hspelled, -⟩ := parse?_eq_some hdata
  have hsafe := markupSafe_respells j hspelled
  have hstripped := hsafe.trans (stripped_respells _ hsafe.spelled)
  refine ⟨_, source (stripped j.markupSafe), stripped j.markupSafe,
    encode?_eq hstored.isStrict hdata, ?_,
    parse?_source hstripped.spelled (hstripped.depth.trans_le hdepth.le), hstripped.value⟩
  rw [parse?_written hstored hspelled, if_pos hdepth, reread, Utf8.repair_of_valid hkey,
    Utf8.repair_of_valid hprint]

end CacheEntry

end MetricHistory
