import MetricHistory.Cache
import MetricHistory.Snapshot.Basic
import MetricHistory.Proofs.Analyzer.Document
import MetricHistory.Proofs.Decimal.Notation
import MetricHistory.Proofs.Json.Compact

/-!
# What is left of a snapshot in the cache

A snapshot goes into the cache as the text of an object, which becomes a member of the object that
the entry is written as.  So every finding is made safe for markup and stripped of its blank space
twice, and read back twice.

* `Json.Plain` : the keys of both objects go through all of this as they are;
* `CacheEntry.parse?_encode?` : an entry that is read back has the key and the fingerprint it was
  written with, repaired, and the data as one of its members;
* `Snapshot.parse?_stored` : **the snapshot in it has the same measurement.**
-/

namespace MetricHistory

namespace Json

open Literal

/-! ### Records -/

/-- The key is spelled in the same way everywhere. -/
def Plain (key : Text) : Prop :=
  escape true key = key ∧ markupSafeBody key = key ∧ Utf8.repair key = key

instance (key : Text) : Decidable (Plain key) := inferInstanceAs (Decidable (_ ∧ _ ∧ _))

theorem Plain.isBody {key : Text} (h : Plain key) : IsBody key := h.1 ▸ isBody_escape true key

theorem Plain.unescape_eq {key : Text} (h : Plain key) : unescape key = key := by
  have hrepair := unescape_escape true key
  rwa [h.1, h.2.2] at hrepair

/-- A list of members with plain keys. -/
def PlainKeys (ms : List (Text × Json)) : Prop := ∀ key ∈ ms.map Prod.fst, Plain key

/-- The members with their values respelled. -/
def mapValues (f : Json → Json) (ms : List (Text × Json)) : List (Text × Json) :=
  ms.map (Prod.map id f)

variable {ms : List (Text × Json)}

theorem PlainKeys.mapValues (h : PlainKeys ms) (f : Json → Json) : PlainKeys (mapValues f ms) := by
  have hkeys : (Json.mapValues f ms).map Prod.fst = ms.map Prod.fst := by simp [Json.mapValues]
  rwa [PlainKeys, hkeys]

theorem stripped_record (ms : List (Text × Json)) :
    stripped (record ms) = record (mapValues stripped ms) := by
  have hmembers : membersStripped (ofMembers ms) = ofMembers (mapValues stripped ms) := by
    induction ms with
    | nil => rfl
    | cons m ms ih =>
      rw [ofMembers, membersStripped, ih]
      rfl
  rw [record, stripped, hmembers, record]

theorem markupSafe_record (h : PlainKeys ms) :
    markupSafe (record ms) = record (mapValues markupSafe ms) := by
  have hmembers : membersMarkupSafe (ofMembers ms) = ofMembers (mapValues markupSafe ms) := by
    induction ms with
    | nil => rfl
    | cons m ms ih =>
      have hkey : Plain m.1 := h m.1 (by simp)
      rw [ofMembers, membersMarkupSafe, hkey.2.1, ih fun key hk => h key (List.mem_cons_of_mem _ hk)]
      rfl
  rw [record, markupSafe, hmembers, record]

theorem memberList_ofMembers (h : PlainKeys ms) : memberList (ofMembers ms) = ms := by
  induction ms with
  | nil => rfl
  | cons m ms ih =>
    have hkey : Plain m.1 := h m.1 (by simp)
    rw [ofMembers, memberList, hkey.unescape_eq, ih fun key hk => h key (List.mem_cons_of_mem _ hk)]

theorem spelled_record (h : PlainKeys ms) (hv : ∀ m ∈ ms, Spelled m.2) : Spelled (record ms) := by
  have hmembers : MembersSpelled (ofMembers ms) := by
    induction ms with
    | nil => trivial
    | cons m ms ih =>
      have hkey : Plain m.1 := h m.1 (by simp)
      exact ⟨blank_nil, hkey.isBody, blank_nil, blank_nil, hv m (by simp), blank_nil,
        ih (fun key hk => h key (List.mem_cons_of_mem _ hk))
          fun m' hm => hv m' (List.mem_cons_of_mem _ hm)⟩
  exact ⟨blank_nil, fun _ => rfl, hmembers⟩

theorem spelled_ofText (markup : Bool) (t : Text) : Spelled (ofText markup t) :=
  isBody_escape markup t

theorem field_of_matching {α : Type} {name : Text} {v : Json} (h : matching name ms = [v])
    (decode : α → Json → Option α) (start : α) : field name decode start ms = decode start v := by
  rw [field, h, decodeAll, List.foldlM_cons]
  cases decode start v <;> rfl

theorem rawField_of_matching {name : Text} {v : Json} (h : matching name ms = [v]) (start : Text) :
    rawField name start ms = source v := by
  rw [rawField, h]
  rfl

theorem eq_of_parse?_compact {j k : Json} (h : Spelled j) (hp : parse? (compact j) = some k) :
    k = stripped j := by
  rw [compact_eq] at hp
  exact eq_of_parse?_source (stripped_respells j h).spelled hp

/-- The tree of a text, `null` for a text that has none. -/
def ofRaw (raw : Text) : Json := (parse? raw).getD .null

theorem IsText.ofRaw_facts {raw : Text} (h : IsText raw) :
    parse? raw = some (ofRaw raw) ∧ Spelled (ofRaw raw) ∧ depth (ofRaw raw) ≤ depthLimit ∧
      source (ofRaw raw) = raw := by
  obtain ⟨j, hs, hd, rfl⟩ := h
  have hread := parse?_source hs hd
  have hraw : ofRaw (source j) = j := by rw [ofRaw, hread]; rfl
  rw [hraw]
  exact ⟨hread, hs, hd, rfl⟩

/-- What a tree has become when it has been written as a text, put into a larger tree and written
with that again. -/
def restored (j : Json) : Json := stripped (markupSafe (stripped j))

theorem restored_respells {j : Json} (h : Spelled j) : Respells j (restored j) := by
  have h₁ := stripped_respells j h
  have h₂ := markupSafe_respells _ h₁.spelled
  exact (h₁.trans h₂).trans (stripped_respells _ h₂.spelled)

/-- The text of a finding that was stored and is read back. -/
def restoredText (raw : Text) : Text := source (restored (ofRaw raw).markupSafe)

theorem restored_record (h : PlainKeys ms) :
    restored (record ms) = record (mapValues restored ms) := by
  rw [restored, stripped_record, markupSafe_record (h.mapValues stripped), stripped_record]
  simp only [mapValues, List.map_map]
  rfl

end Json

/-! ### Entries -/

namespace CacheEntry

open Json

/-- The members of an entry with the given values. -/
def members (key fingerprint stored data : Json) : List (Text × Json) :=
  [(Text.ofString "key", key), (Text.ofString "fingerprint", fingerprint),
   (Text.ofString "stored", stored), (Text.ofString "data", data)]

variable {key fingerprint stored data j : Json}

theorem plainKeys_members : PlainKeys (members key fingerprint stored data) := by
  have hkeys : ∀ k ∈ [Text.ofString "key", "fingerprint", "stored", "data"], Plain k := by
    decide +kernel
  exact hkeys

theorem matching_key : matching "key" (members key fingerprint stored data) = [key] := by cbv

theorem matching_fingerprint :
    matching "fingerprint" (members key fingerprint stored data) = [fingerprint] := by cbv

theorem matching_data : matching "data" (members key fingerprint stored data) = [data] := by cbv

/-- The members that an entry is written with, from the tree of its data. -/
def written (e : CacheEntry) (j : Json) : List (Text × Json) :=
  members (ofText true e.key) (ofText true e.fingerprint) (ofText true (e.stored.rfc3339 true))
    j.markupSafe

theorem plainKeys_written (e : CacheEntry) (j : Json) : PlainKeys (e.written j) := plainKeys_members

theorem spelled_written (e : CacheEntry) (h : Spelled j) : Spelled (record (e.written j)) := by
  refine spelled_record (e.plainKeys_written j) fun m hm => ?_
  simp only [written, members, List.mem_cons, List.not_mem_nil, or_false] at hm
  rcases hm with rfl | rfl | rfl | rfl
  · exact spelled_ofText true _
  · exact spelled_ofText true _
  · exact spelled_ofText true _
  · exact (markupSafe_respells j h).spelled

theorem encode?_eq_some {e : CacheEntry} {raw : Text} (h : e.encode? = some raw) :
    ∃ j, Json.parse? e.data = some j ∧ raw = compact (record (e.written j)) := by
  simp only [encode?, Option.bind_eq_bind, Option.bind_eq_some_iff] at h
  obtain ⟨j, hj, h⟩ := h
  split at h
  · simp at h
  · exact ⟨j, hj, (Option.some.inj h).symm⟩

/-- **What is left of an entry that was written and is read back.** -/
theorem parse?_encode? {e e' : CacheEntry} {raw : Text} (h : e.encode? = some raw)
    (hdata : Json.parse? e.data = some j) (hp : parse? raw = some e') :
    e'.key = Utf8.repair e.key ∧ e'.fingerprint = Utf8.repair e.fingerprint ∧
      e'.data = source (stripped j.markupSafe) := by
  obtain ⟨j', hdata', rfl⟩ := encode?_eq_some h
  obtain rfl : j = j' := Option.some.inj (hdata.symm.trans hdata')
  obtain ⟨k, hk, hp⟩ := Option.bind_eq_some_iff.1 hp
  obtain rfl := eq_of_parse?_compact (e.spelled_written (parse?_eq_some hdata).1) hk
  rw [stripped_record, record, decodeRecord,
    memberList_ofMembers ((e.plainKeys_written j).mapValues stripped)] at hp
  change ofMembers {} (members (stripped (ofText true e.key)) (stripped (ofText true e.fingerprint))
    (stripped (ofText true (e.stored.rfc3339 true))) (stripped j.markupSafe)) = some e' at hp
  simp only [ofMembers, field_of_matching matching_key, field_of_matching matching_fingerprint,
    rawField_of_matching matching_data, Option.bind_eq_bind, Option.bind_eq_some_iff,
    Option.pure_def, Option.some.injEq] at hp
  obtain ⟨key, hkey, print, hprint, stored, -, rfl⟩ := hp
  refine ⟨?_, ?_, rfl⟩
  · rw [← Option.some.inj hkey]
    exact Literal.unescape_escape true e.key
  · rw [← Option.some.inj hprint]
    exact Literal.unescape_escape true e.fingerprint

end CacheEntry

/-! ### Snapshots -/

namespace Snapshot

open Json Literal

/-- The value of a finding. -/
def findingValue? (raw : Text) : Option JsonValue := (finding? false raw).map Json.value

/-- Two findings are the same JSON value. -/
def SameFinding (raw raw' : Text) : Prop :=
  ∃ v, findingValue? raw = some v ∧ findingValue? raw' = some v

/-- Two snapshots say the same of the code that was measured. -/
structure SameMeasurement (s t : Snapshot) : Prop where
  testLoc : s.testLoc = t.testLoc
  production : SameFinding s.production t.production
  surfaceArea : SameFinding s.surfaceArea t.surfaceArea
  surfaceAreaLists : SameFinding s.surfaceAreaLists t.surfaceAreaLists
  antipatterns : SameFinding s.antipatterns t.antipatterns
  hotspots : SameFinding s.hotspots t.hotspots

/-- Two snapshots are the same up to the spelling of their findings. -/
structure Same (s t : Snapshot) : Prop extends SameMeasurement s t where
  date : s.date = t.date
  commit : s.commit = t.commit

theorem SameFinding.symm {raw raw' : Text} (h : SameFinding raw raw') : SameFinding raw' raw := by
  obtain ⟨v, hv, hv'⟩ := h
  exact ⟨v, hv', hv⟩

theorem SameFinding.trans {raw raw' raw'' : Text} (h : SameFinding raw raw')
    (h' : SameFinding raw' raw'') : SameFinding raw raw'' := by
  obtain ⟨v, hv, hv'⟩ := h
  obtain ⟨u, hu, hu'⟩ := h'
  obtain rfl : v = u := Option.some.inj (hv'.symm.trans hu)
  exact ⟨v, hv, hu'⟩

theorem Same.symm {s t : Snapshot} (h : s.Same t) : t.Same s where
  testLoc := h.testLoc.symm
  production := h.production.symm
  surfaceArea := h.surfaceArea.symm
  surfaceAreaLists := h.surfaceAreaLists.symm
  antipatterns := h.antipatterns.symm
  hotspots := h.hotspots.symm
  date := h.date.symm
  commit := h.commit.symm

theorem Same.trans {s t u : Snapshot} (h : s.Same t) (h' : t.Same u) : s.Same u where
  testLoc := h.testLoc.trans h'.testLoc
  production := h.production.trans h'.production
  surfaceArea := h.surfaceArea.trans h'.surfaceArea
  surfaceAreaLists := h.surfaceAreaLists.trans h'.surfaceAreaLists
  antipatterns := h.antipatterns.trans h'.antipatterns
  hotspots := h.hotspots.trans h'.hotspots
  date := h.date.trans h'.date
  commit := h.commit.trans h'.commit

/-- The snapshot can be written down and read again. -/
structure WellFormed (s : Snapshot) : Prop where
  testLoc : Binary64.Finite s.testLoc
  production : IsText s.production
  surfaceArea : IsText s.surfaceArea
  surfaceAreaLists : IsText s.surfaceAreaLists
  antipatterns : IsText s.antipatterns
  hotspots : IsText s.hotspots

theorem wellFormed_ofDocument (label hash : Text) {doc : Document} (h : doc.WellFormed) :
    (ofDocument label hash doc).WellFormed :=
  ⟨h.testLoc, h.production, h.surfaceArea, h.surfaceAreaLists, h.antipatterns, h.hotspots⟩

theorem finding?_of_parse? {raw : Text} {j : Json} (h : Json.parse? raw = some j) (markup : Bool) :
    finding? markup raw = some (if markup then j.markupSafe else j) := by
  have hempty : raw.isEmpty = false := by
    cases raw with
    | nil =>
      have hnone : Json.parse? [] = none := by cbv
      rw [hnone] at h
      cases h
    | cons => rfl
  rw [finding?, hempty, h]
  rfl

theorem sameFinding_of_respells {j k : Json} (hj : Spelled j) (hd : depth j ≤ depthLimit)
    (h : Respells j k) : SameFinding (source k) (source j) := by
  refine ⟨value j, ?_, ?_⟩
  · rw [findingValue?, finding?_of_parse? (parse?_source h.spelled (h.depth.trans_le hd))]
    exact congrArg some h.value
  · rw [findingValue?, finding?_of_parse? (parse?_source hj hd)]
    rfl

theorem sameFinding_refl {raw : Text} (h : IsText raw) : SameFinding raw raw := by
  obtain ⟨j, hs, hd, rfl⟩ := h
  exact sameFinding_of_respells hs hd ⟨hs, rfl, rfl⟩

theorem WellFormed.same_refl {s : Snapshot} (h : s.WellFormed) : s.Same s where
  testLoc := rfl
  production := sameFinding_refl h.production
  surfaceArea := sameFinding_refl h.surfaceArea
  surfaceAreaLists := sameFinding_refl h.surfaceAreaLists
  antipatterns := sameFinding_refl h.antipatterns
  hotspots := sameFinding_refl h.hotspots
  date := rfl
  commit := rfl

/-- The members of a snapshot with the given values. -/
def members (date commit production testLoc surfaceArea surfaceAreaLists antipatterns
    hotspots : Json) : List (Text × Json) :=
  [("date", date), ("commit", commit), ("production", production), ("testLoc", testLoc),
   ("surfaceArea", surfaceArea), ("surfaceAreaLists", surfaceAreaLists),
   ("antipatterns", antipatterns), ("hotspots", hotspots)]

section Members

variable {date commit production testLoc surfaceArea surfaceAreaLists antipatterns hotspots : Json}

theorem plainKeys_members :
    PlainKeys (members date commit production testLoc surfaceArea surfaceAreaLists antipatterns
      hotspots) := by
  have hkeys : ∀ k ∈ ([("date" : Text), "commit", "production", "testLoc", "surfaceArea",
      "surfaceAreaLists", "antipatterns", "hotspots"] : List Text), Plain k := by
    decide +kernel
  exact hkeys

/-- What is read from such members. -/
theorem ofMembers_members :
    ofMembers {} (members date commit production testLoc surfaceArea surfaceAreaLists antipatterns
      hotspots) = (do
        let date ← decodeText [] date
        let commit ← decodeText [] commit
        let testLoc ← decodeFloat 0 testLoc
        some {
          date, commit, testLoc
          production := source production
          surfaceArea := source surfaceArea
          surfaceAreaLists := source surfaceAreaLists
          antipatterns := source antipatterns
          hotspots := source hotspots }) := by
  generalize hms : members date commit production testLoc surfaceArea surfaceAreaLists
    antipatterns hotspots = ms
  have hdate : matching "date" ms = [date] := by rw [← hms]; cbv
  have hcommit : matching "commit" ms = [commit] := by rw [← hms]; cbv
  have htest : matching "testLoc" ms = [testLoc] := by rw [← hms]; cbv
  have hproduction : matching "production" ms = [production] := by rw [← hms]; cbv
  have harea : matching "surfaceArea" ms = [surfaceArea] := by rw [← hms]; cbv
  have hlists : matching "surfaceAreaLists" ms = [surfaceAreaLists] := by rw [← hms]; cbv
  have hanti : matching "antipatterns" ms = [antipatterns] := by rw [← hms]; cbv
  have hhot : matching "hotspots" ms = [hotspots] := by rw [← hms]; cbv
  simp only [ofMembers, field_of_matching hdate, field_of_matching hcommit, field_of_matching htest,
    rawField_of_matching hproduction, rawField_of_matching harea, rawField_of_matching hlists,
    rawField_of_matching hanti, rawField_of_matching hhot]

end Members

theorem spelled_number {x : Float} (h : Binary64.Finite x) : Spelled (number x) := by
  obtain ⟨negative, m, e, hx⟩ := h
  have hread := Literal.float?_render jsonNumber hx
  simp only [Literal.float?, Literal.decimalWith?, Option.bind_eq_bind, Option.bind_eq_some_iff,
    Prod.exists] at hread
  obtain ⟨_, _, -, _, _, _, ⟨p, rest, hparts, hread⟩, -⟩ := hread
  obtain ⟨hvalid, hrender⟩ := Literal.numberParts?_eq_some hparts
  split at hread
  · simp at hread
  · rename_i hrest
    have hnil : rest = [] := by simpa using hrest
    exact ⟨p, hvalid, by rw [hrender, hnil, List.append_nil]⟩

theorem decodeFloat_number {x : Float} (h : Binary64.Finite x) :
    decodeFloat 0 (number x) = some x := by
  obtain ⟨negative, m, e, hx⟩ := h
  exact Literal.float?_render jsonNumber hx

/-- The findings that a snapshot passes on. -/
def findings (s : Snapshot) : List Text :=
  [s.production, s.surfaceArea, s.surfaceAreaLists, s.antipatterns, s.hotspots]

theorem WellFormed.isText {s : Snapshot} (h : s.WellFormed) : ∀ raw ∈ s.findings, IsText raw := by
  simp only [findings, List.forall_mem_cons, List.not_mem_nil, false_imp_iff, implies_true, and_true]
  exact ⟨h.production, h.surfaceArea, h.surfaceAreaLists, h.antipatterns, h.hotspots⟩

/-- The members that a snapshot is stored with. -/
def storedMembers (s : Snapshot) : List (Text × Json) :=
  members (ofText true s.date) (ofText true s.commit) (ofRaw s.production).markupSafe
    (number s.testLoc) (ofRaw s.surfaceArea).markupSafe (ofRaw s.surfaceAreaLists).markupSafe
    (ofRaw s.antipatterns).markupSafe (ofRaw s.hotspots).markupSafe

theorem plainKeys_storedMembers (s : Snapshot) : PlainKeys s.storedMembers := plainKeys_members

theorem WellFormed.encode?_eq {s : Snapshot} (h : s.WellFormed) :
    s.encode? = some (compact (record s.storedMembers)) := by
  have hfinding : ∀ {raw : Text}, IsText raw → finding? true raw = some (ofRaw raw).markupSafe :=
    fun hraw => finding?_of_parse? hraw.ofRaw_facts.1 true
  simp only [encode?, json?, hfinding h.production, hfinding h.surfaceArea,
    hfinding h.surfaceAreaLists, hfinding h.antipatterns, hfinding h.hotspots, Option.bind_eq_bind,
    Option.bind_some, Option.map_some]
  rfl

theorem WellFormed.spelled_stored {s : Snapshot} (h : s.WellFormed) :
    Spelled (record s.storedMembers) := by
  have hfinding : ∀ {raw : Text}, IsText raw → Spelled (ofRaw raw).markupSafe := fun hraw =>
    (markupSafe_respells _ hraw.ofRaw_facts.2.1).spelled
  refine spelled_record s.plainKeys_storedMembers fun m hm => ?_
  simp only [storedMembers, members, List.mem_cons, List.not_mem_nil, or_false] at hm
  rcases hm with rfl | rfl | rfl | rfl | rfl | rfl | rfl | rfl
  · exact spelled_ofText true _
  · exact spelled_ofText true _
  · exact hfinding h.production
  · exact spelled_number h.testLoc
  · exact hfinding h.surfaceArea
  · exact hfinding h.surfaceAreaLists
  · exact hfinding h.antipatterns
  · exact hfinding h.hotspots

/-- What is left of a snapshot that was stored and is read back. -/
def restored (s : Snapshot) : Snapshot where
  date := Utf8.repair s.date
  commit := Utf8.repair s.commit
  production := restoredText s.production
  testLoc := s.testLoc
  surfaceArea := restoredText s.surfaceArea
  surfaceAreaLists := restoredText s.surfaceAreaLists
  antipatterns := restoredText s.antipatterns
  hotspots := restoredText s.hotspots

theorem decodeText_restored (t start : Text) :
    decodeText start (Json.restored (ofText true t)) = some (Utf8.repair t) := by
  change some (unescape (markupSafeBody (escape true t))) = _
  rw [unescape_markupSafeBody (isBody_escape true t), unescape_escape]

theorem WellFormed.parse?_restored {s : Snapshot} (h : s.WellFormed)
    (hd : depth (record s.storedMembers) ≤ depthLimit) :
    parse? (source (Json.restored (record s.storedMembers))) = some s.restored := by
  have hrespells := restored_respells h.spelled_stored
  rw [parse?, parse?_source hrespells.spelled (hrespells.depth.trans_le hd), Option.bind_some,
    restored_record s.plainKeys_storedMembers, decode, record, decodeRecord,
    memberList_ofMembers (s.plainKeys_storedMembers.mapValues Json.restored)]
  change ofMembers {} (members (Json.restored (ofText true s.date))
    (Json.restored (ofText true s.commit)) _ (number s.testLoc) _ _ _ _) = _
  rw [ofMembers_members, decodeText_restored, decodeText_restored, decodeFloat_number h.testLoc]
  rfl

theorem WellFormed.eq_restored {s s' : Snapshot} (h : s.WellFormed)
    (hp : parse? (source (Json.restored (record s.storedMembers))) = some s') : s' = s.restored := by
  have hrespells := restored_respells h.spelled_stored
  obtain ⟨j, hj, -⟩ := Option.bind_eq_some_iff.1 hp
  obtain rfl := eq_of_parse?_source hrespells.spelled hj
  rw [h.parse?_restored (hrespells.depth.symm.trans_le (parse?_eq_some hj).2)] at hp
  exact (Option.some.inj hp).symm

theorem sameFinding_restoredText {raw : Text} (h : IsText raw) :
    SameFinding (restoredText raw) raw := by
  obtain ⟨-, hs, hd, hraw⟩ := h.ofRaw_facts
  have hsafe := markupSafe_respells _ hs
  have hsame := sameFinding_of_respells hs hd (hsafe.trans (restored_respells hsafe.spelled))
  rwa [hraw] at hsame

theorem WellFormed.data_restored {s : Snapshot} (h : s.WellFormed) {e e' : CacheEntry} {raw : Text}
    (hdata : s.encode? = some e.data) (hraw : e.encode? = some raw)
    (he : CacheEntry.parse? raw = some e') :
    e'.data = source (Json.restored (record s.storedMembers)) := by
  obtain ⟨data, hparse, -⟩ := CacheEntry.encode?_eq_some hraw
  obtain ⟨-, -, hback⟩ := CacheEntry.parse?_encode? hraw hparse he
  rw [← Option.some.inj (h.encode?_eq.symm.trans hdata)] at hparse
  obtain rfl := eq_of_parse?_compact h.spelled_stored hparse
  exact hback

/-- **The snapshot in an entry that was stored and is read back has the same measurement.** -/
theorem parse?_stored {s s' : Snapshot} (hs : s.WellFormed) {e e' : CacheEntry} {raw : Text}
    (hdata : s.encode? = some e.data) (hraw : e.encode? = some raw)
    (he : CacheEntry.parse? raw = some e') (hp : parse? e'.data = some s') :
    s'.SameMeasurement s := by
  rw [hs.data_restored hdata hraw he] at hp
  rw [hs.eq_restored hp]
  exact ⟨rfl, sameFinding_restoredText hs.production, sameFinding_restoredText hs.surfaceArea,
    sameFinding_restoredText hs.surfaceAreaLists, sameFinding_restoredText hs.antipatterns,
    sameFinding_restoredText hs.hotspots⟩

end Snapshot

end MetricHistory
