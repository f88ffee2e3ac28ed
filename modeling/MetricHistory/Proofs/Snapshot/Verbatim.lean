import MetricHistory.Proofs.Cache.Map
import MetricHistory.Proofs.Json.Markup
import MetricHistory.Proofs.Report.Codec
import MetricHistory.Proofs.Snapshot.Transparency
import MetricHistory.Report.File

/-!
# Findings that keep their text

A snapshot from the cache stands in a report for a measurement that is not made again.  Its findings
are the same values, but not always in the same spelling: an entry of the cache is made safe for
markup, and a report is not.

* `Json.SameText` : two texts are the same when the blank space is left out of both;
* `Json.sameText_restoredText_iff` : **a finding from the cache has the same text exactly if no
  string and no key in it shows a character that markup gives a meaning;**
* `Cache.get_set` : what a cache gives back of the data that were stored, if anything;
* `Report.encode?_congr` : reports that differ in the blank space of their findings have the same text;
* `SeriesPlan.refetched_verbatim_iff` : **when a snapshot comes back from the cache as it was put
  there, and that a report is then the same with the one as with the other.**
-/

namespace MetricHistory

namespace Json

/-! ### Texts without blank space -/

/-- The two texts are the same when the blank space is left out of both. -/
def SameText (raw raw' : Text) : Prop :=
  ∃ t, (parse? raw).map compact = some t ∧ (parse? raw').map compact = some t

theorem compact_stripped (j : Json) : compact (stripped j) = compact j := by
  rw [compact_eq, stripped_stripped, ← compact_eq]

theorem compact_restored (j : Json) : compact (restored j) = compact (markupSafe j) := by
  rw [restored, compact_stripped, markupSafe_stripped, compact_stripped]

variable {raw raw' : Text}

theorem sameText_iff_compact_eq (h : IsText raw) (h' : IsText raw') :
    SameText raw raw' ↔ compact (ofRaw raw) = compact (ofRaw raw') := by
  rw [SameText, h.ofRaw_facts.1, h'.ofRaw_facts.1]
  simp [eq_comm]

theorem stripped_eq_of_sameText (h : IsText raw) (h' : IsText raw') (hsame : SameText raw raw') :
    stripped (ofRaw raw) = stripped (ofRaw raw') := by
  obtain ⟨-, hs, hd, -⟩ := h.ofRaw_facts
  obtain ⟨-, hs', hd', -⟩ := h'.ofRaw_facts
  have hread := parse?_compact hs hd
  rw [(sameText_iff_compact_eq h h').1 hsame, parse?_compact hs' hd'] at hread
  exact (Option.some.inj hread).symm

theorem stripped_eq_of_sameTexts {raws raws' : List Text} (h : ∀ raw ∈ raws, IsText raw)
    (h' : ∀ raw ∈ raws', IsText raw) (hsame : List.Forall₂ SameText raws raws') :
    raws.map (fun raw => stripped (ofRaw raw)) = raws'.map fun raw => stripped (ofRaw raw) := by
  induction hsame with
  | nil => rfl
  | cons hraw _ ih =>
    rw [List.forall_mem_cons] at h h'
    rw [List.map_cons, List.map_cons, stripped_eq_of_sameText h.1 h'.1 hraw, ih h.2 h'.2]

theorem IsText.restoredText (h : IsText raw) :
    IsText (restoredText raw) ∧ ofRaw (restoredText raw) = restored (ofRaw raw).markupSafe := by
  obtain ⟨-, hs, hd, -⟩ := h.ofRaw_facts
  have hsafe := markupSafe_respells _ hs
  have hrespells := hsafe.trans (restored_respells hsafe.spelled)
  have hdepth := hrespells.depth.trans_le hd
  refine ⟨⟨_, hrespells.spelled, hdepth, rfl⟩, ?_⟩
  rw [ofRaw, Json.restoredText, parse?_source hrespells.spelled hdepth]
  rfl

/-- **A finding from the cache has the same text exactly if it is unmarked.** -/
theorem sameText_restoredText_iff (h : IsText raw) :
    SameText (restoredText raw) raw ↔ Unmarked (ofRaw raw) := by
  obtain ⟨htext, htree⟩ := h.restoredText
  rw [sameText_iff_compact_eq htext h, htree, compact_restored, compact_markupSafe_twice_iff]

end Json

open Json

/-! ### What a cache gives back -/

namespace Cache

variable {c : Cache} {place : Place} {fs : FileSystem} {later : Time}

/-- **What a cache gives back of the data that were stored, as long as they are not too old.** -/
theorem get_set (henabled : c.enabled = true) (hhome : Home c.dir place fs)
    (hclock : fs.clock.Writable) {data : Text} {j : Json} (hdata : Json.parse? data = some j)
    (hfresh : c.isExpired later { stored := fs.clock } = false) (key fingerprint : Text) :
    ((c.get key fingerprint).run (((c.set key fingerprint data).run fs).2.atTime later)).1 =
      if Utf8.valid key = true ∧ Utf8.valid fingerprint = true ∧ depth j < depthLimit then
        some (source (stripped j.markupSafe))
      else none := by
  let e : CacheEntry := { key, fingerprint, stored := fs.clock, data }
  have hencode : CacheEntry.encode? { key, fingerprint, stored := fs.clock, data } =
      some (compact (record (e.written j))) := CacheEntry.encode?_eq hclock.isStrict hdata
  -- the file of the entry is the one that was written, then and later
  obtain ⟨fs', hreplace, hr⟩ := hhome.replace_run key (compact (record (e.written j)))
  have hset : ((c.set key fingerprint data).run fs).2 = fs' := by
    rw [set_state, if_neg (by simp [henabled]), hencode]
    simp only [hreplace]
  have hfile : (fs'.atTime later).node? (place ++ [entryName key]) =
      some (.file (fs.granted 0o600) (compact (record (e.written j))) fs.clock) :=
    (hr.node (entryName key)).trans (if_pos rfl)
  -- what is read back has been repaired, so it is for the key only if that needs no repair
  have hexpired : c.isExpired (fs'.atTime later).clock (e.reread j) = false := hfresh
  rw [hset, (hr.home.atTime later).get_file henabled hfile,
    CacheEntry.parse?_written hclock (Json.parse?_eq_some hdata).1]
  by_cases hd : depth j < depthLimit
  · rw [if_pos hd, Option.bind_some, hexpired]
    simp only [CacheEntry.reread, e, Utf8.repair_eq_self_iff, hd, and_true]
  · simp [hd]

end Cache

/-! ### Snapshots -/

namespace Snapshot

variable {s t : Snapshot}

theorem WellFormed.restored (h : s.WellFormed) : s.restored.WellFormed where
  testLoc := h.testLoc
  production := h.production.restoredText.1
  surfaceArea := h.surfaceArea.restoredText.1
  surfaceAreaLists := h.surfaceAreaLists.restoredText.1
  antipatterns := h.antipatterns.restoredText.1
  hotspots := h.hotspots.restoredText.1

theorem WellFormed.depth_stored_le_iff (h : s.WellFormed) {n : ℕ} :
    depth (record s.storedMembers) ≤ n + 1 ↔ ∀ raw ∈ s.findings, depth (ofRaw raw) ≤ n := by
  have htext : ∀ t : Text, depth (ofText true t) ≤ n := fun _ => Nat.zero_le n
  have hnumber : depth (number s.testLoc) ≤ n := Nat.zero_le n
  have hsafe : ∀ {raw : Text}, IsText raw → depth (ofRaw raw).markupSafe = depth (ofRaw raw) :=
    fun hraw => (markupSafe_respells _ hraw.ofRaw_facts.2.1).depth
  rw [depth_record_le_iff]
  simp only [storedMembers, members, findings, List.forall_mem_cons, List.not_mem_nil, false_imp_iff,
    implies_true, and_true, true_and, htext, hnumber, hsafe h.production, hsafe h.surfaceArea,
    hsafe h.surfaceAreaLists, hsafe h.antipatterns, hsafe h.hotspots]

theorem WellFormed.json?_eq (h : s.WellFormed) : s.json? false = some s.tree :=
  Snapshot.json?_eq fun raw hraw => (h.isText raw hraw).ofRaw_facts.1

theorem WellFormed.stripped_tree_eq (hs : s.WellFormed) (ht : t.WellFormed) (hdate : s.date = t.date)
    (hcommit : s.commit = t.commit) (htest : s.testLoc = t.testLoc)
    (hsame : List.Forall₂ SameText s.findings t.findings) : stripped s.tree = stripped t.tree :=
  stripped_tree_congr hdate hcommit htest (stripped_eq_of_sameTexts hs.isText ht.isText hsame)

end Snapshot

/-! ### Reports -/

namespace Report

/-- The tree of the snapshot in a report, without its blank space. -/
def strippedJson? (s : Snapshot) : Option Json := (s.json? false).map stripped

variable {r : Report} {ss ts : List Snapshot}

theorem mapM_json?_congr (h : ss.map strippedJson? = ts.map strippedJson?) :
    (ss.mapM (Snapshot.json? false)).map (List.map stripped) =
      (ts.mapM (Snapshot.json? false)).map (List.map stripped) := by
  have hstripped : ∀ l : List Snapshot, (l.mapM (Snapshot.json? false)).map (List.map stripped) =
      (l.map strippedJson?).mapM id := by
    intro l
    induction l with
    | nil => rfl
    | cons s l ih =>
      rw [List.mapM_cons, List.map_cons, List.mapM_cons, ← ih, id, strippedJson?]
      cases s.json? false <;> cases l.mapM (Snapshot.json? false) <;> rfl
  rw [hstripped, hstripped, h]

/-- **Reports whose snapshots differ in blank space only have the same text.** -/
theorem encode?_congr (h : ss.map strippedJson? = ts.map strippedJson?) :
    encode? { r with snapshots := ss } = encode? { r with snapshots := ts } := by
  have htrees := mapM_json?_congr h
  simp only [encode?, json?]
  cases hss : ss.mapM (Snapshot.json? false) with
  | none =>
    cases hts : ts.mapM (Snapshot.json? false) with
    | none => rfl
    | some ks => simp [hss, hts] at htrees
  | some js =>
    cases hts : ts.mapM (Snapshot.json? false) with
    | none => simp [hss, hts] at htrees
    | some ks =>
      simp only [hss, hts, Option.map_some, Option.some.injEq] at htrees
      simp only [Option.bind_eq_bind, Option.bind_some]
      cases r.generated.isStrict
      · rfl
      · refine congrArg (fun t => some (t ++ Text.ofString "\n")) ?_
        rw [indented_eq, indented_eq]
        refine congrArg source (laidOut_of_stripped_eq ?_ 0)
        simp only [stripped_record, mapValues, List.map_cons, List.map_nil, Prod.map_apply,
          stripped_list, htrees]

theorem write_congr {r' : Report} (h : r.encode? = r'.encode?) (path : Text) :
    write path r = write path r' := by
  have hfill : ∀ temp, fillAndMove path temp r = fillAndMove path temp r' := by
    intro temp
    rw [fillAndMove, fillAndMove, h]
  simp only [write, hfill]

end Report

/-! ### The cache of a series -/

namespace SeriesPlan

variable {σ : Type} (p : SeriesPlan σ) {c : Cache} {fingerprint : Text} {place : Place} {w : World σ}
  {later : Time} {s : Snapshot}

/-- What is found under a key, some time after a snapshot was kept under it. -/
def refetched (key : Text) (s : Snapshot) (fields : LogFields) (later : Time) (w : World σ) :
    Option Snapshot :=
  let kept := ((p.store key s fields).run w).2
  ((p.cached key).run { kept with files := kept.files.atTime later }).1

theorem store_files (h : p.cache = some (c, fingerprint)) {data : Text} (hdata : s.encode? = some data)
    (key : Text) (fields : LogFields) :
    ((p.store key s fields).run w).2.files = ((c.set key fingerprint data).run w.files).2 := by
  have hleads : Action.Leads (fun w' => w' = w) (p.store key s fields) fun _ w' =>
      w'.files = ((c.set key fingerprint data).run w.files).2 := by
    rw [store, h]
    refine Action.Leads.bind
      (Q := fun _ w' => w'.files = ((c.set key fingerprint data).run w.files).2) ?_ fun result => ?_
    · rintro _ rfl
      rw [hdata]
      rfl
    · rcases result with f | _
      · exact Action.log_leads (fun _ _ hw => hw) _ _ _
      · exact fun _ hw => hw
  exact hleads w rfl

/-- **What is found of a snapshot that was kept, as long as it is not too old.** -/
theorem refetched_eq (hcache : p.cache = some (c, fingerprint)) (henabled : c.enabled = true)
    (hhome : Cache.Home c.dir place w.files) (hclock : w.files.clock.Writable)
    (hfresh : c.isExpired later { stored := w.files.clock } = false) (hs : s.WellFormed)
    (hparts : ∀ raw ∈ s.findings, IsPart raw) (key : Text) (fields : LogFields) :
    p.refetched key s fields later w =
      if Utf8.valid key = true ∧ Utf8.valid fingerprint = true ∧
          ∀ raw ∈ s.findings, depth (ofRaw raw) + 2 ≤ depthLimit then
        some s.restored
      else none := by
  have hspelled := hs.spelled_stored
  have hlimit : depthLimit = depthLimit - 2 + 1 + 1 := by decide
  -- a finding has stood in an output already, so the text of the snapshot is not too deep; that of
  -- the entry around it may be
  have hstored : depth (record s.storedMembers) ≤ depthLimit := by
    rw [hlimit, hs.depth_stored_le_iff]
    intro raw hraw
    obtain ⟨j, hj, hd, rfl⟩ := hparts raw hraw
    have htree : ofRaw (source j) = j := by rw [ofRaw, parse?_source hj hd.le]; rfl
    rw [htree]
    omega
  have hdeep : depth (stripped (record s.storedMembers)) < depthLimit ↔
      ∀ raw ∈ s.findings, depth (ofRaw raw) + 2 ≤ depthLimit := by
    rw [(stripped_respells _ hspelled).depth, hlimit, Nat.lt_succ_iff, hs.depth_stored_le_iff]
    exact forall₂_congr fun raw _ => by omega
  have hget := Cache.get_set henabled hhome hclock (parse?_compact hspelled hstored) hfresh key
    fingerprint
  have hfound : p.refetched key s fields later w = (((c.get key fingerprint).run
      (((c.set key fingerprint (compact (record s.storedMembers))).run w.files).2.atTime
        later)).1).bind Snapshot.parse? := by
    rw [refetched, p.cached_run hcache, ← p.store_files hcache hs.encode?_eq key fields]
    rfl
  rw [hfound, hget]
  simp only [hdeep]
  split
  · exact hs.parse?_restored hstored
  · rfl

/-- **When a measurement comes back from the cache as it was put there, and that a report is then the
same with the one as with the other.**  It comes back whenever the key and the fingerprint are
characters and no finding is too deep for an entry, and it is the same, up to blank space, exactly if
no string and no key in its findings shows a character that markup gives a meaning. -/
theorem refetched_verbatim_iff {data : Text} {doc : Document} (hdoc : Document.parse data = .ok doc)
    (hcache : p.cache = some (c, fingerprint)) (henabled : c.enabled = true)
    (hhome : Cache.Home c.dir place w.files) (hclock : w.files.clock.Writable)
    (hfresh : c.isExpired later { stored := w.files.clock } = false) (label hash key : Text)
    (fields : LogFields) :
    let s := Snapshot.ofDocument label hash doc
    let found := p.refetched key s fields later w
    ((∃ s', found = some s' ∧ List.Forall₂ SameText s'.findings s.findings) ↔
      Utf8.valid key = true ∧ Utf8.valid fingerprint = true ∧
        ∀ raw ∈ s.findings, depth (ofRaw raw) + 2 ≤ depthLimit ∧ Unmarked (ofRaw raw)) ∧
    ∀ s', found = some s' → List.Forall₂ SameText s'.findings s.findings →
      ∀ (r : Report) (before after : List Snapshot) (path : Text),
        Report.write path
            { r with snapshots := before ++ { s' with date := s.date, commit := s.commit } :: after } =
          Report.write path { r with snapshots := before ++ s :: after } := by
  intro s found
  have hs : s.WellFormed :=
    Snapshot.wellFormed_ofDocument label hash (Document.wellFormed_of_parse hdoc)
  have hfound : found = _ := p.refetched_eq hcache henabled hhome hclock hfresh hs
    (Document.isPart_of_parse hdoc) key fields
  -- each finding comes back on its own
  have hsame : List.Forall₂ SameText s.restored.findings s.findings ↔
      ∀ raw ∈ s.findings, Unmarked (ofRaw raw) := by
    have hmap : s.restored.findings = s.findings.map restoredText := rfl
    rw [hmap, List.forall₂_map_left_iff, List.forall₂_same]
    exact forall₂_congr fun raw hraw => sameText_restoredText_iff (hs.isText raw hraw)
  constructor
  · rw [hfound, forall₂_and, ← hsame]
    split
    · rename_i hback
      obtain ⟨hkey, hprint, hdepth⟩ := hback
      simp only [Option.some.injEq, exists_eq_left', hkey, hprint, true_and]
      exact ⟨fun h => ⟨hdepth, h⟩, fun h => h.2⟩
    · rename_i hback
      constructor
      · rintro ⟨_, hnone, -⟩
        simp at hnone
      · rintro ⟨hkey, hprint, hdepth, -⟩
        exact absurd ⟨hkey, hprint, hdepth⟩ hback
  · intro s' hs' htexts r before after path
    obtain rfl : s' = s.restored := by
      rw [hfound] at hs'
      split at hs'
      · exact (Option.some.inj hs').symm
      · simp at hs'
    have hserved : ({ s.restored with date := s.date, commit := s.commit } : Snapshot).WellFormed :=
      ⟨hs.restored.testLoc, hs.restored.production, hs.restored.surfaceArea,
        hs.restored.surfaceAreaLists, hs.restored.antipatterns, hs.restored.hotspots⟩
    refine Report.write_congr (Report.encode?_congr ?_) path
    simp only [List.map_append, List.map_cons, Report.strippedJson?, hserved.json?_eq, hs.json?_eq,
      Option.map_some, hserved.stripped_tree_eq hs rfl rfl rfl htexts]

/-! ### A title with a tag -/

/-- A plan with a cache in a directory that is there and empty. -/
def smallPlan : SeriesPlan Nat :=
  { onlyPlan none with cache := some ({ dir := "/c", ttl := 10, enabled := true }, "v1") }

/-- The world of the plan. -/
def smallWorld : World Nat where
  files := Cache.oneDir.atTime ⟨0, 0, 0⟩
  outside := 0

theorem smallWorld_home : Cache.Home "/c" [Text.ofString "c"] smallWorld.files :=
  (Cache.reflects_empty (c := { dir := "/c" }) Cache.oneDir_scratch Cache.oneDir_distinct
    Cache.oneDir_empty [] ⟨0, 0, 0⟩ ⟨0, 0, 0⟩).home.atTime _

theorem smallWorld_writable : smallWorld.files.clock.Writable :=
  ⟨by decide, ⟨by decide, by decide⟩, by decide, by decide⟩

theorem smallPlan_fresh :
    Cache.isExpired { dir := "/c", ttl := 10, enabled := true } ⟨0, 5, 0⟩
      { stored := smallWorld.files.clock } = false := by decide

theorem exists_parse {data : Text} {found : List Text}
    (h : (Document.parse data).toOption.any (·.findings == found) = true) :
    ∃ doc, Document.parse data = .ok doc ∧ doc.findings = found := by
  rcases hread : Document.parse data with f | doc
  · simp [hread, Except.toOption] at h
  · exact ⟨doc, rfl, by simpa [hread, Except.toOption] using h⟩

/-- The output of an analyzer that found an area of the surface with a title. -/
def titled (title : Text) : Text :=
  "\x7b\"production\":\x7b\"loc\":1\x7d,\"surfaceArea\":\x7b \"a\": \"" ++ title ++ "\" \x7d\x7d"

/-- The findings in it. -/
def titledFindings (title : Text) : List Text :=
  ["\x7b\"loc\":1\x7d", Text.ofString "\x7b \"a\": \"" ++ title ++ "\" \x7d", "\x7b\x7d",
   "\x7b\x7d", "[]"]

/-- A plain title comes back, without the blank space around it. -/
theorem refetched_verbatim_iff_plain :
    ∃ doc, Document.parse (titled "b") = .ok doc ∧
      let s := Snapshot.ofDocument "2024-01" "abc" doc
      ∃ s', smallPlan.refetched "k" s [] ⟨0, 5, 0⟩ smallWorld = some s' ∧
        List.Forall₂ SameText s'.findings s.findings ∧
        ∀ (r : Report) (before after : List Snapshot) (path : Text),
          Report.write path
              { r with snapshots := before ++ { s' with date := s.date, commit := s.commit } :: after } =
            Report.write path { r with snapshots := before ++ s :: after } := by
  obtain ⟨doc, hdoc, hfindings⟩ := exists_parse
    (show (Document.parse (titled "b")).toOption.any (·.findings == titledFindings "b") = true by
      decide +kernel)
  have hdepth : ∀ raw ∈ titledFindings "b", depth (ofRaw raw) + 2 ≤ depthLimit := by decide +kernel
  have hunmarked : ∀ raw ∈ titledFindings "b", Unmarked (ofRaw raw) := by
    have hbodies : (titledFindings "b").flatMap (fun raw => bodies (ofRaw raw)) =
        [['l', 'o', 'c'], ['a'], ['b']].map Utf8.ofChars := by decide +kernel
    intro raw hraw body hbody
    have hmem : body ∈ (titledFindings "b").flatMap fun raw => bodies (ofRaw raw) :=
      List.mem_flatMap.2 ⟨raw, hraw, hbody⟩
    rw [hbodies] at hmem
    obtain ⟨cs, hcs, rfl⟩ := List.mem_map.1 hmem
    simp only [List.mem_cons, List.not_mem_nil, or_false] at hcs
    rcases hcs with rfl | rfl | rfl <;> simp [unmarkedBody_ofChars_iff, Literal.markup]
  rw [← hfindings] at hdepth hunmarked
  obtain ⟨hiff, hreports⟩ := smallPlan.refetched_verbatim_iff hdoc rfl rfl smallWorld_home
    smallWorld_writable smallPlan_fresh "2024-01" "abc" "k" []
  obtain ⟨s', hs', hsame⟩ :=
    hiff.2 ⟨by cbv, by cbv, fun raw hraw => ⟨hdepth raw hraw, hunmarked raw hraw⟩⟩
  exact ⟨doc, hdoc, s', hs', hsame, hreports s' hs' hsame⟩

/-- A tag comes back as escapes. -/
theorem refetched_tag :
    ∃ doc, Document.parse (titled "<b>") = .ok doc ∧
      let s := Snapshot.ofDocument "2024-01" "abc" doc
      s.surfaceArea = "\x7b \"a\": \"<b>\" \x7d" ∧
      ∃ s', smallPlan.refetched "k" s [] ⟨0, 5, 0⟩ smallWorld = some s' ∧
        s'.surfaceArea = "\x7b\"a\":\"\\u003cb\\u003e\"\x7d" ∧
          ¬ SameText s'.surfaceArea s.surfaceArea := by
  obtain ⟨doc, hdoc, hfindings⟩ := exists_parse
    (show (Document.parse (titled "<b>")).toOption.any (·.findings == titledFindings "<b>") = true by
      decide +kernel)
  have hdepth : ∀ raw ∈ titledFindings "<b>", depth (ofRaw raw) + 2 ≤ depthLimit := by decide +kernel
  have harea : doc.surfaceArea = "\x7b \"a\": \"<b>\" \x7d" := by
    simp only [Document.findings, titledFindings, List.cons.injEq] at hfindings
    exact hfindings.2.1
  have hback : restoredText doc.surfaceArea = "\x7b\"a\":\"\\u003cb\\u003e\"\x7d" := by
    rw [harea]
    cbv
  rw [← hfindings] at hdepth
  have hfound := smallPlan.refetched_eq rfl rfl smallWorld_home smallWorld_writable smallPlan_fresh
    (Snapshot.wellFormed_ofDocument "2024-01" "abc" (Document.wellFormed_of_parse hdoc))
    (Document.isPart_of_parse hdoc) "k" []
  rw [if_pos ⟨by cbv, by cbv, hdepth⟩] at hfound
  refine ⟨doc, hdoc, harea, _, hfound, hback, ?_⟩
  change ¬ SameText (restoredText doc.surfaceArea) doc.surfaceArea
  rw [hback, harea]
  rintro ⟨t, hleft, hright⟩
  exact absurd (hleft.trans hright.symm) (by decide +kernel)

end SeriesPlan

end MetricHistory
