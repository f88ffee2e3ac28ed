import MetricHistory.Proofs.Cache.Entry
import MetricHistory.Proofs.Cache.Files

/-!
# A cache is a map

Calls on a cache change a map from keys to what was stored under them last (`Cache.deposits`).
The directory of the cache reflects the map (`Cache.Reflects`): under the name of each key there is
a file with what was stored, or nothing when nothing was stored or it is out of date.  Every call
keeps that up, so that lookups after any calls are lookups in the map.

* `Cache.deposits_eq_some_iff` : the map holds what the last call for a key has stored;
* `Cache.Reflects.get`, `Cache.Reflects.set`, `Cache.Reflects.invalidate`, `Cache.Reflects.clear` :
  what one call does;
* `Cache.Reflects.run` : the directory reflects the map after any calls;
* `Cache.refines_map` : **a lookup finds exactly what the map holds, and the entries that are counted
  are those of different keys.**

Not every time can be written into an entry, and not every directory can be removed by its path: a
cache whose clock is a day ahead of UTC stores nothing, and one whose path ends in a dot is never
cleared (`Cache.day_ahead_not_stored`).
-/

namespace MetricHistory

/-- The file system at a moment. -/
def FileSystem.atTime (fs : FileSystem) (t : Time) : FileSystem := { fs with clock := t }

theorem FileSystem.Sound.atTime {fs : FileSystem} (h : fs.Sound) (t : Time) : (fs.atTime t).Sound :=
  ⟨h.parent, h.current⟩

namespace Cache

open FileSystem

/-! ### Calls and what they mean -/

/-- A call on a cache. -/
inductive Call where
  | set (key fingerprint data : Text)
  | get (key fingerprint : Text)
  | invalidate (key : Text)
  | clear

/-- The files after a call. -/
def Call.run (c : Cache) (fs : FileSystem) : Call → FileSystem
  | set key fingerprint data => ((c.set key fingerprint data).run fs).2
  | get key fingerprint => ((c.get key fingerprint).run fs).2
  | invalidate key => ((c.invalidate key).run fs).2
  | clear => (c.clear.run fs).2

/-- The files after calls, each made at its time. -/
def runCalls (c : Cache) (calls : List (Time × Call)) (fs : FileSystem) : FileSystem :=
  calls.foldl (fun fs x => x.2.run c (fs.atTime x.1)) fs

/-- What was stored under a key: for which fingerprint, when, and which value. -/
structure Deposit where
  fingerprint : Text
  stored : Time
  value : JsonValue

/-- What is stored under each key. -/
abbrev Deposits := Text → Option Deposit

/-- What a call at a moment changes. -/
def Call.apply (t : Time) (m : Deposits) : Call → Deposits
  | set key fingerprint data =>
    match Json.parse? data with
    | none => m
    | some j => Function.update m key (some ⟨fingerprint, t, j.value⟩)
  | get _ _ => m
  | invalidate key => Function.update m key none
  | clear => fun _ => none

/-- What is stored after calls, when nothing was stored before. -/
def deposits (calls : List (Time × Call)) : Deposits :=
  calls.foldl (fun m x => x.2.apply x.1 m) fun _ => none

/-- The keys that a call is about. -/
def Call.keys : Call → List Text
  | set key _ _ => [key]
  | get key _ => [key]
  | invalidate key => [key]
  | clear => []

/-- What is stored under the key after the call is not what was stored before. -/
def Call.Replaces (key : Text) : Call → Prop
  | set k _ data => k = key ∧ (Json.parse? data).isSome = true
  | get _ _ => False
  | invalidate k => k = key
  | clear => True

/-- The texts of the call are characters, and its data are not too deep to be read. -/
def Call.Keepable : Call → Prop
  | set key fingerprint data =>
    Utf8.valid key = true ∧ Utf8.valid fingerprint = true ∧
      ∀ j, Json.parse? data = some j → Json.depth j < Json.depthLimit
  | _ => True

/-- The deposit is not too old at a moment. -/
def Fresh (c : Cache) (now : Time) (d : Deposit) : Prop :=
  c.ttl ≤ (0 : ℤ) ∨ now.toNanos - d.stored.toNanos ≤ c.ttl

variable {c : Cache} {s : Place} {fs fs' : FileSystem} {keys : List Text} {key fingerprint : Text}
  {now stop t : Time} {m : Deposits} {call : Call} {calls : List (Time × Call)}

theorem Call.apply_of_not_replaces (h : ¬ call.Replaces key) : call.apply t m key = m key := by
  cases call with
  | set k f data =>
    rw [Replaces, not_and] at h
    rw [apply]
    cases hj : Json.parse? data with
    | none => rfl
    | some j =>
      refine Function.update_of_ne ?_ _ _
      rintro rfl
      simp [hj] at h
  | get => rfl
  | invalidate k => exact Function.update_of_ne (Ne.symm h) _ _
  | clear => exact absurd trivial h

/-- A call among those before one more is that one, or one of them. -/
theorem split_concat {x y : Time × Call} {before after : List (Time × Call)}
    (h : calls ++ [x] = before ++ y :: after) :
    (before = calls ∧ y = x ∧ after = []) ∨
      ∃ init, after = init ++ [x] ∧ calls = before ++ y :: init := by
  rcases List.eq_nil_or_concat after with rfl | ⟨init, z, rfl⟩
  · obtain ⟨rfl, hx⟩ := List.append_inj' h rfl
    exact .inl ⟨rfl, (List.singleton_inj.1 hx).symm, rfl⟩
  · rw [List.concat_eq_append, ← List.cons_append, ← List.append_assoc] at h
    obtain ⟨rfl, hx⟩ := List.append_inj' h rfl
    exact .inr ⟨init, by rw [List.concat_eq_append, List.singleton_inj.1 hx], rfl⟩

/-- **The map holds what the last call for a key has stored.** -/
theorem deposits_eq_some_iff {d : Deposit} : deposits calls key = some d ↔
    ∃ before data j after, calls = before ++ (d.stored, .set key d.fingerprint data) :: after ∧
      Json.parse? data = some j ∧ d.value = j.value ∧ ∀ x ∈ after, ¬ x.2.Replaces key := by
  induction calls using List.reverseRecOn with
  | nil => simp [deposits]
  | append_singleton calls x ih =>
    rw [deposits, List.foldl_append, List.foldl_cons, List.foldl_nil, ← deposits]
    by_cases hr : x.2.Replaces key
    · -- only the last call counts
      constructor
      · intro hd
        obtain ⟨t, call⟩ := x
        cases call with
        | set k f data =>
          obtain ⟨rfl, hdata⟩ := hr
          obtain ⟨j, hj⟩ := Option.isSome_iff_exists.1 hdata
          simp only [Call.apply, hj, Function.update_self, Option.some.injEq] at hd
          subst hd
          exact ⟨calls, data, j, [], rfl, hj, rfl, by simp⟩
        | get => exact absurd hr id
        | invalidate k =>
          obtain rfl : k = key := hr
          simp [Call.apply] at hd
        | clear => simp [Call.apply] at hd
      · rintro ⟨before, data, j, after, heq, hj, hvalue, hafter⟩
        rcases split_concat heq with ⟨rfl, rfl, rfl⟩ | ⟨init, rfl, -⟩
        · simp only [Call.apply, hj, Function.update_self, ← hvalue]
        · exact absurd hr (hafter x (by simp))
    · rw [Call.apply_of_not_replaces hr, ih]
      constructor
      · rintro ⟨before, data, j, after, rfl, hj, hvalue, hafter⟩
        refine ⟨before, data, j, after ++ [x], by simp, hj, hvalue, fun z hz => ?_⟩
        rcases List.mem_append.1 hz with hz | hz
        · exact hafter z hz
        · exact List.mem_singleton.1 hz ▸ hr
      · rintro ⟨before, data, j, after, heq, hj, hvalue, hafter⟩
        rcases split_concat heq with ⟨-, rfl, -⟩ | ⟨init, rfl, rfl⟩
        · exact absurd ⟨rfl, by simp [hj]⟩ hr
        · exact ⟨before, data, j, init, rfl, hj, hvalue, fun z hz => hafter z (by simp [hz])⟩

/-! ### The directory and the map -/

/-- What is under the name of a key, at a moment: a file with what is stored; or nothing, when
nothing is stored or it is too old.  Up to the time `stop`, ages are durations. -/
inductive Agrees (c : Cache) (stop : Time) (key : Text) (now : Time) :
    Option Deposit → Option FileNode → Prop
  | absent : Agrees c stop key now none none
  | outdated {d : Deposit} (h : ¬ c.Fresh now d) : Agrees c stop key now (some d) none
  | held {mode : Nat} {content : Text} {modified : Time} {e : CacheEntry} {j : Json}
      (hread : CacheEntry.parse? content = some e) (hkey : e.key = key)
      (hvalue : Json.parse? e.data = some j) (hpast : e.stored.toNanos ≤ now.toNanos)
      (hnear : stop.toNanos - e.stored.toNanos ≤ maxInt64) :
      Agrees c stop key now (some ⟨e.fingerprint, e.stored, j.value⟩)
        (some (.file mode content modified))

/-- The directory of a cache reflects a map at a moment. -/
structure Reflects (c : Cache) (s : Place) (keys : List Text) (stop now : Time) (m : Deposits)
    (fs : FileSystem) : Prop where
  home : Home c.dir s fs
  named : ∀ x n, fs.node? (s ++ [x]) = some n → ∃ key ∈ keys, x = entryName key
  agrees : ∀ key ∈ keys, Agrees c stop key now (m key) (fs.node? (s ++ [entryName key]))

theorem Agrees.later {now' : Time} {d : Option Deposit} {n : Option FileNode}
    (h : Agrees c stop key now d n) (hle : now.toNanos ≤ now'.toNanos) :
    Agrees c stop key now' d n := by
  cases h with
  | absent => exact .absent
  | outdated h =>
    refine .outdated ?_
    rw [Fresh, not_or, not_le, not_le] at h ⊢
    exact ⟨h.1, h.2.trans_le (Int.sub_le_sub_right hle _)⟩
  | held hread hkey hvalue hpast hnear => exact .held hread hkey hvalue (hpast.trans hle) hnear

theorem Home.atTime {dir : Text} (h : Home dir s fs) (t : Time) : Home dir s (fs.atTime t) where
  scratch := h.scratch.confined ⟨fun _ hn => hn, fun _ hn => .inl hn, rfl, h.scratch.sound.atTime t⟩
  distinct := h.distinct
  place := h.place
  files := h.files

theorem Reflects.atTime (h : Reflects c s keys stop now m fs) (hle : now.toNanos ≤ t.toNanos) :
    Reflects c s keys stop t m (fs.atTime t) :=
  ⟨h.home.atTime t, h.named, fun key hkey => (h.agrees key hkey).later hle⟩

theorem entryName_inj {key' : Text} (hhash : Set.InjOn Blake3.hashHex {k | k ∈ keys}) (hkey : key ∈ keys)
    (hkey' : key' ∈ keys) (h : entryName key = entryName key') : key = key' :=
  hhash hkey hkey' (List.append_cancel_right h)

/-- Only the file of one key has changed. -/
theorem Reflects.replaced (h : Reflects c s keys stop now m fs)
    (hhash : Set.InjOn Blake3.hashHex {k | k ∈ keys}) (hkey : key ∈ keys) {d : Option Deposit}
    {n : Option FileNode} (hr : Replaced c.dir s (entryName key) n fs fs')
    (hagrees : Agrees c stop key now d n) :
    Reflects c s keys stop now (Function.update m key d) fs' := by
  refine ⟨hr.home, fun x n hx => ?_, fun key' hkey' => ?_⟩
  · rw [hr.node] at hx
    split at hx
    · rename_i hname
      exact ⟨key, hkey, hname⟩
    · exact h.named x n hx
  · rw [hr.node]
    by_cases hsame : key' = key
    · subst hsame
      rw [if_pos rfl, Function.update_self]
      exact hagrees
    · rw [if_neg fun hname => hsame (entryName_inj hhash hkey' hkey hname),
        Function.update_of_ne hsame]
      exact h.agrees key' hkey'

/-! ### The calls -/

theorem isExpired_iff {e : CacheEntry} {v : JsonValue} (hpast : e.stored.toNanos ≤ now.toNanos)
    (hnear : now.toNanos - e.stored.toNanos ≤ maxInt64) :
    c.isExpired now e = true ↔ ¬ c.Fresh now ⟨e.fingerprint, e.stored, v⟩ := by
  have hsub : now.sub e.stored = now.toNanos - e.stored.toNanos := by
    have hmin : minInt64 ≤ now.toNanos - e.stored.toNanos := le_trans (by decide) (sub_nonneg.2 hpast)
    rw [Time.sub, Duration.saturate, min_eq_right hnear, max_eq_right hmin]
  rw [isExpired, hsub, Fresh, Bool.and_eq_true, decide_eq_true_iff, decide_eq_true_iff, not_or, not_le,
    not_le]

/-- The answer that a lookup should give at a moment, from what is stored under the key. -/
def Answers (c : Cache) (now : Time) (d? : Option Deposit) (fingerprint : Text) : Option Text → Prop
  | none => ∀ d, d? = some d → d.fingerprint = fingerprint → ¬ c.Fresh now d
  | some data => ∃ d j, d? = some d ∧ d.fingerprint = fingerprint ∧ c.Fresh now d ∧
      Json.parse? data = some j ∧ j.value = d.value

theorem Answers.isSome_iff {d? : Option Deposit} {found : Option Text}
    (h : c.Answers now d? fingerprint found) :
    found.isSome = true ↔ ∃ d, d? = some d ∧ d.fingerprint = fingerprint ∧ c.Fresh now d := by
  cases found with
  | none =>
    simp only [Option.isSome_none, Bool.false_eq_true, false_iff]
    rintro ⟨d, hd, hprint, hfresh⟩
    exact h d hd hprint hfresh
  | some data =>
    obtain ⟨d, j, hd, hprint, hfresh, -⟩ := h
    exact ⟨fun _ => ⟨d, hd, hprint, hfresh⟩, fun _ => rfl⟩

/-- **A lookup finds what is stored under the key, unless it is too old.** -/
theorem Reflects.get (henabled : c.enabled = true) (h : Reflects c s keys stop now m fs)
    (hhash : Set.InjOn Blake3.hashHex {k | k ∈ keys}) (hkey : key ∈ keys) (hclock : fs.clock = now)
    (hstop : now.toNanos ≤ stop.toNanos) (fingerprint : Text) :
    Reflects c s keys stop now m ((c.get key fingerprint).run fs).2 ∧
      c.Answers now (m key) fingerprint ((c.get key fingerprint).run fs).1 := by
  have hn := isName_entryName key
  have hpath : c.entryPath key = Path.join [c.dir, entryName key] := rfl
  rw [get_run, if_neg (by simp [henabled]), hpath]
  have hagrees := h.agrees key hkey
  generalize hd : m key = d at hagrees
  generalize hnode : fs.node? (s ++ [entryName key]) = n at hagrees
  -- the file of the key agrees with the map in one of three ways
  cases hagrees with
  | absent =>
    obtain ⟨e, he⟩ := h.home.read_free hn hnode
    rw [he]
    exact ⟨h, by simp [Answers]⟩
  | outdated hold =>
    obtain ⟨e, he⟩ := h.home.read_free hn hnode
    rw [he]
    refine ⟨h, ?_⟩
    rintro d ⟨⟩ -
    exact hold
  | @held mode content modified e j hread hsame hvalue hpast hnear =>
    have hage : c.isExpired fs.clock e = true ↔ ¬ c.Fresh now ⟨e.fingerprint, e.stored, j.value⟩ :=
      hclock ▸ isExpired_iff (hclock ▸ hpast) (by rw [hclock]; omega)
    rw [h.home.read_file hn hnode]
    simp only [hread, hsame, ne_eq, not_true_eq_false, false_or]
    by_cases hprint : e.fingerprint = fingerprint
    · rw [if_neg (by simpa using hprint)]
      by_cases hexpired : c.isExpired fs.clock e = true
      · -- the entry is removed, and still agrees with the map
        rw [if_pos hexpired, h.home.remove_file hn hnode]
        have hold := hage.1 hexpired
        have hgone := h.replaced hhash hkey (h.home.erase hnode) (.outdated hold)
        rw [← hd, Function.update_eq_self] at hgone
        refine ⟨hgone, ?_⟩
        rintro d ⟨⟩ -
        exact hold
      · rw [if_neg hexpired]
        exact ⟨h, _, j, rfl, hprint, not_not.1 (mt hage.2 hexpired), hvalue, rfl⟩
    · rw [if_pos hprint]
      refine ⟨h, ?_⟩
      rintro d ⟨⟩ hsame
      exact absurd hsame hprint

theorem set_rejected {data : Text} (h : Json.parse? data = none) (c : Cache)
    (key fingerprint : Text) (fs : FileSystem) :
    ((c.set key fingerprint data).run fs).2 = fs := by
  rw [set_state]
  split
  · rfl
  · simp [CacheEntry.encode?, h]

theorem Reflects.set (henabled : c.enabled = true) (h : Reflects c s keys stop now m fs)
    (hhash : Set.InjOn Blake3.hashHex {k | k ∈ keys}) (hkey : key ∈ keys) (hclock : fs.clock = now)
    (hnear : stop.toNanos - now.toNanos ≤ maxInt64) (hnow : now.Writable) {data : Text}
    (hkeep : (Call.set key fingerprint data).Keepable) :
    Reflects c s keys stop now ((Call.set key fingerprint data).apply now m)
      ((c.set key fingerprint data).run fs).2 := by
  obtain ⟨hvalid, hvalid', hdepth⟩ := hkeep
  rw [Call.apply]
  cases hdata : Json.parse? data with
  | none =>
    rw [set_rejected hdata]
    exact h
  | some j =>
    obtain ⟨raw, data', k, hencode, hread, hvalue, hsame⟩ := CacheEntry.exists_encode?
      (e := { key, fingerprint, stored := now, data }) hvalid hvalid' hnow hdata (hdepth j hdata)
    obtain ⟨fs', hreplace, hr⟩ := h.home.replace_run key raw
    rw [set_state, if_neg (by simp [henabled]), hclock, hencode]
    simp only [hreplace]
    refine h.replaced hhash hkey hr ?_
    rw [← hsame]
    exact .held hread rfl hvalue (le_refl _) hnear

theorem invalidate_state (henabled : c.enabled = true) (key : Text) (fs : FileSystem) :
    ((c.invalidate key).run fs).2 = ((Files.remove (c.entryPath key)).run fs).2 := by
  rw [Cache.invalidate, henabled]
  change ((tryCatch (Files.remove (c.entryPath key)) _ : Files Unit).run fs).2 = _
  rw [tryCatch_run]
  rcases (Files.remove (c.entryPath key)).run fs with ⟨e | u, fs'⟩
  · dsimp only
    split <;> rfl
  · rfl

theorem Reflects.invalidate (henabled : c.enabled = true) (h : Reflects c s keys stop now m fs)
    (hhash : Set.InjOn Blake3.hashHex {k | k ∈ keys}) (hkey : key ∈ keys) :
    Reflects c s keys stop now ((Call.invalidate key).apply now m) ((c.invalidate key).run fs).2 := by
  have hn := isName_entryName key
  rw [invalidate_state henabled, Call.apply, show c.entryPath key = Path.join [c.dir, entryName key] from rfl]
  cases hnode : fs.node? (s ++ [entryName key]) with
  | none =>
    obtain ⟨e, he⟩ := h.home.remove_free hn hnode
    rw [he]
    refine h.replaced hhash hkey ⟨h.home, fun x => ?_⟩ .absent
    split
    · rename_i hx
      rw [hx, hnode]
    · rfl
  | some n =>
    rw [h.home.remove_file hn hnode]
    exact h.replaced hhash hkey (h.home.erase hnode) .absent

theorem Reflects.clear (henabled : c.enabled = true) (h : Reflects c s keys stop now m fs) :
    Reflects c s keys stop now (Call.clear.apply now m) (c.clear.run fs).2 := by
  obtain ⟨hrun, hhome, hnone⟩ := h.home.clear_run henabled
  rw [hrun]
  refine ⟨hhome, fun x n hx => ?_, fun key _ => ?_⟩
  · simp [hnone] at hx
  · rw [hnone]
    exact .absent

/-- **Every call keeps up what the directory reflects.** -/
theorem Reflects.step (henabled : c.enabled = true) (h : Reflects c s keys stop now m fs)
    (hhash : Set.InjOn Blake3.hashHex {k | k ∈ keys}) (hkeys : ∀ k ∈ call.keys, k ∈ keys)
    (hkeep : call.Keepable) (hle : now.toNanos ≤ t.toNanos) (hstop : t.toNanos ≤ stop.toNanos)
    (hnear : stop.toNanos - t.toNanos ≤ maxInt64) (ht : t.Writable) :
    Reflects c s keys stop t (call.apply t m) (call.run c (fs.atTime t)) := by
  have hnow := h.atTime hle
  cases call with
  | set key fingerprint data =>
    exact hnow.set henabled hhash (hkeys key (by simp [Call.keys])) rfl hnear ht hkeep
  | get key fingerprint =>
    exact (hnow.get henabled hhash (hkeys key (by simp [Call.keys])) rfl hstop fingerprint).1
  | invalidate key => exact hnow.invalidate henabled hhash (hkeys key (by simp [Call.keys]))
  | clear => exact hnow.clear henabled

/-- **After any calls the directory reflects the map that they mean.** -/
theorem Reflects.run (henabled : c.enabled = true) (h : Reflects c s keys stop now m fs)
    (hhash : Set.InjOn Blake3.hashHex {k | k ∈ keys})
    (hcalls : ∀ x ∈ calls, x.1.Writable ∧ x.2.Keepable ∧ (∀ k ∈ x.2.keys, k ∈ keys) ∧
      stop.toNanos - x.1.toNanos ≤ maxInt64)
    (htimes : (now.toNanos :: (calls.map (·.1.toNanos) ++ [stop.toNanos])).Pairwise (· ≤ ·)) :
    Reflects c s keys stop stop (calls.foldl (fun m x => x.2.apply x.1 m) m)
      ((runCalls c calls fs).atTime stop) := by
  induction calls generalizing now m fs with
  | nil => exact h.atTime (List.rel_of_pairwise_cons htimes (by simp))
  | cons x calls ih =>
    rw [List.map_cons, List.cons_append] at htimes
    have hrest := htimes.of_cons
    obtain ⟨hwritable, hkeep, hkeys, hnear⟩ := hcalls x (by simp)
    have hstep := h.step henabled hhash hkeys hkeep (List.rel_of_pairwise_cons htimes (by simp))
      (List.rel_of_pairwise_cons hrest (by simp)) hnear hwritable
    exact ih hstep (fun y hy => hcalls y (List.mem_cons_of_mem _ hy)) hrest

/-! ### Counting -/

theorem entries_congr (henabled : c.enabled = true) (h : Home c.dir s fs) (h' : Home c.dir s fs')
    (hsame : ∀ x, isEntry x = true → fs'.node? (s ++ [x]) = fs.node? (s ++ [x])) :
    (c.stats fs').entries = (c.stats fs).entries := by
  have hnodup : ∀ {fs : FileSystem}, Home c.dir s fs →
      ((fs.children s).filter fun x => isEntry x.1).Nodup :=
    fun h => (List.Nodup.of_map _ (h.distinct.nodup_children s)).filter _
  rw [(h.entries_eq henabled).2, (h'.entries_eq henabled).2]
  refine (List.Perm.length_eq ?_)
  rw [List.perm_ext_iff_of_nodup (hnodup h') (hnodup h)]
  rintro ⟨x, n⟩
  simp only [List.mem_filter, h.distinct.mem_children, h'.distinct.mem_children]
  refine and_congr_left fun hx => ?_
  rw [hsame x hx]

/-- **A temporary file is not counted.** -/
theorem entries_temp (henabled : c.enabled = true) (h : Home c.dir s fs)
    (hs : fs.node? s = some .dir) (i mode : Nat) (content : Text) (modified : Time) :
    (c.stats (fs.put (s ++ [tempName i]) (.file mode content modified))).entries =
      (c.stats fs).entries := by
  have hput := h.put hs (tempName i) mode content modified
  refine entries_congr henabled h hput.home fun x hx => ?_
  rw [hput.node, if_neg]
  rintro rfl
  simp [isEntry_tempName] at hx

/-- **The entries that are counted are those of different keys, all of which are in the map.** -/
theorem Reflects.entries (henabled : c.enabled = true) (h : Reflects c s keys stop now m fs)
    (hhash : Set.InjOn Blake3.hashHex {k | k ∈ keys}) :
    ∃ found : List Text, found.Nodup ∧ (∀ k ∈ found, (m k).isSome = true) ∧
      (c.stats fs).failure? = none ∧ (c.stats fs).entries = found.length := by
  let found := keys.dedup.filter fun k => (fs.node? (s ++ [entryName k])).isSome
  have hmem : ∀ k, k ∈ found ↔ k ∈ keys ∧ (fs.node? (s ++ [entryName k])).isSome = true := by
    intro k
    simp [found]
  have hnodup : found.Nodup := (List.nodup_dedup keys).filter _
  obtain ⟨hcounts, hentries⟩ := h.home.entries_eq henabled
  refine ⟨found, hnodup, fun k hk => ?_, hcounts, ?_⟩
  · obtain ⟨hkey, hsome⟩ := (hmem k).1 hk
    -- a key whose entry is there was stored, and not dropped since
    have hagrees := h.agrees k hkey
    generalize m k = d at hagrees ⊢
    generalize fs.node? (s ++ [entryName k]) = n at hagrees hsome
    cases hagrees with
    | absent => simp at hsome
    | outdated => simp at hsome
    | held => rfl
  · -- an entry of the directory is named after one of the keys, and no two keys share a name
    have hnames : (((fs.children s).filter fun x => isEntry x.1).map (·.1)).Perm
        (found.map entryName) := by
      have hleft : (((fs.children s).filter fun x => isEntry x.1).map (·.1)).Nodup :=
        (h.home.distinct.nodup_children s).sublist (List.filter_sublist.map _)
      have hright : (found.map entryName).Nodup := by
        refine hnodup.map_on fun k hk k' hk' heq => ?_
        exact entryName_inj hhash ((hmem k).1 hk).1 ((hmem k').1 hk').1 heq
      rw [List.perm_ext_iff_of_nodup hleft hright]
      intro x
      simp only [List.mem_map, List.mem_filter, Prod.exists, exists_and_right, exists_eq_right,
        h.home.distinct.mem_children, hmem]
      constructor
      · rintro ⟨⟨n, hn⟩, -⟩
        obtain ⟨key, hkey, rfl⟩ := h.named x n hn
        exact ⟨key, ⟨hkey, by simp [hn]⟩, rfl⟩
      · rintro ⟨key, ⟨-, hsome⟩, rfl⟩
        obtain ⟨n, hn⟩ := Option.isSome_iff_exists.1 hsome
        exact ⟨⟨n, hn⟩, isEntry_entryName key⟩
    rw [hentries, ← List.length_map (·.1), hnames.length_eq, List.length_map]

/-! ### The whole -/

theorem reflects_empty (hscratch : Scratch c.dir s fs) (hdistinct : fs.Distinct)
    (hempty : ∀ ys n, fs.node? (s ++ ys) = some n → ys = [] ∧ n = .dir) (keys : List Text)
    (stop now : Time) : Reflects c s keys stop now (fun _ => none) fs := by
  have hnone : ∀ x, fs.node? (s ++ [x]) = none := by
    intro x
    by_contra hx
    obtain ⟨n, hn⟩ := Option.ne_none_iff_exists'.1 hx
    simpa using (hempty [x] n hn).1
  refine ⟨⟨hscratch, hdistinct, ?_, ?_⟩, ?_, fun key _ => ?_⟩
  · cases hs : fs.node? s with
    | none => exact .inl rfl
    | some n => exact .inr (by rw [(hempty [] n (by simpa using hs)).2])
  · simp [hnone]
  · simp [hnone]
  · rw [hnone]
    exact .absent

/-- **The cache is a map.**  After any calls on a cache that was empty, a lookup finds something
exactly when the last storing for the key was for the same fingerprint, was not followed by a removal
and is not too old; what it finds is the value that was stored.  Counting succeeds, the entries that are
counted belong to different keys, and no temporary file is counted.  Storing what is not JSON changes nothing. -/
theorem refines_map (henabled : c.enabled = true) (hscratch : Scratch c.dir s fs)
    (hdistinct : fs.Distinct)
    (hempty : ∀ ys n, fs.node? (s ++ ys) = some n → ys = [] ∧ n = .dir)
    (hcalls : ∀ x ∈ calls, x.1.Writable ∧ x.2.Keepable)
    (htimes : (calls.map (·.1.toNanos) ++ [now.toNanos]).Pairwise (· ≤ ·))
    (hnear : ∀ x ∈ calls, now.toNanos - x.1.toNanos ≤ maxInt64)
    (hhash : Set.InjOn Blake3.hashHex {k | k ∈ key :: calls.flatMap (·.2.keys)}) :
    let after := (runCalls c calls fs).atTime now
    let found := ((c.get key fingerprint).run after).1
    (found.isSome = true ↔ ∃ d, deposits calls key = some d ∧ d.fingerprint = fingerprint ∧
      c.Fresh now d) ∧
    (∀ data, found = some data → ∃ d j, deposits calls key = some d ∧
      Json.parse? data = some j ∧ j.value = d.value) ∧
    (∃ counted : List Text, counted.Nodup ∧ (∀ k ∈ counted, (deposits calls k).isSome = true) ∧
      (c.stats after).failure? = none ∧ (c.stats after).entries = counted.length) ∧
    (∀ i mode content modified, after.node? s = some .dir →
      (c.stats (after.put (s ++ [tempName i]) (.file mode content modified))).entries =
        (c.stats after).entries) ∧
    ∀ key' fingerprint' data', Json.parse? data' = none →
      ((c.set key' fingerprint' data').run after).2 = after := by
  intro after found
  obtain ⟨first, times, hfirst⟩ : ∃ first times, calls.map (·.1) ++ [now] = first :: times :=
    List.exists_cons_of_ne_nil (by simp)
  -- the map is followed from the first moment of all on
  have hsorted : (first.toNanos :: (calls.map (·.1.toNanos) ++ [now.toNanos])).Pairwise (· ≤ ·) := by
    have hsame : calls.map (·.1.toNanos) ++ [now.toNanos] = (first :: times).map (·.toNanos) := by
      rw [← hfirst]
      simp
    rw [hsame, List.map_cons] at htimes ⊢
    refine List.pairwise_cons.2 ⟨fun t ht => ?_, htimes⟩
    rcases List.mem_cons.1 ht with rfl | ht
    · exact le_refl _
    · exact List.rel_of_pairwise_cons htimes ht
  have hreflects : Reflects c s (key :: calls.flatMap (·.2.keys)) now now (deposits calls) after := by
    refine (reflects_empty hscratch hdistinct hempty _ now first).run henabled hhash (fun x hx => ?_)
      hsorted
    refine ⟨(hcalls x hx).1, (hcalls x hx).2, fun k hk => ?_, hnear x hx⟩
    exact List.mem_cons_of_mem _ (List.mem_flatMap.2 ⟨x, hx, hk⟩)
  obtain ⟨-, hget⟩ := hreflects.get henabled hhash List.mem_cons_self rfl (le_refl _) fingerprint
  refine ⟨hget.isSome_iff, fun data hfound => ?_, hreflects.entries henabled hhash,
    fun i mode content modified hs => entries_temp henabled hreflects.home hs i mode content modified,
    fun key' fingerprint' data' hdata => set_rejected hdata c key' fingerprint' after⟩
  rw [show ((c.get key fingerprint).run after).1 = some data from hfound] at hget
  obtain ⟨d, j, hd, -, -, hj, hvalue⟩ := hget
  exact ⟨d, j, hd, hj, hvalue⟩

/-- A file system with an empty directory. -/
def oneDir : FileSystem := { nodes := [([Text.ofString "c"], .dir)] }

theorem oneDir_sound : oneDir.Sound := sound_empty.put (d := []) (c := "c") rfl (by decide) .dir

theorem oneDir_scratch : Scratch "/c" [Text.ofString "c"] oneDir :=
  oneDir_sound.scratch_root ⟨by decide, by decide, by decide, by decide⟩ (by decide)

theorem oneDir_distinct : oneDir.Distinct := List.nodup_singleton _

theorem oneDir_empty (ys : List Text) (n : FileNode)
    (h : oneDir.node? ([Text.ofString "c"] ++ ys) = some n) : ys = [] ∧ n = .dir := by
  cases ys with
  | nil => exact ⟨rfl, (Option.some.inj h).symm⟩
  | cons y ys => simp [oneDir, node?, List.lookup_cons] at h

/-- Something is stored, found, and found no more once it is too old. -/
theorem refines_map_stored :
    let c : Cache := { dir := "/c", ttl := 10, enabled := true }
    let calls : List (Time × Call) := [(⟨0, 0, 3600⟩, .set "k" "f" "1")]
    ((c.get "k" "f").run ((runCalls c calls oneDir).atTime ⟨0, 10, 0⟩)).1.isSome = true ∧
      ((c.get "k" "f").run ((runCalls c calls oneDir).atTime ⟨0, 11, 0⟩)).1.isSome = false := by
  intro c calls
  have hdata : Json.parse? "1" = some (.number "1") := rfl
  have hcalls : ∀ x ∈ calls, x.1.Writable ∧ x.2.Keepable := by
    intro x hx
    rw [List.mem_singleton.1 hx]
    refine ⟨⟨by decide, ⟨by decide, by decide⟩, by decide, by decide⟩, by cbv, by cbv, fun j hj => ?_⟩
    rw [hdata] at hj
    cases hj
    decide
  have hhash : Set.InjOn Blake3.hashHex {k | k ∈ Text.ofString "k" :: calls.flatMap (·.2.keys)} := by
    intro x hx y hy _
    simp only [calls, Call.keys, List.flatMap_cons, List.flatMap_nil, List.append_nil,
      List.mem_cons, List.not_mem_nil, or_false, or_self, Set.mem_ofPred_eq] at hx hy
    rw [hx, hy]
  have hdeposit : deposits calls "k" = some ⟨"f", ⟨0, 0, 3600⟩, .number "1"⟩ := rfl
  have hfound (now : Time) (htimes : (calls.map (·.1.toNanos) ++ [now.toNanos]).Pairwise (· ≤ ·))
      (hnear : ∀ x ∈ calls, now.toNanos - x.1.toNanos ≤ maxInt64) :
      ((c.get "k" "f").run ((runCalls c calls oneDir).atTime now)).1.isSome = true ↔
        ∃ d, deposits calls "k" = some d ∧ d.fingerprint = "f" ∧ c.Fresh now d :=
    (refines_map rfl oneDir_scratch oneDir_distinct oneDir_empty hcalls htimes hnear hhash).1
  constructor
  · exact (hfound _ (by decide) (by decide)).2 ⟨_, hdeposit, rfl, .inr (by decide)⟩
  · rw [Bool.eq_false_iff, ne_eq, hfound _ (by decide) (by decide), hdeposit]
    rintro ⟨d, ⟨⟩, -, hfresh⟩
    exact absurd hfresh (by rw [Fresh]; decide)

/-! ### Where a cache is no map -/

/-- A time that is a day ahead of UTC cannot be written, so nothing is stored. -/
theorem day_ahead_not_stored :
    let c : Cache := { dir := "/c", enabled := true }
    let t : Time := { seconds := 0, offset := 86400 }
    let calls : List (Time × Call) := [(t, .set "k" "f" "1")]
    (∃ d, deposits calls "k" = some d ∧ d.fingerprint = "f" ∧ c.Fresh t d) ∧
      ((c.get "k" "f").run ((runCalls c calls oneDir).atTime t)).1 = none := by
  intro c t calls
  refine ⟨⟨⟨"f", t, .number "1"⟩, rfl, rfl, .inl (by decide)⟩, ?_⟩
  have hencode : CacheEntry.encode? { key := "k", fingerprint := "f", stored := t, data := "1" } =
      none := by
    have hstrict : t.isStrict = false := by decide
    simp [CacheEntry.encode?, hstrict]
  have hafter : (runCalls c calls oneDir).atTime t = oneDir.atTime t := by
    change (((c.set "k" "f" "1").run (oneDir.atTime t)).2).atTime t = _
    rw [set_state, if_neg (by decide)]
    change (match CacheEntry.encode? { key := "k", fingerprint := "f", stored := t, data := "1" } with
      | none => oneDir.atTime t
      | some raw => _).atTime t = _
    rw [hencode]
    rfl
  have hhome : Home c.dir [Text.ofString "c"] (oneDir.atTime t) :=
    (reflects_empty (c := c) oneDir_scratch oneDir_distinct oneDir_empty [] t t).home.atTime t
  obtain ⟨e, he⟩ := hhome.read_free (isName_entryName "k") rfl
  rw [hafter, get_run, if_neg (by decide), show c.entryPath "k" = Path.join [c.dir, entryName "k"] from rfl,
    he]

theorem clear_of_dot (c : Cache) (hdir : Path.base c.dir = Path.dot) (fs : FileSystem) :
    (c.clear.run fs).2 = fs := by
  cases henabled : c.enabled with
  | false =>
    rw [clear, henabled]
    rfl
  | true =>
    have hrefused := Files.removeAll_run c.dir fs
    rw [if_pos hdir] at hrefused
    rw [clear, henabled]
    refine (congrArg Prod.snd hrefused).trans ?_
    split <;> rfl

/-- What is stored below such a path stays when it is cleared. -/
theorem dot_not_cleared :
    let c : Cache := { dir := "/c/.", enabled := true }
    let t : Time := { seconds := 0 }
    let calls : List (Time × Call) := [(t, .set "k" "f" "1"), (t, .clear)]
    deposits calls "k" = none ∧
      ((c.get "k" "f").run ((runCalls c calls oneDir).atTime t)).1.isSome = true := by
  intro c t calls
  refine ⟨rfl, ?_⟩
  have hleads : LeadsTo c.dir (oneDir.atTime t) [Text.ofString "c"] :=
    ⟨linkLimit, .down (by decide) (by decide) rfl (.here _ _)⟩
  have hthere : (oneDir.atTime t).isDir c.dir = true := by
    refine isDir_iff.2 ⟨by decide, linkLimit, [Text.ofString "c"], ?_⟩
    exact .down (by decide) (by decide) rfl (.stay (.here _ _))
  obtain ⟨raw, data, k, hencode, hread, -⟩ := CacheEntry.exists_encode?
    (e := { key := "k", fingerprint := "f", stored := t, data := "1" }) (j := .number "1")
    (by cbv) (by cbv) ⟨by decide, ⟨by decide, by decide⟩, by decide, by decide⟩ rfl (by decide)
  obtain ⟨fs, hset, hleads', hclock, hentry⟩ := set_new "f" rfl (oneDir_sound.atTime t)
    hleads hthere rfl hencode
  -- the entry stays when the directory is cleared, and so it is found
  have hafter : (runCalls c calls oneDir).atTime t = fs := by
    change ((c.clear.run (((c.set "k" "f" "1").run (oneDir.atTime t)).2.atTime t)).2).atTime t = fs
    rw [clear_of_dot c (by decide), hset, FileSystem.atTime, FileSystem.atTime,
      show t = fs.clock from hclock.symm]
  rw [hafter, hleads'.get_file rfl hentry, hread, Option.bind_some, if_pos ⟨rfl, rfl, rfl⟩]
  rfl

/-- A link in place of the directory is counted when it is named like an entry. -/
theorem link_counted :
    let c : Cache := { dir := "/l.json", enabled := true }
    let fs : FileSystem := oneDir.put [Text.ofString "l.json"] (.link "/c")
    (c.stats fs).entries = 1 := by
  intro c fs
  have hfind : fs.find false c.dir = .ok ([Text.ofString "l.json"], .link "/c") := by
    have hsteps : steps "/l.json" = [Text.ofString "l.json"] := rfl
    have hwalk : fs.locate false c.dir = fs.walk false linkLimit [] (steps "/l.json") := rfl
    rw [FileSystem.find, hwalk, hsteps, walk_name (by decide) (by decide)]
    rfl
  rw [stats, if_neg (by decide), entryFiles, entries, hfind]
  rfl

end Cache

end MetricHistory
