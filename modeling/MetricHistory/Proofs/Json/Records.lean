import MetricHistory.Proofs.Cache.Entry
import MetricHistory.Proofs.Json.Layout

/-!
# Records are read back from their layout

A record is written as an object over several lines, and a list as an array.  The fields of the one
and the elements of the other are read back from the layout one by one.

* `Json.Fits n` : a tree that is well spelled and not too deep;
* `Json.matching_zip` : keys that are apart (`Json.Apart`) find their own values;
* `Json.decodeRecord_laidOut` and `Json.decodeList_laidOut` : **the values that are read are those
  that were written, laid out.**
-/

namespace MetricHistory

namespace Json

open Literal

variable {n level : ℕ} {ms : List (Text × Json)} {js : List Json}

/-! ### Trees that can be read -/

/-- The tree is well spelled and at most so deep. -/
structure Fits (n : ℕ) (j : Json) : Prop where
  spelled : Spelled j
  depth : depth j ≤ n

theorem fits_ofText (n : ℕ) (markup : Bool) (t : Text) : Fits n (ofText markup t) :=
  ⟨spelled_ofText markup t, Nat.zero_le n⟩

theorem fits_number (n : ℕ) {x : Float} (h : Binary64.Finite x) : Fits n (Snapshot.number x) :=
  ⟨Snapshot.spelled_number h, Nat.zero_le n⟩

theorem isWholePart_ofNat (k : ℕ) : IsWholePart (Text.ofNat k) := by
  rcases Nat.eq_zero_or_pos k with rfl | hpos
  · exact .inl rfl
  · obtain ⟨b, ds, hk, hb⟩ := Text.exists_ofNat_eq_cons hpos
    exact .inr ⟨b, ds, hk, hb, Text.digits_ofNat k⟩

theorem fits_ofInt (n : ℕ) (i : ℤ) : Fits n (ofInt i) := by
  refine ⟨⟨⟨decide (i < 0), Text.ofNat i.natAbs, [], [], []⟩,
    ⟨isWholePart_ofNat _, by simp [Digits], .inl ⟨rfl, rfl⟩⟩, ?_⟩, Nat.zero_le n⟩
  rw [spelling_eq, Text.ofInt]
  have hempty : fractionText [] = [] := rfl
  by_cases h : i < 0
  · simp [h, hempty]
  · simp [h, hempty]

theorem fits_record (hplain : PlainKeys ms) (h : ∀ v ∈ ms.map Prod.snd, Fits n v) :
    Fits (n + 1) (record ms) := by
  have hvalue : ∀ m ∈ ms, Fits n m.2 := fun m hm => h m.2 (List.mem_map_of_mem hm)
  exact ⟨spelled_record hplain fun m hm => (hvalue m hm).spelled,
    depth_record_le_iff.2 fun m hm => (hvalue m hm).depth⟩

theorem fits_list (h : ∀ j ∈ js, Fits n j) : Fits (n + 1) (list js) := by
  have hitems : ItemsSpelled (ofItems js) ∧ itemsDepth (ofItems js) ≤ n := by
    induction js with
    | nil => exact ⟨trivial, Nat.zero_le n⟩
    | cons j js ih =>
      obtain ⟨hspelled, hdepth⟩ := ih fun k hk => h k (List.mem_cons_of_mem j hk)
      have hj := h j (by simp)
      refine ⟨⟨blank_nil, hj.spelled, blank_nil, hspelled⟩, ?_⟩
      rw [ofItems, itemsDepth]
      exact max_le hj.depth hdepth
  exact ⟨⟨blank_nil, fun _ => rfl, hitems.1⟩, Nat.succ_le_succ hitems.2⟩

/-! ### Fields -/

/-- No key is taken for another one, whatever the case of its letters. -/
def Apart (keys : List Text) : Prop :=
  (∀ a ∈ keys, a.equalFold a = true) ∧
    keys.Pairwise fun a b => a.equalFold b = false ∧ b.equalFold a = false

instance (keys : List Text) : Decidable (Apart keys) := inferInstanceAs (Decidable (_ ∧ _))

theorem matching_cons (name key : Text) (v : Json) :
    matching name ((key, v) :: ms) =
      if key.equalFold name then v :: matching name ms else matching name ms := by
  rw [matching, List.filter_cons]
  dsimp only
  split <;> rfl

/-- **Keys that are apart find their own values.** -/
theorem matching_zip {keys : List Text} {vs : List Json} (h : Apart keys)
    (hlength : keys.length = vs.length) :
    keys.map (fun name => matching name (keys.zip vs)) = vs.map fun v => [v] := by
  induction keys generalizing vs with
  | nil =>
    rw [List.length_eq_zero_iff.1 hlength.symm]
    rfl
  | cons key keys ih =>
    obtain ⟨v, vs, rfl⟩ := List.exists_cons_of_length_eq_add_one hlength.symm
    obtain ⟨hself, hpairs⟩ := h
    obtain ⟨hkey, hrest⟩ := List.pairwise_cons.1 hpairs
    have hothers : matching key (keys.zip vs) = [] := by
      rw [matching, List.map_eq_nil_iff, List.filter_eq_nil_iff]
      intro m hm
      simp [(hkey m.1 (List.of_mem_zip hm).1).2]
    rw [List.map_cons, List.map_cons, List.zip_cons_cons, matching_cons,
      if_pos (hself key (by simp)), hothers,
      ← ih ⟨fun a ha => hself a (List.mem_cons_of_mem key ha), hrest⟩ (Nat.succ.inj hlength)]
    refine congrArg _ (List.map_congr_left fun name hname => ?_)
    rw [matching_cons, if_neg (by simp [(hkey name hname).1])]

/-! ### Layouts -/

theorem memberList_laidOut (h : PlainKeys ms) (level : ℕ) :
    memberList (membersLaidOut level (ofMembers ms)) = mapValues (laidOut (level + 1)) ms := by
  induction ms with
  | nil => rfl
  | cons m ms ih =>
    have hkey : Plain m.1 := h m.1 (by simp)
    rw [ofMembers, membersLaidOut, memberList, hkey.unescape_eq,
      ih fun key hk => h key (List.mem_cons_of_mem _ hk)]
    rfl

theorem matching_laidOut {keys : List Text} (h : Apart keys) (vs : List Json)
    (hlength : keys.length = vs.length) (level : ℕ) :
    keys.map (fun name => matching name (mapValues (laidOut level) (keys.zip vs))) =
      vs.map fun v => [laidOut level v] := by
  have hzip : mapValues (laidOut level) (keys.zip vs) = keys.zip (vs.map (laidOut level)) := by
    rw [mapValues, List.zip_map_right]
  rw [hzip, matching_zip h (by simpa using hlength), List.map_map]
  rfl

@[simp] theorem laidOut_ofText (level : ℕ) (markup : Bool) (t : Text) :
    laidOut level (ofText markup t) = ofText markup t := rfl

@[simp] theorem laidOut_ofInt (level : ℕ) (i : ℤ) : laidOut level (ofInt i) = ofInt i := rfl

@[simp] theorem laidOut_number (level : ℕ) (x : Float) :
    laidOut level (Snapshot.number x) = Snapshot.number x := rfl

theorem stripped_zip (keys : List Text) (vs : List Json) :
    stripped (record (keys.zip vs)) = record (keys.zip (vs.map stripped)) := by
  rw [stripped_record, mapValues, List.zip_map_right]

theorem stripped_list (js : List Json) : stripped (list js) = list (js.map stripped) := by
  have hitems : itemsStripped (ofItems js) = ofItems (js.map stripped) := by
    induction js with
    | nil => rfl
    | cons j js ih =>
      rw [ofItems, itemsStripped, ih]
      rfl
  rw [list, stripped, hitems, list]

theorem itemList_laidOut (js : List Json) (level : ℕ) :
    itemList (itemsLaidOut level (ofItems js)) = js.map (laidOut (level + 1)) := by
  induction js with
  | nil => rfl
  | cons j js ih => rw [ofItems, itemsLaidOut, itemList, ih, List.map_cons]

/-- **A record is read from the values that it was written with, laid out.** -/
theorem decodeRecord_laidOut {α : Type} (h : PlainKeys ms) (level : ℕ)
    (decode : α → List (Text × Json) → Option α) (start : α) :
    decodeRecord decode start (laidOut level (record ms)) =
      decode start (mapValues (laidOut (level + 1)) ms) := by
  rw [record, laidOut, decodeRecord, memberList_laidOut h]

/-- **A list is read from the elements that it was written with, laid out.** -/
theorem decodeList_laidOut {α β : Type} {zero : α} {decode : α → Json → Option α} {f : β → Json}
    {g : β → α} {bs : List β} (level : ℕ)
    (h : ∀ b ∈ bs, decode zero (laidOut (level + 1) (f b)) = some (g b)) :
    decodeList zero decode [] (laidOut level (list (bs.map f))) = some (bs.map g) := by
  rw [list, laidOut, decodeList, itemList_laidOut]
  induction bs with
  | nil => rfl
  | cons b bs ih =>
    simp only [List.map_cons, decodeItems, List.headD_nil, List.tail_nil, h b (by simp),
      ih fun b' hb => h b' (List.mem_cons_of_mem b hb), Option.bind_eq_bind, Option.bind_some]

end Json

end MetricHistory
