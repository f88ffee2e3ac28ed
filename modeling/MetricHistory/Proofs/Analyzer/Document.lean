import Mathlib
import MetricHistory.Analyzer.Document
import MetricHistory.Proofs.Decimal.Rounding
import MetricHistory.Proofs.Json.Grammar

/-!
# What a document is made of

* `Json.spelled_of_mem_matching` : the values given for a field are well spelled, and not too deep
  to be read by themselves (`Json.IsText`), not even when they stand in another value (`Json.IsPart`);
* `Document.parse_eq_ok_iff` and `Document.ofMembers_eq_ok_iff` : how an accepted document comes
  about;
* `Document.isPart_of_parse` and `Document.wellFormed_of_parse` : its findings are such values, and
  its numbers are finite.
-/

namespace MetricHistory

namespace Json

theorem spelled_of_mem_memberList {members : JsonMembers} (h : MembersSpelled members) {key : Text}
    {j : Json} (hj : (key, j) ∈ memberList members) :
    Spelled j ∧ depth j ≤ membersDepth members := by
  induction hm : memberList members generalizing members with
  | nil => rw [hm] at hj; simp at hj
  | cons x xs ih =>
    cases members with
    | nil => simp [memberList] at hm
    | cons before k middle₁ middle₂ value after rest =>
      rw [memberList, List.cons.injEq] at hm
      rw [memberList, List.mem_cons] at hj
      rw [membersDepth]
      rcases hj with hj | hj
      · obtain ⟨-, rfl⟩ := Prod.mk.inj hj
        exact ⟨h.2.2.2.2.1, le_max_left _ _⟩
      · obtain ⟨hs, hd⟩ := ih h.2.2.2.2.2.2 hj hm.2
        exact ⟨hs, hd.trans (le_max_right _ _)⟩

theorem mem_of_mem_matching {name : Text} {members : List (Text × Json)} {j : Json}
    (h : j ∈ matching name members) : ∃ key, (key, j) ∈ members := by
  simp only [matching, List.mem_map, List.mem_filter] at h
  obtain ⟨⟨key, j'⟩, ⟨hmem, -⟩, rfl⟩ := h
  exact ⟨key, hmem⟩

/-- The members of an object, none for any other value. -/
def membersOf (j : Json) : List (Text × Json) := j.members?.getD []

/-- The values given for a field are well spelled, and not so deep as what they stand in. -/
theorem spelled_of_mem_matching {data name : Text} {j v : Json} (h : parse? data = some j)
    (hv : v ∈ matching name (membersOf j)) : Spelled v ∧ depth v < depthLimit := by
  obtain ⟨hs, hd⟩ := parse?_eq_some h
  obtain ⟨key, hmem⟩ := mem_of_mem_matching hv
  cases j with
  | object blank members =>
    obtain ⟨hvs, hvd⟩ := spelled_of_mem_memberList hs.2.2 hmem
    rw [depth] at hd
    exact ⟨hvs, by omega⟩
  | _ => simp [membersOf, members?] at hmem

/-- The text is that of one value, and is read as it. -/
def IsText (t : Text) : Prop := ∃ j, Spelled j ∧ depth j ≤ depthLimit ∧ t = source j

/-- The text is that of one value that can stand in another one. -/
def IsPart (t : Text) : Prop := ∃ j, Spelled j ∧ depth j < depthLimit ∧ t = source j

theorem IsPart.isText {t : Text} (h : IsPart t) : IsText t := by
  obtain ⟨j, hs, hd, ht⟩ := h
  exact ⟨j, hs, hd.le, ht⟩

theorem decodeAll_induction {α : Type} {decode : α → Json → Option α} {P : α → Prop}
    (hstep : ∀ a v b, P a → decode a v = some b → P b) {start a : α} (hstart : P start)
    {values : List Json} (h : decodeAll decode start values = some a) : P a := by
  induction values generalizing start with
  | nil =>
    obtain rfl : start = a := by simpa [decodeAll] using h
    exact hstart
  | cons v values ih =>
    simp only [decodeAll, List.foldlM_cons, Option.bind_eq_bind, Option.bind_eq_some_iff] at h
    obtain ⟨b, hb, h⟩ := h
    exact ih (hstep start v b hstart hb) h

end Json

theorem finite_of_decodeFloat {start x : Float} {v : Json} (hs : Binary64.Finite start)
    (h : Json.decodeFloat start v = some x) : Binary64.Finite x := by
  cases v with
  | null => exact Option.some.inj h ▸ hs
  | number literal =>
    change Literal.float? literal = some x at h
    simp only [Literal.float?, Option.bind_eq_bind, Option.bind_eq_some_iff, Prod.exists] at h
    obtain ⟨p, _, -, negative, c, k, -, h⟩ := h
    exact Binary64.finite_of_ofDecimal? h
  | _ => simp [Json.decodeFloat] at h

namespace Document

open Json

/-- The document of the members that were decoded. -/
def ofFields (output : OutputFields) (p : ProductionFields) (members : List (Text × Json)) :
    Document where
  production :=
    { loc := Binary64.truncate p.loc
      ccnSum := firstSum p.ccnSum output.ccnSum
      miDebtSum := firstSum p.miDebtSum output.miDebtSum
      antipatterns := p.antipatterns
      raw := output.production.source }
  testLoc := output.testLoc
  surfaceArea := orDefault (rawField "surfaceArea" [] members) "\x7b\x7d"
  surfaceAreaLists := orDefault (rawField "surfaceAreaLists" [] members) "\x7b\x7d"
  antipatterns := orDefault (rawField "antipatterns" [] members) "\x7b\x7d"
  hotspots := orDefault (rawField "hotspots" [] members) "[]"

/-- The check of the schema comes first, and then the members are decoded. -/
theorem parse_eq {data : Text} {j : Json} (h : Json.parse? data = some j) :
    parse data =
      if Schema.breaksDown j then .error .breakdown
      else if !(Schema.violations j).isEmpty then .error (.violates (Schema.violations j))
      else ofMembers (membersOf j) := by
  simp only [parse, h]
  split
  · rfl
  · split <;> rfl

/-- A text is accepted when it is one value that the schema can be checked for and does not
complain of, and whose members can be decoded. -/
theorem parse_eq_ok_iff {data : Text} {doc : Document} :
    parse data = .ok doc ↔ ∃ j, Json.parse? data = some j ∧ Schema.breaksDown j = false ∧
      Schema.violations j = [] ∧ ofMembers (membersOf j) = .ok doc := by
  cases hj : Json.parse? data with
  | none => simp [parse, hj]
  | some j =>
    rw [parse_eq hj]
    simp only [Option.some.injEq, exists_eq_left']
    cases Schema.breaksDown j <;> cases Schema.violations j <;> simp

theorem parse_eq_ok_ofMembers {data : Text} {doc : Document} (h : parse data = .ok doc) :
    ∃ j, Json.parse? data = some j ∧ ofMembers (membersOf j) = .ok doc := by
  obtain ⟨j, hj, -, -, hdoc⟩ := parse_eq_ok_iff.1 h
  exact ⟨j, hj, hdoc⟩

/-- What has been decoded when a document is built. -/
theorem ofMembers_eq_ok_iff {members : List (Text × Json)} {doc : Document} :
    ofMembers members = .ok doc ↔
      ∃ output p, outputFields? members = some output ∧
        decodeRecord (fun _ ms => (productionFields? ms).map some) none output.production = some p ∧
          doc = ofFields output (p.getD ⟨0, none, none, 0⟩) members := by
  cases hout : outputFields? members with
  | none => simp [ofMembers, hout]
  | some output =>
    cases hp : decodeRecord (fun _ ms => (productionFields? ms).map some) none output.production with
    | none => simp [ofMembers, hout, hp]
    | some p =>
      have hbuilt : ofMembers members =
          .ok (ofFields output (p.getD ⟨0, none, none, 0⟩) members) := by
        simp only [ofMembers, hout, hp]
        rfl
      simp [hbuilt, hp, eq_comm]

/-- What a document passes on can be written down and read again. -/
structure WellFormed (doc : Document) : Prop where
  production : IsText doc.production.raw
  testLoc : Binary64.Finite doc.testLoc
  surfaceArea : IsText doc.surfaceArea
  surfaceAreaLists : IsText doc.surfaceAreaLists
  antipatterns : IsText doc.antipatterns
  hotspots : IsText doc.hotspots

/-- The findings that a document passes on. -/
def findings (doc : Document) : List Text :=
  [doc.production.raw, doc.surfaceArea, doc.surfaceAreaLists, doc.antipatterns, doc.hotspots]

theorem isPart_orDefault {data name empty : Text} {j : Json} (h : Json.parse? data = some j)
    (he : IsPart empty) : IsPart (orDefault (rawField name [] (membersOf j)) empty) := by
  unfold orDefault rawField
  cases hlast : (matching name (membersOf j)).getLast? with
  | none => exact he
  | some v =>
    obtain ⟨hs, hd⟩ := spelled_of_mem_matching h (List.mem_of_getLast? hlast)
    simp only
    split
    · exact he
    · exact ⟨v, hs, hd, rfl⟩

/-- **The findings of an accepted document can stand in another document.** -/
theorem isPart_of_parse {data : Text} {doc : Document} (h : parse data = .ok doc) :
    ∀ raw ∈ doc.findings, IsPart raw := by
  obtain ⟨j, hj, hdoc⟩ := parse_eq_ok_ofMembers h
  obtain ⟨output, p, hout, -, rfl⟩ := ofMembers_eq_ok_iff.1 hdoc
  have hobject : IsPart "\x7b\x7d" :=
    ⟨.object [] .nil, ⟨by simp [Blank], by simp [JsonMembers.isNil], trivial⟩, by decide, by decide⟩
  have harray : IsPart "[]" :=
    ⟨.array [] .nil, ⟨by simp [Blank], by simp [JsonItems.isNil], trivial⟩, by decide, by decide⟩
  simp only [outputFields?, Option.bind_eq_bind, Option.bind_eq_some_iff, Option.some.injEq] at hout
  obtain ⟨-, -, -, -, -, -, rfl⟩ := hout
  have hproduction : IsPart ((matching "production" (membersOf j)).getLast?.getD .null).source := by
    cases hlast : (matching "production" (membersOf j)).getLast? with
    | none => exact ⟨.null, trivial, by decide, rfl⟩
    | some v =>
      obtain ⟨hs, hd⟩ := spelled_of_mem_matching hj (List.mem_of_getLast? hlast)
      exact ⟨v, hs, hd, rfl⟩
  simp only [findings, ofFields, List.forall_mem_cons, List.not_mem_nil, false_imp_iff, implies_true,
    and_true]
  exact ⟨hproduction, isPart_orDefault hj hobject, isPart_orDefault hj hobject,
    isPart_orDefault hj hobject, isPart_orDefault hj harray⟩

/-- **An accepted document is well-formed.** -/
theorem wellFormed_of_parse {data : Text} {doc : Document} (h : parse data = .ok doc) :
    WellFormed doc := by
  have hpart := isPart_of_parse h
  simp only [findings, List.forall_mem_cons, List.not_mem_nil, false_imp_iff, implies_true, and_true]
    at hpart
  obtain ⟨hproduction, harea, hlists, hanti, hhot⟩ := hpart
  refine ⟨hproduction.isText, ?_, harea.isText, hlists.isText, hanti.isText, hhot.isText⟩
  obtain ⟨j, hj, hdoc⟩ := parse_eq_ok_ofMembers h
  obtain ⟨output, p, hout, -, rfl⟩ := ofMembers_eq_ok_iff.1 hdoc
  simp only [outputFields?, Option.bind_eq_bind, Option.bind_eq_some_iff, Option.some.injEq] at hout
  obtain ⟨testLoc, htest, -, -, -, -, rfl⟩ := hout
  exact decodeAll_induction (fun _ _ _ => finite_of_decodeFloat) Binary64.finite_zero htest

end Document

end MetricHistory
