import Mathlib
import MetricHistory.Proofs.Analyzer.Document

/-!
# The figures of a document

Keys are matched in any letter case when a document is decoded, the members one after the other.  So a
figure may be given several times, and the last one counts.

* `Json.decodeAll_eq_some_iff` : what is read from the values given for a field;
* `Document.Holds` : what a document holds, in terms of these values;
* `Document.parse_eq_ok` : **a document holds what the output it was read from says**.
-/

namespace MetricHistory

namespace Json

/-! ### Values of a field -/

/-- The number literals among values. -/
def literals (values : List Json) : List Text :=
  values.filterMap fun
    | .number literal => some literal
    | _ => none

/-- The number that the last literal spells. -/
def lastNumber? {α : Type} (read : Text → Option α) (values : List Json) : Option α :=
  (literals values).getLast?.bind read

/-- The number that the last value spells, when it is a number. -/
def finalNumber? (values : List Json) : Option Float :=
  match values.getLast? with
  | some (.number literal) => Literal.float? literal
  | _ => none

/-- The values are numbers that can be read, or null. -/
def Legible {α : Type} (read : Text → Option α) (values : List Json) : Prop :=
  ∀ v ∈ values, v = .null ∨ ∃ literal, v = .number literal ∧ (read literal).isSome = true

/-- The decoder reads numbers, and leaves the field as it is for null. -/
structure ReadsNumbers {α : Type} (decode : α → Json → Option α) (read : Text → Option α) :
    Prop where
  null : ∀ a, decode a .null = some a
  number : ∀ a literal, decode a (.number literal) = read literal
  other : ∀ a j, decode a j ≠ none → j = .null ∨ ∃ literal, j = .number literal

theorem readsNumbers_decodeFloat : ReadsNumbers decodeFloat Literal.float? :=
  ⟨fun _ => rfl, fun _ _ => rfl, fun _ j h => by cases j <;> simp_all [decodeFloat]⟩

theorem readsNumbers_decodeInt : ReadsNumbers decodeInt Literal.int64? :=
  ⟨fun _ => rfl, fun _ _ => rfl, fun _ j h => by cases j <;> simp_all [decodeInt]⟩

variable {α : Type} {decode : α → Json → Option α} {read : Text → Option α}

theorem Legible.of_cons {v : Json} {values : List Json} (h : Legible read (v :: values)) :
    Legible read values :=
  fun w hw => h w (List.mem_cons_of_mem v hw)

theorem Legible.isSome {literal : Text} {values : List Json} (h : Legible read values)
    (hmem : Json.number literal ∈ values) : (read literal).isSome = true := by
  obtain hnull | ⟨l, hl, hsome⟩ := h _ hmem
  · simp at hnull
  · rwa [Json.number.inj hl]

theorem mem_literals {literal : Text} {values : List Json} :
    literal ∈ literals values ↔ Json.number literal ∈ values := by
  simp only [literals, List.mem_filterMap]
  constructor
  · rintro ⟨v, hv, h⟩
    cases v <;> simp at h
    exact h ▸ hv
  · intro h
    exact ⟨_, h, rfl⟩

/-- A number is overwritten by the numbers that follow it. -/
theorem lastNumber?_cons {literal : Text} {values : List Json} {a start : α}
    (h : Legible read values) (ha : read literal = some a) :
    (lastNumber? read (.number literal :: values)).getD start =
      (lastNumber? read values).getD a := by
  have hlit : literals (.number literal :: values) = literal :: literals values := rfl
  rw [lastNumber?, lastNumber?, hlit, List.getLast?_cons]
  cases hlast : (literals values).getLast? with
  | none => simp [ha]
  | some l =>
    have hsome := h.isSome (mem_literals.1 (List.mem_of_getLast? hlast))
    obtain ⟨y, hy⟩ := Option.isSome_iff_exists.1 hsome
    simp [hy]

/-- The last number given for a field counts, and all values have to be legible. -/
theorem decodeAll_eq_some_iff (hd : ReadsNumbers decode read) {start x : α} {values : List Json} :
    decodeAll decode start values = some x ↔
      Legible read values ∧ x = (lastNumber? read values).getD start := by
  -- a value leaves the field as it is, replaces it, or cannot be read
  induction values generalizing start with
  | nil =>
    have hlegible : Legible read [] := by simp [Legible]
    have hlast : (lastNumber? read []).getD start = start := rfl
    rw [hlast]
    exact ⟨fun h => ⟨hlegible, (Option.some.inj h).symm⟩, fun h => congrArg some h.2.symm⟩
  | cons v values ih =>
    have hcons : decodeAll decode start (v :: values) =
        (decode start v).bind fun a => decodeAll decode a values := rfl
    rw [hcons]
    by_cases hnull : v = .null
    · subst hnull
      rw [hd.null, Option.bind_some, ih]
      simp [Legible, lastNumber?, literals]
    by_cases hnum : ∃ literal, v = .number literal
    · obtain ⟨literal, rfl⟩ := hnum
      rw [hd.number, Option.bind_eq_some_iff]
      simp only [ih]
      constructor
      · rintro ⟨a, ha, hlegible, rfl⟩
        refine ⟨fun w hw => ?_, (lastNumber?_cons hlegible ha).symm⟩
        rcases List.mem_cons.1 hw with rfl | hw
        · exact .inr ⟨literal, rfl, by rw [ha]; rfl⟩
        · exact hlegible w hw
      · rintro ⟨hlegible, rfl⟩
        obtain ⟨a, ha⟩ := Option.isSome_iff_exists.1 (hlegible.isSome List.mem_cons_self)
        exact ⟨a, ha, hlegible.of_cons, lastNumber?_cons hlegible.of_cons ha⟩
    · have hnone : decode start v = none := by
        by_contra h
        rcases hd.other start v h with h | h
        · exact hnull h
        · exact hnum h
      rw [hnone]
      simp only [Option.bind_none, reduceCtorEq, false_iff, not_and]
      intro hlegible
      rcases hlegible v (by simp) with h | ⟨l, hl, -⟩
      · exact absurd h hnull
      · exact absurd ⟨l, hl⟩ hnum

/-- For a sum that may stay empty the last value counts, also when it is null. -/
theorem decodeAll_optional {start x : Option Float} {values : List Json}
    (h : decodeAll (fun _ => decodeFloat?) start values = some x) :
    Legible Literal.float? values ∧
      x = if values = [] then start else finalNumber? values := by
  induction values generalizing start with
  | nil =>
    refine ⟨by simp [Legible], ?_⟩
    rw [if_pos rfl]
    exact (Option.some.inj h).symm
  | cons v values ih =>
    have hcons : decodeAll (fun _ => decodeFloat?) start (v :: values) =
        (decodeFloat? v).bind fun a => decodeAll (fun _ => decodeFloat?) a values := rfl
    rw [hcons, Option.bind_eq_some_iff] at h
    obtain ⟨a, ha, h⟩ := h
    obtain ⟨hlegible, rfl⟩ := ih h
    have hv : (v = .null ∧ a = none) ∨
        ∃ l y, v = .number l ∧ Literal.float? l = some y ∧ a = some y := by
      cases v with
      | null => exact .inl ⟨rfl, (Option.some.inj ha).symm⟩
      | number l =>
        simp only [decodeFloat?, Option.map_eq_some_iff] at ha
        obtain ⟨y, hy, rfl⟩ := ha
        exact .inr ⟨l, y, rfl, hy, rfl⟩
      | _ => simp [decodeFloat?] at ha
    refine ⟨fun w hw => ?_, ?_⟩
    · rcases List.mem_cons.1 hw with rfl | hw
      · rcases hv with ⟨hnull, -⟩ | ⟨l, y, hl, hy, -⟩
        · exact .inl hnull
        · exact .inr ⟨l, hl, by rw [hy]; rfl⟩
      · exact hlegible w hw
    · rw [if_neg (show ¬ v :: values = [] by simp)]
      by_cases hnil : values = []
      · subst hnil
        rw [if_pos rfl]
        rcases hv with ⟨rfl, rfl⟩ | ⟨l, y, rfl, hy, rfl⟩
        · rfl
        · exact hy.symm
      · rw [if_neg hnil, finalNumber?, finalNumber?, List.getLast?_cons_of_ne_nil hnil]

theorem decodeAll_optional_none {x : Option Float} {values : List Json}
    (h : decodeAll (fun _ => decodeFloat?) none values = some x) :
    Legible Literal.float? values ∧ x = finalNumber? values := by
  obtain ⟨hlegible, hx⟩ := decodeAll_optional h
  refine ⟨hlegible, hx.trans ?_⟩
  split
  · rename_i hnil
    rw [hnil]
    rfl
  · rfl

end Json

namespace Document

open Json

/-! ### Documents -/

/-- The value given for the production object. -/
def productionOf (j : Json) : Json := (matching "production" (membersOf j)).getLast?.getD .null

theorem parse?_productionOf {data : Text} {j : Json} (h : Json.parse? data = some j) :
    Json.parse? (productionOf j).source = some (productionOf j) := by
  have hp : Spelled (productionOf j) ∧ depth (productionOf j) ≤ depthLimit := by
    unfold productionOf
    cases hlast : (matching "production" (membersOf j)).getLast? with
    | none => exact ⟨trivial, Nat.zero_le _⟩
    | some p => exact (spelled_of_mem_matching h (List.mem_of_getLast? hlast)).imp_right LT.lt.le
  exact parse?_source hp.1 hp.2

/-- The values given for a figure in the production object. -/
def figures (name : Text) (j : Json) : List Json := matching name (membersOf (productionOf j))

/-- The values given for a figure next to the production object. -/
def aside (name : Text) (j : Json) : List Json := matching name (membersOf j)

/-- The document holds what the tree of an output says. -/
structure Holds (j : Json) (doc : Document) : Prop where
  production : productionOf j = .null ∨ ∃ blank members, productionOf j = .object blank members
  loc_legible : Legible Literal.float? (figures "loc" j)
  ccnSum_legible : Legible Literal.float? (figures "ccnSum" j)
  miDebtSum_legible : Legible Literal.float? (figures "miDebtSum" j)
  raw : doc.production.raw = (productionOf j).source
  loc : doc.production.loc =
    Binary64.truncate ((lastNumber? Literal.float? (figures "loc" j)).getD 0)
  ccnSum : doc.production.ccnSum =
    firstSum (finalNumber? (figures "ccnSum" j)) (finalNumber? (aside "ccnSum" j))
  miDebtSum : doc.production.miDebtSum =
    firstSum (finalNumber? (figures "miDebtSum" j)) (finalNumber? (aside "miDebtSum" j))
  testLoc : doc.testLoc = (lastNumber? Literal.float? (aside "testLoc" j)).getD 0

theorem outputFields?_eq_some {members : List (Text × Json)} {output : OutputFields}
    (h : outputFields? members = some output) :
    output.production = (matching "production" members).getLast?.getD .null ∧
      output.ccnSum = finalNumber? (matching "ccnSum" members) ∧
      output.miDebtSum = finalNumber? (matching "miDebtSum" members) ∧
      output.testLoc = (lastNumber? Literal.float? (matching "testLoc" members)).getD 0 := by
  simp only [outputFields?, Option.bind_eq_bind, Option.bind_eq_some_iff, Option.some.injEq] at h
  obtain ⟨testLoc, htest, ccn, hccn, mi, hmi, rfl⟩ := h
  exact ⟨rfl, (decodeAll_optional_none hccn).2, (decodeAll_optional_none hmi).2,
    ((decodeAll_eq_some_iff readsNumbers_decodeFloat).1 htest).2⟩

theorem productionFields?_eq_some {members : List (Text × Json)} {p : ProductionFields}
    (h : productionFields? members = some p) :
    (Legible Literal.float? (matching "loc" members) ∧
        p.loc = (lastNumber? Literal.float? (matching "loc" members)).getD 0) ∧
      (Legible Literal.float? (matching "ccnSum" members) ∧
        p.ccnSum = finalNumber? (matching "ccnSum" members)) ∧
      (Legible Literal.float? (matching "miDebtSum" members) ∧
        p.miDebtSum = finalNumber? (matching "miDebtSum" members)) := by
  simp only [productionFields?, Option.bind_eq_bind, Option.bind_eq_some_iff, Option.some.injEq] at h
  obtain ⟨loc, hloc, ccn, hccn, mi, hmi, anti, -, rfl⟩ := h
  exact ⟨(decodeAll_eq_some_iff readsNumbers_decodeFloat).1 hloc, decodeAll_optional_none hccn,
    decodeAll_optional_none hmi⟩

/-- A document holds what the output it was read from says. -/
theorem parse_eq_ok {data : Text} {doc : Document} (h : parse data = .ok doc) :
    ∃ j, Json.parse? data = some j ∧ Holds j doc := by
  obtain ⟨j, hj, hdoc⟩ := parse_eq_ok_ofMembers h
  obtain ⟨output, p, hout, hp, rfl⟩ := ofMembers_eq_ok_iff.1 hdoc
  obtain ⟨hprod, hccn, hmi, htest⟩ := outputFields?_eq_some hout
  refine ⟨j, hj, ?_⟩
  change output.production = productionOf j at hprod
  rw [hprod] at hp
  -- the schema leaves an object, or nothing at all
  cases hform : productionOf j with
  | null =>
    rw [hform] at hp
    obtain rfl : none = p := Option.some.inj hp
    have hnone : ∀ name, figures name j = [] := by
      intro name
      rw [figures, hform]
      rfl
    refine ⟨.inl hform, ?_, ?_, ?_, congrArg Json.source hprod, ?_, ?_, ?_, htest⟩
    all_goals simp only [hnone]
    · simp [Legible]
    · simp [Legible]
    · simp [Legible]
    · simp only [ofFields, lastNumber?, literals, List.filterMap_nil, List.getLast?_nil,
        Option.bind_none, Option.getD_none]
    · exact congrArg (firstSum none) hccn
    · exact congrArg (firstSum none) hmi
  | object blank members =>
    rw [hform] at hp
    obtain ⟨fields, hfields, rfl⟩ := Option.map_eq_some_iff.1 hp
    have hfigures : ∀ name, figures name j = matching name (memberList members) := by
      intro name
      rw [figures, hform]
      rfl
    obtain ⟨⟨hloc, hlocEq⟩, ⟨hc, hcEq⟩, ⟨hm, hmEq⟩⟩ := productionFields?_eq_some hfields
    refine ⟨.inr ⟨blank, members, hform⟩, ?_, ?_, ?_, congrArg Json.source hprod, ?_, ?_, ?_, htest⟩
    all_goals simp only [hfigures]
    · exact hloc
    · exact hc
    · exact hm
    · exact congrArg Binary64.truncate hlocEq
    · exact congrArg₂ firstSum hcEq hccn
    · exact congrArg₂ firstSum hmEq hmi
  | _ => simp [hform, decodeRecord] at hp

end Document

end MetricHistory
