import MetricHistory.Proofs.Analyzer.Shape

/-!
# Which documents are accepted

For analyzer output in which no known key is repeated, not even in other letter case, the two
readings of the members agree, the one of the check and the one of the decoder.

* `Document.ofMembers_eq_ok_iff_of_conforms` : what is decoded from output of the right shape;
* `Document.exists_ofMembers_iff` : decoding succeeds when the numbers are within the range of doubles,
  all of them spelled at moderate length;
* `Document.parse_exact_of_distinctKeys` : **such output is accepted exactly when it conforms to the
  schema and its numbers lie in range, as far as the check can be carried out; the document holds
  what the output says, and any refusal says that the output is malformed.**
-/

namespace MetricHistory

namespace Document

open Json Schema

/-! ### Members as they are decoded -/

/-- What a member gives as a number; nothing when it is absent. -/
def GivesNumber (name : Text) (members : List (Text × Json)) : Option Float → Prop
  | none => ∀ v, (name, v) ∉ members
  | some x => ∃ literal, (name, .number literal) ∈ members ∧ Literal.float? literal = some x

/-- The text of a member, byte for byte, or what stands for it when it is absent. -/
def GivesText (name : Text) (members : List (Text × Json)) (empty t : Text) : Prop :=
  (∃ v, (name, v) ∈ members ∧ t = source v) ∨ (∀ v, (name, v) ∉ members) ∧ t = empty

/-- The number lies within the range of doubles. -/
def InLimit (j : Json) : Prop := ∀ x, Denotes j x → |x| < Binary64.limit

/-- The exact number rounds to a double. -/
def isInLimit : Json → Bool
  | .number literal =>
    ((Literal.decimal? literal).bind fun (negative, c, k) =>
      Binary64.ofDecimal? negative c k).isSome
  | _ => true

theorem isInLimit_iff {j : Json} (h : Spelled j) : isInLimit j = true ↔ InLimit j := by
  cases j with
  | number literal =>
    obtain ⟨p, hp, rfl⟩ := h
    simp only [InLimit, denotes_spelling_iff hp, forall_eq']
    rw [isInLimit, Literal.decimal?_spelling hp, Option.bind_some, Binary64.ofDecimal?_isSome_iff,
      p.abs_value]
  | _ => simp [isInLimit, InLimit, Denotes]

section Member

variable {name : Text} {members : List (Text × Json)} (h : Once name members)
  (hnumber : ∀ v, (name, v) ∈ members → ∃ literal, Spelled (.number literal) ∧ v = .number literal)
include h hnumber

theorem optionalSum_eq_some_iff {o : Option Float} :
    optionalSum name members = some o ↔ GivesNumber name members o := by
  rw [optionalSum, h.field_eq_some_iff]
  constructor
  · rintro (⟨habsent, rfl⟩ | ⟨v, hv, hread⟩)
    · exact habsent
    · obtain ⟨literal, -, rfl⟩ := hnumber v hv
      obtain ⟨x, hx, rfl⟩ := Option.map_eq_some_iff.1 hread
      exact ⟨literal, hv, hx⟩
  · intro hgives
    cases o with
    | none => exact .inl ⟨hgives, rfl⟩
    | some x =>
      obtain ⟨literal, hmem, hx⟩ := hgives
      exact .inr ⟨_, hmem, by rw [decodeFloat?, hx, Option.map_some]⟩

theorem field_float_eq_some_iff {x : Float} :
    field name decodeFloat 0 members = some x ↔ ∃ o, GivesNumber name members o ∧ x = o.getD 0 := by
  rw [h.field_eq_some_iff]
  constructor
  · rintro (⟨habsent, rfl⟩ | ⟨v, hv, hread⟩)
    · exact ⟨none, habsent, rfl⟩
    · obtain ⟨literal, -, rfl⟩ := hnumber v hv
      exact ⟨some x, ⟨literal, hv, hread⟩, rfl⟩
  · rintro ⟨o, hgives, rfl⟩
    cases o with
    | none => exact .inl ⟨hgives, rfl⟩
    | some x =>
      obtain ⟨literal, hmem, hx⟩ := hgives
      exact .inr ⟨_, hmem, hx⟩

theorem exists_givesNumber_iff (hm : ∀ v, (name, v) ∈ members → v.Moderate) :
    (∃ o, GivesNumber name members o) ↔ ∀ v, (name, v) ∈ members → InLimit v := by
  constructor
  · rintro ⟨o, ho⟩ v hv x hx
    cases o with
    | none => exact absurd hv (ho v)
    | some f =>
      obtain ⟨literal, hmem, hf⟩ := ho
      -- no other member has the name
      obtain rfl := h.eq_of_mem hv hmem
      exact (hx.float?_isSome_iff (hm _ hv)).1 (by rw [hf]; rfl)
  · intro hlimit
    by_cases hpresent : ∃ v, (name, v) ∈ members
    · obtain ⟨v, hv⟩ := hpresent
      obtain ⟨literal, hspelled, rfl⟩ := hnumber v hv
      obtain ⟨x, hx⟩ := hspelled.denotes
      have hsome := (hx.float?_isSome_iff (hm _ hv)).2 (hlimit _ hv x hx)
      obtain ⟨f, hf⟩ := Option.isSome_iff_exists.1 hsome
      exact ⟨some f, literal, hv, hf⟩
    · exact ⟨none, fun v hv => hpresent ⟨v, hv⟩⟩

end Member

theorem orDefault_source {v : Json} (h : Kind.object.Of v ∨ Kind.array.Of v) (empty : Text) :
    orDefault (source v) empty = source v := by
  have hnull : Text.ofString "null" = Text.byte 'n' :: Text.ofString "ull" := by decide
  obtain ⟨b, t, hsource, hb⟩ : ∃ b t, source v = b :: t ∧ b ≠ Text.byte 'n' := by
    rcases h with ⟨blank, members, rfl⟩ | ⟨blank, items, rfl⟩
    · have htext := object_source blank members []
      rw [List.append_nil] at htext
      exact ⟨_, _, htext, by decide⟩
    · have htext := array_source blank items []
      rw [List.append_nil] at htext
      exact ⟨_, _, htext, by decide⟩
  rw [orDefault, hsource, hnull, if_neg]
  simp [hb]

theorem givesText_orDefault {name : Text} {members : List (Text × Json)} (h : Once name members)
    (hkind : ∀ v, (name, v) ∈ members → Kind.object.Of v ∨ Kind.array.Of v) (empty : Text) :
    GivesText name members empty (orDefault (rawField name [] members) empty) := by
  rw [h.rawField_eq]
  cases hv : lookup name members with
  | none => exact .inr ⟨h.lookup_eq_none_iff.1 hv, rfl⟩
  | some v =>
    have hmem := h.lookup_eq_some_iff.1 hv
    exact .inl ⟨v, hmem, orDefault_source (hkind v hmem) empty⟩

/-! ### Members that were checked -/

/-- The rule is about a number. -/
def Numeric (r : Rule) : Prop := r.kinds = [.number] ∨ r.kinds = [.integer]

/-- The rule is about findings that are passed on. -/
def Structured (r : Rule) : Prop := ∀ k ∈ r.kinds, k = .object ∨ k = .array

/-- The members that rules are about are given once, and the rules hold of them. -/
structure Checked (rules : List Rule) (members : List (Text × Json)) : Prop where
  once : ∀ r ∈ rules, Once r.name members
  spelled : ∀ key v, (key, v) ∈ members → Spelled v
  holds : ∀ r ∈ rules, ∀ v, (Text.ofString r.name, v) ∈ members → r.Holds v

namespace Checked

variable {rules : List Rule} {members : List (Text × Json)} {r : Rule}
  (h : Checked rules members) (hr : r ∈ rules)
include h hr

theorem exists_number (hnumeric : Numeric r) (v : Json) (hv : (Text.ofString r.name, v) ∈ members) :
    ∃ literal, Spelled (.number literal) ∧ v = .number literal := by
  obtain ⟨k, hk, hof⟩ := (h.holds r hr v hv).kind
  obtain ⟨literal, rfl⟩ : ∃ literal, v = .number literal := by
    rcases hnumeric with hkinds | hkinds
    · rw [hkinds, List.mem_singleton] at hk
      subst hk
      obtain ⟨x, hx⟩ := hof
      exact hx.eq_number
    · rw [hkinds, List.mem_singleton] at hk
      subst hk
      obtain ⟨i, hi⟩ := hof
      exact hi.eq_number
  exact ⟨literal, h.spelled _ _ hv, rfl⟩

theorem sum_iff (hnumeric : Numeric r) {o : Option Float} :
    optionalSum r.name members = some o ↔ GivesNumber r.name members o :=
  optionalSum_eq_some_iff (h.once r hr) (h.exists_number hr hnumeric)

theorem float_iff (hnumeric : Numeric r) {x : Float} :
    field r.name decodeFloat 0 members = some x ↔
      ∃ o, GivesNumber r.name members o ∧ x = o.getD 0 :=
  field_float_eq_some_iff (h.once r hr) (h.exists_number hr hnumeric)

theorem object_or_array (hstructured : Structured r) (v : Json)
    (hv : (Text.ofString r.name, v) ∈ members) : Kind.object.Of v ∨ Kind.array.Of v := by
  obtain ⟨k, hk, hof⟩ := (h.holds r hr v hv).kind
  rcases hstructured k hk with rfl | rfl
  · exact .inl hof
  · exact .inr hof

theorem inLimit_iff (hm : ∀ v, (Text.ofString r.name, v) ∈ members → v.Moderate)
    (hkinds : Numeric r ∨ Structured r) :
    (∀ v, (Text.ofString r.name, v) ∈ members → InLimit v) ↔
      (Numeric r → ∃ o, GivesNumber r.name members o) := by
  constructor
  · intro hlimit hnumeric
    exact (exists_givesNumber_iff (h.once r hr) (h.exists_number hr hnumeric) hm).2 hlimit
  · intro hgives v hv
    rcases hkinds with hnumeric | hstructured
    · exact (exists_givesNumber_iff (h.once r hr) (h.exists_number hr hnumeric) hm).1
        (hgives hnumeric) v hv
    · -- neither an object nor an array is a number
      intro x hx
      obtain ⟨literal, rfl⟩ := hx.eq_number
      rcases h.object_or_array hr hstructured _ hv with ⟨_, _, hv⟩ | ⟨_, _, hv⟩
      · simp at hv
      · simp at hv

end Checked

theorem productionFields?_eq_some_iff {members : List (Text × Json)}
    (h : Checked productionRules members) {f : ProductionFields} :
    productionFields? members = some f ↔
      (∃ o, GivesNumber "loc" members o ∧ f.loc = o.getD 0) ∧
        GivesNumber "ccnSum" members f.ccnSum ∧ GivesNumber "miDebtSum" members f.miDebtSum ∧
          ∃ o, GivesNumber "antipatterns" members o ∧ f.antipatterns = o.getD 0 := by
  have hloc : ⟨"loc", [.integer], true⟩ ∈ productionRules := by simp [productionRules]
  have hccn : ⟨"ccnSum", [.number], false⟩ ∈ productionRules := by simp [productionRules]
  have hmi : ⟨"miDebtSum", [.number], false⟩ ∈ productionRules := by simp [productionRules]
  have hrate : ⟨"antipatterns", [.number], false⟩ ∈ productionRules := by simp [productionRules]
  -- the members are read one after the other, each of them on its own
  have hread : productionFields? members = some f ↔
      field "loc" decodeFloat 0 members = some f.loc ∧
        optionalSum "ccnSum" members = some f.ccnSum ∧
          optionalSum "miDebtSum" members = some f.miDebtSum ∧
            field "antipatterns" decodeFloat 0 members = some f.antipatterns := by
    simp only [productionFields?, Option.bind_eq_bind, Option.bind_eq_some_iff, Option.some.injEq]
    constructor
    · rintro ⟨loc, hl, ccn, hc, mi, hm, rate, ha, rfl⟩
      exact ⟨hl, hc, hm, ha⟩
    · rintro ⟨hl, hc, hm, ha⟩
      exact ⟨_, hl, _, hc, _, hm, _, ha, rfl⟩
  rw [hread, h.float_iff hloc (.inr rfl), h.sum_iff hccn (.inl rfl), h.sum_iff hmi (.inl rfl),
    h.float_iff hrate (.inl rfl)]

theorem outputFields?_eq_some_iff {members : List (Text × Json)} {p : Json}
    (h : Checked outputRules members) (honce : Once "production" members)
    (hp : (Text.ofString "production", p) ∈ members) {f : OutputFields} :
    outputFields? members = some f ↔
      f.production = p ∧ (∃ o, GivesNumber "testLoc" members o ∧ f.testLoc = o.getD 0) ∧
        GivesNumber "ccnSum" members f.ccnSum ∧ GivesNumber "miDebtSum" members f.miDebtSum := by
  have htest : ⟨"testLoc", [.number], true⟩ ∈ outputRules := by simp [outputRules]
  have hccn : ⟨"ccnSum", [.number], false⟩ ∈ outputRules := by simp [outputRules]
  have hmi : ⟨"miDebtSum", [.number], false⟩ ∈ outputRules := by simp [outputRules]
  have hproduction : (matching "production" members).getLast?.getD .null = p := by
    rw [honce.matching_eq, honce.lookup_eq_some_iff.2 hp]
    rfl
  have hread : outputFields? members = some f ↔
      f.production = p ∧ field "testLoc" decodeFloat 0 members = some f.testLoc ∧
        optionalSum "ccnSum" members = some f.ccnSum ∧
          optionalSum "miDebtSum" members = some f.miDebtSum := by
    simp only [outputFields?, hproduction, Option.bind_eq_bind, Option.bind_eq_some_iff,
      Option.some.injEq]
    constructor
    · rintro ⟨test, ht, ccn, hc, mi, hm, rfl⟩
      exact ⟨rfl, ht, hc, hm⟩
    · rintro ⟨rfl, ht, hc, hm⟩
      exact ⟨_, ht, _, hc, _, hm, rfl⟩
  rw [hread, h.float_iff htest (.inl rfl), h.sum_iff hccn (.inl rfl), h.sum_iff hmi (.inl rfl)]

/-! ### Output of the right shape -/

/-- The numbers of known members lie within the range of doubles. -/
def InRange (j : Json) : Prop := Each (fun _ v => InLimit v) j

/-- The numbers of known members are spelled at moderate length. -/
def ModerateNumbers (j : Json) : Prop := Each (fun _ v => v.Moderate) j

instance (j : Json) : Decidable (ModerateNumbers j) :=
  inferInstanceAs (Decidable (Each (fun _ v => v.Moderate) j))

theorem inRange_of_isInLimit {j : Json} (hs : Spelled j)
    (h : Each (fun _ v => isInLimit v = true) j) : InRange j where
  figures p hp r hr v hv := by
    have hspelled := spelled_of_mem_membersOf (spelled_of_mem_membersOf hs hp) hv
    exact (isInLimit_iff hspelled).1 (h.figures p hp r hr v hv)
  output r hr v hv := (isInLimit_iff (spelled_of_mem_membersOf hs hv)).1 (h.output r hr v hv)

/-- The numbers that the check computes with can be computed: those that have to be whole, and the
size of the test code. -/
structure Computable (j : Json) : Prop where
  integers : IntegersComputed j
  testLoc : ∀ v, (Text.ofString "testLoc", v) ∈ membersOf j → Computed v

/-- The sum stands in the production object, or else next to it, or else it is zero. -/
def GivesSum (name : Text) (j p : Json) (x : Float) : Prop :=
  ∃ inside outside, GivesNumber name (membersOf p) inside ∧
    GivesNumber name (membersOf j) outside ∧ x = firstSum inside outside

/-- The document holds what the output says; `p` is its production object. -/
structure Reflects (j p : Json) (doc : Document) : Prop where
  production : (Text.ofString "production", p) ∈ membersOf j
  raw : doc.production.raw = source p
  loc : ∀ v (n : ℕ), (Text.ofString "loc", v) ∈ membersOf p → Denotes v n → v.Moderate →
    n < 2 ^ 53 → doc.production.loc = n
  ccnSum : GivesSum "ccnSum" j p doc.production.ccnSum
  miDebtSum : GivesSum "miDebtSum" j p doc.production.miDebtSum
  rate : ∃ x, GivesNumber "antipatterns" (membersOf p) x ∧
    doc.production.antipatterns = x.getD 0
  testLoc : ∃ x, GivesNumber "testLoc" (membersOf j) x ∧ doc.testLoc = x.getD 0
  surfaceArea : GivesText "surfaceArea" (membersOf j) "\x7b\x7d" doc.surfaceArea
  surfaceAreaLists : GivesText "surfaceAreaLists" (membersOf j) "\x7b\x7d" doc.surfaceAreaLists
  antipatterns : GivesText "antipatterns" (membersOf j) "\x7b\x7d" doc.antipatterns
  hotspots : GivesText "hotspots" (membersOf j) "[]" doc.hotspots

section Output

variable {j p : Json} {doc : Document} (hs : Spelled j) (hd : DistinctKeys j) (hc : Conforms j)
  (hp : (Text.ofString "production", p) ∈ membersOf j)
include hs hd hc

theorem checked_output : Checked outputRules (membersOf j) :=
  ⟨hd.output, fun _ _ => spelled_of_mem_membersOf hs, hc.rules.output⟩

include hp

theorem checked_production : Checked productionRules (membersOf p) :=
  ⟨hd.figures p hp, fun _ _ => spelled_of_mem_membersOf (spelled_of_mem_membersOf hs hp),
    hc.rules.figures p hp⟩

theorem inRange_iff (hm : ModerateNumbers j) :
    InRange j ↔
      (∀ r ∈ productionRules, Numeric r → ∃ o, GivesNumber r.name (membersOf p) o) ∧
        ∀ r ∈ outputRules, Numeric r → ∃ o, GivesNumber r.name (membersOf j) o := by
  -- no rule is about numbers and findings at once
  have hnumeric : ∀ r ∈ productionRules, r.kinds = [.number] ∨ r.kinds = [.integer] := by decide
  have hkinds : ∀ r ∈ outputRules, r.kinds = [.number] ∨ ∀ k ∈ r.kinds, k = .object ∨ k = .array := by
    decide
  have hfigures : (∀ r ∈ productionRules, ∀ v, (Text.ofString r.name, v) ∈ membersOf p → InLimit v) ↔
      ∀ r ∈ productionRules, Numeric r → ∃ o, GivesNumber r.name (membersOf p) o :=
    forall₂_congr fun r hr => (checked_production hs hd hc hp).inLimit_iff hr
      (hm.figures p hp r hr) (.inl (hnumeric r hr))
  have houtput : (∀ r ∈ outputRules, ∀ v, (Text.ofString r.name, v) ∈ membersOf j → InLimit v) ↔
      ∀ r ∈ outputRules, Numeric r → ∃ o, GivesNumber r.name (membersOf j) o :=
    forall₂_congr fun r hr => (checked_output hs hd hc).inLimit_iff hr (hm.output r hr)
      ((hkinds r hr).imp_left .inl)
  rw [← hfigures, ← houtput]
  constructor
  · intro h
    exact ⟨h.figures p hp, h.output⟩
  · rintro ⟨hinside, houtside⟩
    refine ⟨fun q hq => ?_, houtside⟩
    rwa [hd.production.eq_of_mem hq hp]

/-- What is decoded from output of the right shape. -/
theorem ofMembers_eq_ok_iff_of_conforms :
    ofMembers (membersOf j) = .ok doc ↔
      ∃ output f, outputFields? (membersOf j) = some output ∧
        productionFields? (membersOf p) = some f ∧ doc = ofFields output f (membersOf j) := by
  -- a production object that is `null` does not conform
  have hobject : ∃ blank members, p = .object blank members := by
    obtain ⟨q, hq, hobject, -⟩ := hc.production
    rwa [hd.production.eq_of_mem hq hp] at hobject
  obtain ⟨blank, members, rfl⟩ := hobject
  rw [ofMembers_eq_ok_iff]
  have hproduction : ∀ output, outputFields? (membersOf j) = some output →
      output.production = .object blank members := by
    intro output hout
    exact ((outputFields?_eq_some_iff (checked_output hs hd hc) hd.production hp).1 hout).1
  constructor
  · rintro ⟨output, q, hout, hdecode, rfl⟩
    rw [hproduction output hout] at hdecode
    obtain ⟨f, hf, rfl⟩ := Option.map_eq_some_iff.1 hdecode
    exact ⟨output, f, hout, hf, rfl⟩
  · rintro ⟨output, f, hout, hf, rfl⟩
    refine ⟨output, some f, hout, ?_, rfl⟩
    rw [hproduction output hout]
    exact Option.map_eq_some_iff.2 ⟨f, hf, rfl⟩

/-- **Output of the right shape is decoded when its numbers are in range.** -/
theorem exists_ofMembers_iff (hm : ModerateNumbers j) :
    (∃ doc, ofMembers (membersOf j) = .ok doc) ↔ InRange j := by
  have hrules : InRange j ↔
      ((∃ o, GivesNumber "loc" (membersOf p) o) ∧ (∃ o, GivesNumber "ccnSum" (membersOf p) o) ∧
        (∃ o, GivesNumber "miDebtSum" (membersOf p) o) ∧
          ∃ o, GivesNumber "antipatterns" (membersOf p) o) ∧
        (∃ o, GivesNumber "testLoc" (membersOf j) o) ∧ (∃ o, GivesNumber "ccnSum" (membersOf j) o) ∧
          ∃ o, GivesNumber "miDebtSum" (membersOf j) o := by
    rw [inRange_iff hs hd hc hp hm]
    simp [productionRules, outputRules, Numeric]
  simp only [hrules, ofMembers_eq_ok_iff_of_conforms hs hd hc hp,
    outputFields?_eq_some_iff (checked_output hs hd hc) hd.production hp,
    productionFields?_eq_some_iff (checked_production hs hd hc hp)]
  constructor
  · rintro ⟨doc, output, f, ⟨-, ⟨test, htest, -⟩, hccn, hmi⟩,
      ⟨⟨loc, hloc, -⟩, hccn', hmi', ⟨rate, hrate, -⟩⟩, -⟩
    exact ⟨⟨⟨loc, hloc⟩, ⟨_, hccn'⟩, ⟨_, hmi'⟩, ⟨rate, hrate⟩⟩, ⟨test, htest⟩, ⟨_, hccn⟩, ⟨_, hmi⟩⟩
  · rintro ⟨⟨⟨loc, hloc⟩, ⟨ccn', hccn'⟩, ⟨mi', hmi'⟩, ⟨rate, hrate⟩⟩, ⟨test, htest⟩, ⟨ccn, hccn⟩,
      ⟨mi, hmi⟩⟩
    exact ⟨_, ⟨p, test.getD 0, ccn, mi⟩, ⟨loc.getD 0, ccn', mi', rate.getD 0⟩,
      ⟨rfl, ⟨test, htest, rfl⟩, hccn, hmi⟩, ⟨⟨loc, hloc, rfl⟩, hccn', hmi', ⟨rate, hrate, rfl⟩⟩, rfl⟩

/-- **The document holds what output of the right shape says.** -/
theorem reflects_of_ofMembers (h : ofMembers (membersOf j) = .ok doc) : Reflects j p doc := by
  have htext : ∀ r ∈ outputRules, (∀ k ∈ r.kinds, k = .object ∨ k = .array) → ∀ empty,
      GivesText r.name (membersOf j) empty
        (orDefault (rawField r.name [] (membersOf j)) empty) := fun r hr hstructured empty =>
    givesText_orDefault (hd.output r hr)
      ((checked_output hs hd hc).object_or_array hr hstructured) empty
  obtain ⟨output, f, hout, hf, rfl⟩ := (ofMembers_eq_ok_iff_of_conforms hs hd hc hp).1 h
  obtain ⟨hproduction, htest, hccn, hmi⟩ :=
    (outputFields?_eq_some_iff (checked_output hs hd hc) hd.production hp).1 hout
  obtain ⟨⟨loc, hloc, hlocEq⟩, hccn', hmi', hrate⟩ :=
    (productionFields?_eq_some_iff (checked_production hs hd hc hp)).1 hf
  have honce : Once "loc" (membersOf p) :=
    hd.figures p hp ⟨"loc", [.integer], true⟩ (by simp [productionRules])
  refine {
    production := hp
    raw := congrArg source hproduction
    loc := fun v n hv hn hm hsmall => ?_
    ccnSum := ⟨_, _, hccn', hccn, rfl⟩
    miDebtSum := ⟨_, _, hmi', hmi, rfl⟩
    rate := hrate
    testLoc := htest
    surfaceArea := htext ⟨"surfaceArea", [.object, .array], false⟩ (by simp [outputRules]) (by decide) _
    surfaceAreaLists :=
      htext ⟨"surfaceAreaLists", [.object, .array], false⟩ (by simp [outputRules]) (by decide) _
    antipatterns :=
      htext ⟨"antipatterns", [.object, .array], false⟩ (by simp [outputRules]) (by decide) _
    hotspots := htext ⟨"hotspots", [.array], false⟩ (by simp [outputRules]) (by decide) _ }
  -- the number that is decoded is the number that is given
  cases loc with
  | none => exact absurd hv (hloc v)
  | some x =>
    obtain ⟨literal, hmem, hx⟩ := hloc
    obtain rfl := honce.eq_of_mem hv hmem
    obtain ⟨y, hy, htruncate⟩ := hn.truncate_float? hm (Binary64.isDouble_of_lt hsmall)
      (hsmall.trans (by norm_num))
    obtain rfl : y = x := Option.some.inj (hy.symm.trans hx)
    change Binary64.truncate f.loc = n
    rw [hlocEq]
    exact htruncate

end Output

/-! ### Refusals -/

/-- The refusal says that the output is malformed. -/
def SaysMalformed (e : DocumentError) : Prop :=
  ∃ details, e.message = Text.ofString "malformed analyzer output" ++ details

theorem saysMalformed {e : DocumentError} (h : e ≠ .breakdown) : SaysMalformed e := by
  cases e with
  | breakdown => exact absurd rfl h
  | undecodableProduction => exact ⟨": production", by decide⟩
  | notJson => exact ⟨[], (List.append_nil _).symm⟩
  | violates _ => exact ⟨[], (List.append_nil _).symm⟩
  | undecodable => exact ⟨[], (List.append_nil _).symm⟩

theorem parse_eq_breakdown_iff {data : Text} :
    parse data = .error .breakdown ↔ ∃ j, Json.parse? data = some j ∧ breaksDown j = true := by
  have hdecode : ∀ members, ofMembers members ≠ .error .breakdown := by
    intro members h
    cases hout : outputFields? members with
    | none =>
      simp only [ofMembers, hout] at h
      cases h
    | some output =>
      cases hp : decodeRecord (fun _ ms => (productionFields? ms).map some) none output.production with
      | none =>
        simp only [ofMembers, hout, hp] at h
        cases h
      | some p =>
        simp only [ofMembers, hout, hp] at h
        cases h
  cases hj : Json.parse? data with
  | none =>
    have hrefused : parse data = .error .notJson := by
      simp only [parse, hj]
      rfl
    simp [hrefused]
  | some j =>
    rw [parse_eq hj]
    simp only [Option.some.injEq, exists_eq_left']
    cases breaksDown j <;> cases violations j <;> simp [hdecode]

theorem checked_iff {j : Json} (hd : DistinctKeys j) (hs : Spelled j) :
    breaksDown j = false ∧ violations j = [] ↔ Conforms j ∧ Computable j := by
  rw [breaksDown_eq_false_iff hd, violations_eq_nil_iff hd hs]
  constructor
  · rintro ⟨htest, hconforms, hintegers⟩
    exact ⟨hconforms, hintegers, htest⟩
  · rintro ⟨hconforms, hintegers, htest⟩
    exact ⟨htest, hconforms, hintegers⟩

/-- **Output in which no known key is repeated is accepted when it is one value of the right shape
with numbers in range, as far as the check can be carried out and the numbers are spelled at moderate
length.**  The document holds what the output says.  A refusal says that the output is malformed; only
a size of the test code that cannot be computed is no refusal. -/
theorem parse_exact_of_distinctKeys {data : Text} (h : ∀ j, TextOf data j → DistinctKeys j) :
    ((∀ j, TextOf data j → ModerateNumbers j) →
        ((∃ doc, parse data = .ok doc) ↔
          ∃ j, TextOf data j ∧ Conforms j ∧ InRange j ∧ Computable j)) ∧
      (∀ doc, parse data = .ok doc → ∃ j p, TextOf data j ∧ Reflects j p doc) ∧
        (parse data = .error .breakdown ↔
          ∃ j v, TextOf data j ∧ (Text.ofString "testLoc", v) ∈ membersOf j ∧ ¬ Computed v) ∧
          ∀ e, parse data = .error e → e ≠ .breakdown → SaysMalformed e := by
  refine ⟨?_, ?_, ?_, fun e _ => saysMalformed⟩
  · -- what passes the check is decoded when it is in range
    intro hm
    simp only [parse_eq_ok_iff, parse?_eq_some_iff]
    constructor
    · rintro ⟨doc, j, hj, hbreaks, hviolations, hdoc⟩
      have hd := h j hj
      obtain ⟨hconforms, hcomputable⟩ := (checked_iff hd hj.spelled).1 ⟨hbreaks, hviolations⟩
      obtain ⟨p, hp, -⟩ := hconforms.production
      exact ⟨j, hj, hconforms,
        (exists_ofMembers_iff hj.spelled hd hconforms hp (hm j hj)).1 ⟨doc, hdoc⟩, hcomputable⟩
    · rintro ⟨j, hj, hconforms, hrange, hcomputable⟩
      have hd := h j hj
      obtain ⟨hbreaks, hviolations⟩ := (checked_iff hd hj.spelled).2 ⟨hconforms, hcomputable⟩
      obtain ⟨p, hp, -⟩ := hconforms.production
      obtain ⟨doc, hdoc⟩ := (exists_ofMembers_iff hj.spelled hd hconforms hp (hm j hj)).2 hrange
      exact ⟨doc, j, hj, hbreaks, hviolations, hdoc⟩
  · -- what is decoded conforms, since it passed the check
    intro doc hdoc
    obtain ⟨j, hj, hbreaks, hviolations, hdoc⟩ := parse_eq_ok_iff.1 hdoc
    rw [parse?_eq_some_iff] at hj
    have hd := h j hj
    obtain ⟨hconforms, -⟩ := (checked_iff hd hj.spelled).1 ⟨hbreaks, hviolations⟩
    obtain ⟨p, hp, -⟩ := hconforms.production
    exact ⟨j, p, hj, reflects_of_ofMembers hj.spelled hd hconforms hp hdoc⟩
  · -- decoding has refusals of its own, but does not break down
    rw [parse_eq_breakdown_iff]
    simp only [parse?_eq_some_iff]
    constructor
    · rintro ⟨j, hj, hbreaks⟩
      by_contra hnone
      push Not at hnone
      rw [(breaksDown_eq_false_iff (h j hj)).2 fun v hv => hnone j v hj hv] at hbreaks
      simp at hbreaks
    · rintro ⟨j, v, hj, hv, hcomputed⟩
      refine ⟨j, hj, ?_⟩
      by_contra hkept
      exact hcomputed ((breaksDown_eq_false_iff (h j hj)).1 (by simpa using hkept) v hv)

theorem of_all {P : Json → Prop} [DecidablePred P] {data : Text}
    (h : (Json.parse? data).all (fun j => decide (P j)) = true) {j : Json} (hj : TextOf data j) :
    P j := by
  rw [parse?_eq_some_iff.2 hj, Option.all_some] at h
  exact of_decide_eq_true h

/-- Output that leaves most to the defaults, with a number of lines in scientific notation. -/
def sparse : Text :=
  "\x7b\"production\":\x7b\"loc\":1.5e3,\"ccnSum\":7\x7d,\"miDebtSum\":2.5,\"other\":null\x7d"

theorem parse_exact_of_distinctKeys_sparse :
    (∀ j, TextOf sparse j → DistinctKeys j) ∧ (∀ j, TextOf sparse j → ModerateNumbers j) ∧
      (∃ doc, parse sparse = .ok doc) ∧
        ∃ j, TextOf sparse j ∧ Conforms j ∧ InRange j ∧ Computable j := by
  have h : ∀ j, TextOf sparse j → DistinctKeys j := fun j => of_all (by decide +kernel)
  have hm : ∀ j, TextOf sparse j → ModerateNumbers j := fun j => of_all (by decide +kernel)
  have hdoc : ∃ doc, parse sparse = .ok doc := by
    have haccepted : (parse sparse).toOption.isSome = true := by decide +kernel
    cases hread : parse sparse with
    | error e => simp [hread, Except.toOption] at haccepted
    | ok doc => exact ⟨doc, rfl⟩
  exact ⟨h, hm, hdoc, ((parse_exact_of_distinctKeys h).1 hm).1 hdoc⟩

/-- Output whose size of test code is in range, but too small to be computed. -/
def vanishing : Text := "\x7b\"production\":\x7b\"loc\":1\x7d,\"testLoc\":1e-1000001\x7d"

/-- The output conforms to the schema, its numbers are in range and no key is repeated, but there is
neither a document nor a refusal. -/
theorem parse_vanishing :
    (∀ j, TextOf vanishing j → DistinctKeys j) ∧
      (∃ j, TextOf vanishing j ∧ Conforms j ∧ InRange j) ∧
        parse vanishing = .error .breakdown ∧ ¬ SaysMalformed .breakdown := by
  have h : ∀ j, TextOf vanishing j → DistinctKeys j := fun j => of_all (by decide +kernel)
  have hread : (Json.parse? vanishing).any (fun j => (violations j).isEmpty && breaksDown j &&
      decide (Each (fun _ v => isInLimit v = true) j)) = true := by decide +kernel
  rw [Option.any_eq_true_iff_get] at hread
  obtain ⟨hsome, hread⟩ := hread
  obtain ⟨j, hj⟩ := Option.isSome_iff_exists.1 hsome
  simp only [hj, Option.get_some, Bool.and_eq_true, List.isEmpty_iff] at hread
  obtain ⟨⟨hviolations, hbreaks⟩, hlimit⟩ := hread
  have htext := parse?_eq_some_iff.1 hj
  obtain ⟨hconforms, -⟩ := (violations_eq_nil_iff (h j htext) htext.spelled).1 hviolations
  have hrange : InRange j := inRange_of_isInLimit htext.spelled (of_decide_eq_true hlimit)
  refine ⟨h, ⟨j, htext, hconforms, hrange⟩, parse_eq_breakdown_iff.2 ⟨j, hj, hbreaks⟩, ?_⟩
  rintro ⟨details, hmessage⟩
  rw [show DocumentError.message .breakdown = Text.byte 's' :: "chema check broke down" by decide,
    show Text.ofString "malformed analyzer output" = Text.byte 'm' :: "alformed analyzer output"
      by decide, List.cons_append, List.cons.injEq] at hmessage
  exact absurd hmessage.1 (by decide)

end Document

end MetricHistory
