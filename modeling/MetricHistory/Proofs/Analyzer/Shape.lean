import MetricHistory.Proofs.Analyzer.Document
import MetricHistory.Proofs.Json.Denotation

/-!
# What the schema asks for

The shape of analyzer output, apart from how it is checked: what a rule asks of a value
(`Schema.Rule.Holds`), and what the schema asks of a tree (`Schema.Conforms`).

* `Schema.Rule.keeps_iff` : a value passes the check of a rule when the rule holds of it, and its
  number can be computed if it has to be whole;
* `Schema.violations_eq_nil_iff` : **a tree in which no known key is repeated passes the check when it
  conforms to the schema, and the numbers that have to be whole can be computed**;
* `Schema.breaksDown_eq_false_iff` : the check breaks down over the size of the test code only.
-/

namespace MetricHistory

theorem Json.spelled_of_mem_membersOf {j v : Json} {key : Text} (h : Spelled j)
    (hv : (key, v) ∈ membersOf j) : Spelled v := by
  cases j with
  | object blank members => exact (spelled_of_mem_memberList h.2.2 hv).1
  | _ => simp [membersOf, members?] at hv

namespace Schema

open Json

/-! ### Rules -/

/-- The values of a kind. -/
def Kind.Of : Kind → Json → Prop
  | .object, j => ∃ blank members, j = .object blank members
  | .array, j => ∃ blank items, j = .array blank items
  | .number, j => ∃ x, Denotes j x
  | .integer, j => ∃ i : ℤ, Denotes j i

/-- The value is what the rule asks for. -/
structure Rule.Holds (r : Rule) (j : Json) : Prop where
  kind : ∃ k ∈ r.kinds, k.Of j
  minimum : r.minimumZero = true → ∀ x, Denotes j x → 0 ≤ x

/-- The value is no number, or one that can be computed. -/
def Computed (j : Json) : Prop := ∀ literal, j = .number literal → isComputable literal = true

theorem isWhole_spelling {p : Literal.NumberParts} (h : p.Valid) :
    isWhole p.spelling = true ↔ ∃ i : ℤ, p.value = i := by
  rw [p.value_isInt_iff, isWhole, Literal.decimal?_spelling h]
  exact Decimal.isWhole_iff

theorem isNegative_eq_false_iff {j : Json} (h : Spelled j) :
    isNegative j = false ↔ ∀ x, Denotes j x → 0 ≤ x := by
  cases j with
  | number literal =>
    obtain ⟨p, hp, rfl⟩ := h
    simp only [denotes_spelling_iff hp, forall_eq']
    rw [isNegative, Literal.decimal?_spelling hp, ← not_lt, p.value_neg_iff]
    simp
  | _ => simp [isNegative, Denotes]

/-- A value passes as one of a kind when it is, and as an integer when it can be computed. -/
theorem Kind.admits_iff {j : Json} (h : Spelled j) (k : Kind) :
    k.admits j = true ↔ k.Of j ∧ (k = .integer → Computed j) := by
  cases k with
  | object => cases j <;> simp [admits, Of]
  | array => cases j <;> simp [admits, Of]
  | number =>
    cases j with
    | number literal => simpa [admits, Of] using h.denotes
    | _ => simp [admits, Of, Denotes]
  | integer =>
    cases j with
    | number literal =>
      obtain ⟨p, hp, rfl⟩ := h
      simp only [admits, Of, Bool.and_eq_true, isWhole_spelling hp, denotes_spelling_iff hp, Computed,
        Json.number.injEq, forall_eq', forall_const]
      exact and_comm
    | _ => simp [admits, Of, Denotes]

variable {j : Json} {r : Rule}

theorem Rule.admits_iff (h : Spelled j) (hkinds : Kind.integer ∈ r.kinds → r.kinds = [.integer]) :
    r.admits j = true ↔ (∃ k ∈ r.kinds, k.Of j) ∧ (Kind.integer ∈ r.kinds → Computed j) := by
  simp only [admits, List.any_eq_true, Kind.admits_iff h]
  -- only a rule that asks for integers needs the number
  by_cases hinteger : Kind.integer ∈ r.kinds
  · simp [hkinds hinteger]
  · simp only [hinteger, false_implies, and_true]
    refine exists_congr fun k => and_congr_right fun hk => and_iff_left ?_
    rintro rfl
    exact absurd hk hinteger

/-- **The check of a rule is exact, as far as it can be carried out.**  No rule asks for integers
or something else. -/
theorem Rule.keeps_iff (h : Spelled j) (hkinds : Kind.integer ∈ r.kinds → r.kinds = [.integer]) :
    r.keeps j = true ↔ r.Holds j ∧ (Kind.integer ∈ r.kinds → Computed j) := by
  have hkeeps : r.keeps j = true ↔
      r.admits j = true ∧ (r.minimumZero = true → isNegative j = false) := by
    rw [keeps]
    cases r.minimumZero <;> simp
  rw [hkeeps, admits_iff h hkinds, isNegative_eq_false_iff h]
  constructor
  · rintro ⟨⟨hkind, hcomputed⟩, hminimum⟩
    exact ⟨⟨hkind, hminimum⟩, hcomputed⟩
  · rintro ⟨⟨hkind, hminimum⟩, hcomputed⟩
    exact ⟨⟨hkind, hcomputed⟩, hminimum⟩

/-- What is admitted is compared with the minimum, and that takes its number. -/
theorem Rule.breaksDown_eq_false_iff :
    r.breaksDown j = false ↔ (r.minimumZero = true → r.admits j = true → Computed j) := by
  cases j with
  | number literal =>
    simp only [breaksDown, Computed, Json.number.injEq, forall_eq']
    cases r.minimumZero <;> cases r.admits (.number literal) <;> simp
  | _ => simp [breaksDown, Computed]

/-! ### Members -/

variable {rules : List Rule} {members : List (Text × Json)}

theorem broken_eq_nil_iff (at_ : Text) :
    broken at_ rules members = [] ↔
      ∀ r ∈ rules, ∀ v, lookup r.name members = some v → r.keeps v = true := by
  rw [broken, List.filterMap_eq_nil_iff]
  refine forall₂_congr fun r hr => ?_
  cases lookup r.name members <;> simp

theorem anyBreaksDown_eq_false_iff :
    anyBreaksDown rules members = false ↔
      ∀ r ∈ rules, ∀ v, lookup r.name members = some v → r.breaksDown v = false := by
  rw [anyBreaksDown, List.any_eq_false]
  refine forall₂_congr fun r hr => ?_
  cases lookup r.name members <;> simp

/-- Members pass the check when each rule holds of the member that it is about. -/
theorem broken_eq_nil_iff_holds (at_ : Text) (h : ∀ r ∈ rules, Once r.name members)
    (hspelled : ∀ key v, (key, v) ∈ members → Spelled v)
    (hkinds : ∀ r ∈ rules, Kind.integer ∈ r.kinds → r.kinds = [.integer]) :
    broken at_ rules members = [] ↔
      (∀ r ∈ rules, ∀ v, (Text.ofString r.name, v) ∈ members → r.Holds v) ∧
        ∀ r ∈ rules, ∀ v, (Text.ofString r.name, v) ∈ members →
          Kind.integer ∈ r.kinds → Computed v := by
  rw [broken_eq_nil_iff at_]
  simp only [← forall_and]
  refine forall₂_congr fun r hr => ?_
  simp only [(h r hr).lookup_eq_some_iff]
  exact forall₂_congr fun v hv => Rule.keeps_iff (hspelled _ v hv) (hkinds r hr)

theorem productionViolations_eq_nil_iff {p : Json} :
    productionViolations p = [] ↔ Kind.object.Of p ∧
      (∃ v, lookup "loc" (membersOf p) = some v) ∧
        broken "/production" productionRules (membersOf p) = [] := by
  cases p with
  | object blank members =>
    have hmembers : membersOf (.object blank members) = memberList members := rfl
    simp only [productionViolations, hmembers, List.append_eq_nil_iff, Kind.Of,
      ← Option.isSome_iff_exists]
    cases lookup "loc" (memberList members) <;> simp
  | _ => simp [productionViolations, Kind.Of]

/-- Output is not complained of when it has a production object that is not complained of, and no
rule is broken next to it. -/
theorem violations_eq_nil_iff_broken :
    violations j = [] ↔ Kind.object.Of j ∧
      (∃ p, lookup "production" (membersOf j) = some p ∧ productionViolations p = []) ∧
        broken [] outputRules (membersOf j) = [] := by
  cases j with
  | object blank members =>
    have hsort : ∀ places : List Text, Text.sort places = [] ↔ places = [] := by
      intro places
      rw [← List.length_eq_zero_iff, Text.sort, List.length_mergeSort, List.length_eq_zero_iff]
    have hmembers : membersOf (.object blank members) = memberList members := rfl
    simp only [violations, hmembers, hsort, List.append_eq_nil_iff, Kind.Of]
    cases lookup "production" (memberList members) <;> simp
  | _ => simp [violations, Kind.Of]

theorem breaksDown_eq_false_iff_any :
    breaksDown j = false ↔
      (∀ p, lookup "production" (membersOf j) = some p →
        anyBreaksDown productionRules (membersOf p) = false) ∧
      anyBreaksDown outputRules (membersOf j) = false := by
  cases j with
  | object blank members =>
    have hmembers : membersOf (.object blank members) = memberList members := rfl
    have hnone : anyBreaksDown productionRules [] = false := by decide
    simp only [breaksDown, hmembers, Bool.or_eq_false_iff]
    cases lookup "production" (memberList members) <;> simp [membersOf, hnone]
  | _ =>
    have hnone : anyBreaksDown outputRules [] = false := by decide
    have hlookup : lookup "production" [] = none := rfl
    simp [breaksDown, membersOf, members?, hnone, hlookup]

/-! ### Trees -/

/-- No known key is repeated in its object, also not in a spelling of other letter case. -/
structure DistinctKeys (j : Json) : Prop where
  production : Once "production" (membersOf j)
  output : ∀ r ∈ outputRules, Once r.name (membersOf j)
  figures : ∀ p, (Text.ofString "production", p) ∈ membersOf j →
    ∀ r ∈ productionRules, Once r.name (membersOf p)

instance (j : Json) : Decidable (DistinctKeys j) :=
  decidable_of_iff
    (Once "production" (membersOf j) ∧ (∀ r ∈ outputRules, Once r.name (membersOf j)) ∧
      ∀ m ∈ membersOf j, m.1 = Text.ofString "production" →
        ∀ r ∈ productionRules, Once r.name (membersOf m.2))
    ⟨fun h => ⟨h.1, h.2.1, fun p hp => h.2.2 (_, p) hp rfl⟩,
      fun h => ⟨h.production, h.output, fun m hm hname =>
        h.figures m.2 (by rw [← hname]; exact hm)⟩⟩

/-- Something holds of each rule and the member that the rule is about. -/
structure Each (P : Rule → Json → Prop) (j : Json) : Prop where
  figures : ∀ p, (Text.ofString "production", p) ∈ membersOf j →
    ∀ r ∈ productionRules, ∀ v, (Text.ofString r.name, v) ∈ membersOf p → P r v
  output : ∀ r ∈ outputRules, ∀ v, (Text.ofString r.name, v) ∈ membersOf j → P r v

instance (P : Rule → Json → Prop) [∀ r v, Decidable (P r v)] (j : Json) : Decidable (Each P j) :=
  decidable_of_iff
    ((∀ m ∈ membersOf j, m.1 = Text.ofString "production" →
        ∀ r ∈ productionRules, ∀ m' ∈ membersOf m.2, m'.1 = Text.ofString r.name → P r m'.2) ∧
      ∀ r ∈ outputRules, ∀ m ∈ membersOf j, m.1 = Text.ofString r.name → P r m.2)
    ⟨fun h => ⟨fun p hp r hr v hv => h.1 (_, p) hp rfl r hr (_, v) hv rfl,
        fun r hr v hv => h.2 r hr (_, v) hv rfl⟩,
      fun h => ⟨fun m hm hname r hr m' hm' hname' =>
          h.figures m.2 (hname ▸ hm) r hr m'.2 (hname' ▸ hm'),
        fun r hr m hm hname => h.output r hr m.2 (hname ▸ hm)⟩⟩

/-- The tree has the shape that the schema asks for. -/
structure Conforms (j : Json) : Prop where
  object : Kind.object.Of j
  production : ∃ p, (Text.ofString "production", p) ∈ membersOf j ∧ Kind.object.Of p ∧
    ∃ v, (Text.ofString "loc", v) ∈ membersOf p
  rules : Each Rule.Holds j

/-- The numbers that have to be whole can be computed. -/
def IntegersComputed (j : Json) : Prop := Each (fun r v => Kind.integer ∈ r.kinds → Computed v) j

variable (hd : DistinctKeys j)
include hd

/-- **A tree in which no known key is repeated passes the check when it conforms to the schema, and
the numbers that have to be whole can be computed.** -/
theorem violations_eq_nil_iff (hs : Spelled j) :
    violations j = [] ↔ Conforms j ∧ IntegersComputed j := by
  have houtput := broken_eq_nil_iff_holds [] hd.output (fun _ _ => spelled_of_mem_membersOf hs)
    (show ∀ r ∈ outputRules, Kind.integer ∈ r.kinds → r.kinds = [.integer] by decide)
  have hfigures : ∀ p, (Text.ofString "production", p) ∈ membersOf j → _ := fun p hp =>
    broken_eq_nil_iff_holds "/production" (hd.figures p hp)
      (fun _ _ => spelled_of_mem_membersOf (spelled_of_mem_membersOf hs hp))
      (show ∀ r ∈ productionRules, Kind.integer ∈ r.kinds → r.kinds = [.integer] by decide)
  have hloc : ∀ p, (Text.ofString "production", p) ∈ membersOf j → Once "loc" (membersOf p) :=
    fun p hp => hd.figures p hp ⟨"loc", [.integer], true⟩ (by simp [productionRules])
  simp only [violations_eq_nil_iff_broken, productionViolations_eq_nil_iff,
    hd.production.lookup_eq_some_iff, houtput]
  constructor
  · rintro ⟨hobject, ⟨p, hp, hpobject, ⟨v, hv⟩, hbroken⟩, hholds, hcomputed⟩
    obtain ⟨hpholds, hpcomputed⟩ := (hfigures p hp).1 hbroken
    have hpresent := (hloc p hp).lookup_eq_some_iff.1 hv
    -- there is one production object only, and that one was checked
    refine ⟨⟨hobject, ⟨p, hp, hpobject, v, hpresent⟩, ⟨fun q hq => ?_, hholds⟩⟩,
      ⟨fun q hq => ?_, hcomputed⟩⟩
    · rwa [hd.production.eq_of_mem hq hp]
    · rwa [hd.production.eq_of_mem hq hp]
  · rintro ⟨⟨hobject, ⟨p, hp, hpobject, v, hv⟩, hholds⟩, hcomputed⟩
    exact ⟨hobject, ⟨p, hp, hpobject, ⟨v, (hloc p hp).lookup_eq_some_iff.2 hv⟩,
      (hfigures p hp).2 ⟨hholds.figures p hp, hcomputed.figures p hp⟩⟩, hholds.output,
      hcomputed.output⟩

/-- **The check breaks down over the size of the test code only.** -/
theorem breaksDown_eq_false_iff :
    breaksDown j = false ↔ ∀ v, (Text.ofString "testLoc", v) ∈ membersOf j → Computed v := by
  have htest : ⟨"testLoc", [.number], true⟩ ∈ outputRules := by simp [outputRules]
  have hfigures : ∀ r ∈ productionRules, r.minimumZero = true → r.kinds = [.integer] := by decide
  have houtput : ∀ r ∈ outputRules, r.minimumZero = true → r.name = "testLoc" := by decide
  simp only [← (hd.output _ htest).lookup_eq_some_iff]
  rw [breaksDown_eq_false_iff_any, anyBreaksDown_eq_false_iff]
  constructor
  · rintro ⟨-, hbreaks⟩ v hv literal rfl
    exact Rule.breaksDown_eq_false_iff.1 (hbreaks _ htest _ hv) rfl rfl literal rfl
  · intro hcomputed
    refine ⟨fun p _ => ?_, fun r hr v hv => ?_⟩
    · -- an integer is computed before it is compared
      rw [anyBreaksDown_eq_false_iff]
      intro r hr v _
      rw [Rule.breaksDown_eq_false_iff]
      rintro hminimum hadmits literal rfl
      rw [Rule.admits, hfigures r hr hminimum] at hadmits
      simp only [List.any_cons, List.any_nil, Bool.or_false, Kind.admits, Bool.and_eq_true] at hadmits
      exact hadmits.1
    · rw [Rule.breaksDown_eq_false_iff]
      intro hminimum _
      rw [houtput r hr hminimum] at hv
      exact hcomputed v hv

end Schema

end MetricHistory
