import MetricHistory.Proofs.Analyzer.Figures
import MetricHistory.Proofs.Analyzer.Shape

/-!
# What the check guards

The check looks at the last member of a name, and takes its number exactly.  The decoder takes the last
number that is given for the name in any letter case, and as a double.

* `Document.exists_sees` : in output that passes the check, the lines of code are a natural number;
* `Document.guarded_iff_of_distinctKeys` : where no known key is repeated, a number of moderate length
  is decoded as it was checked exactly when it is a double of 64 bits;
* `Document.parse_guarded_iff` : **a document holds the numbers that were checked exactly when the
  decoder takes them from the output (`Document.Guarded`).**
-/

namespace MetricHistory

namespace Document

open Json Schema

/-- The check sees the number at the lines of code. -/
def Sees (j : Json) (n : ℕ) : Prop :=
  ∃ p v, lookup "production" (membersOf j) = some p ∧ lookup "loc" (membersOf p) = some v ∧
    Denotes v n

/-- The lines of code that the check sees are spelled at moderate length. -/
def ModerateLoc (j : Json) : Prop :=
  ∀ p v, lookup "production" (membersOf j) = some p → lookup "loc" (membersOf p) = some v → v.Moderate

/-- The decoder takes the number for the lines of code, and none below zero for the test code. -/
structure Guarded (j : Json) (n : ℕ) : Prop where
  loc : Binary64.truncate ((lastNumber? Literal.float? (figures "loc" j)).getD 0) = n
  testLoc : Binary64.NonNegative ((lastNumber? Literal.float? (aside "testLoc" j)).getD 0)

variable {data : Text} {j : Json} {doc : Document} {n : ℕ}

/-- Output that passes the check has a natural number of lines of code. -/
theorem exists_sees (hs : Spelled j) (h : violations j = []) : ∃ n, Sees j n := by
  have hrule : ⟨"loc", [.integer], true⟩ ∈ productionRules := by simp [productionRules]
  obtain ⟨-, ⟨p, hp, hproduction⟩, -⟩ := violations_eq_nil_iff_broken.1 h
  obtain ⟨-, ⟨v, hv⟩, hbroken⟩ := productionViolations_eq_nil_iff.1 hproduction
  have hspelled := spelled_of_mem_membersOf
    (spelled_of_mem_membersOf hs (mem_of_lookup_eq_some hp)) (mem_of_lookup_eq_some hv)
  obtain ⟨hholds, -⟩ := (Rule.keeps_iff hspelled fun _ => rfl).1
    ((broken_eq_nil_iff _).1 hbroken _ hrule v hv)
  -- the rule asks for an integer that is not below zero
  obtain ⟨k, hk, hof⟩ := hholds.kind
  obtain rfl := List.mem_singleton.1 hk
  obtain ⟨i, hi⟩ := hof
  have hnonneg : 0 ≤ i := by exact_mod_cast hholds.minimum rfl _ hi
  obtain ⟨n, rfl⟩ := Int.eq_ofNat_of_zero_le hnonneg
  exact ⟨n, p, v, hp, hv, by exact_mod_cast hi⟩

theorem lastNumber?_matching {name literal : Text} {members : List (Text × Json)}
    (h : Once name members) (hmem : (name, .number literal) ∈ members) :
    lastNumber? Literal.float? (matching name members) = Literal.float? literal := by
  rw [h.matching_eq, h.lookup_eq_some_iff.2 hmem]
  rfl

/-- Without repeated keys, a size of test code that passed the check is not decoded as a number below
zero. -/
theorem nonNegative_testLoc (hs : Spelled j) (h : violations j = []) (hd : DistinctKeys j) :
    Binary64.NonNegative ((lastNumber? Literal.float? (aside "testLoc" j)).getD 0) := by
  have hrule : ⟨"testLoc", [.number], true⟩ ∈ outputRules := by simp [outputRules]
  have honce : Once "testLoc" (membersOf j) := hd.output _ hrule
  obtain ⟨hconforms, -⟩ := (violations_eq_nil_iff hd hs).1 h
  unfold aside
  by_cases hgiven : ∃ v, (Text.ofString "testLoc", v) ∈ membersOf j
  · obtain ⟨v, hv⟩ := hgiven
    have hholds := hconforms.rules.output _ hrule v hv
    obtain ⟨k, hk, hof⟩ := hholds.kind
    obtain rfl := List.mem_singleton.1 hk
    obtain ⟨x, hx⟩ := hof
    obtain ⟨literal, rfl⟩ := hx.eq_number
    rw [lastNumber?_matching honce hv]
    cases hf : Literal.float? literal with
    | none => exact Binary64.nonNegative_zero
    | some f => exact hx.nonNegative_float? (hholds.minimum rfl x hx) hf
  · have hnone : lookup "testLoc" (membersOf j) = none :=
      honce.lookup_eq_none_iff.2 fun v hv => hgiven ⟨v, hv⟩
    rw [honce.matching_eq, hnone]
    exact Binary64.nonNegative_zero

/-- **Without repeated keys, a number of moderate length that was checked is decoded exactly when it
is a double of 64 bits.** -/
theorem guarded_iff_of_distinctKeys (hs : Spelled j) (h : violations j = []) (hd : DistinctKeys j)
    (hm : ModerateLoc j) (hn : Sees j n) : Guarded j n ↔ Binary64.IsDouble n ∧ n < 2 ^ 63 := by
  obtain ⟨p, v, hp, hv, hdenotes⟩ := hn
  obtain ⟨literal, rfl⟩ := hdenotes.eq_number
  have hproduction : productionOf j = p := by
    rw [productionOf, hd.production.matching_eq, hp]
    rfl
  have honce : Once "loc" (membersOf p) := hd.figures p (mem_of_lookup_eq_some hp)
    ⟨"loc", [.integer], true⟩ (by simp [productionRules])
  have hlast : lastNumber? Literal.float? (figures "loc" j) = Literal.float? literal := by
    rw [figures, hproduction, lastNumber?_matching honce (mem_of_lookup_eq_some hv)]
  constructor
  · -- nothing else comes out of truncating a double
    rintro ⟨hloc, -⟩
    exact Binary64.isDouble_of_truncate hloc
  · rintro ⟨hdouble, hsmall⟩
    obtain ⟨f, hf, htruncate⟩ := hdenotes.truncate_float? (hm _ _ hp hv) hdouble hsmall
    refine ⟨?_, nonNegative_testLoc hs h hd⟩
    rw [hlast, hf]
    exact htruncate

/-- **A document holds the numbers that were checked exactly when the decoder takes them from the
output.**  Without repeated keys, it does so for the numbers of lines that are doubles of 64 bits and
are spelled at moderate length. -/
theorem parse_guarded_iff (h : parse data = .ok doc) :
    ∃ j n, TextOf data j ∧ Sees j n ∧
      ((doc.production.loc = n ∧ Binary64.NonNegative doc.testLoc ∧ (fragment doc).loc = n) ↔
        Guarded j n) ∧
        (DistinctKeys j → ModerateLoc j →
          (Guarded j n ↔ Binary64.IsDouble n ∧ n < 2 ^ 63)) := by
  obtain ⟨j, hj, hholds⟩ := parse_eq_ok h
  -- the check and the decoder have read the same tree
  obtain ⟨j', hj', -, hviolations, -⟩ := parse_eq_ok_iff.1 h
  obtain rfl : j' = j := Option.some.inj (hj'.symm.trans hj)
  have htext := parse?_eq_some_iff.1 hj
  obtain ⟨n, hn⟩ := exists_sees htext.spelled hviolations
  refine ⟨j', n, htext, hn, ?_, fun hd hm =>
    guarded_iff_of_distinctKeys htext.spelled hviolations hd hm hn⟩
  rw [fragment, hholds.testLoc, hholds.loc]
  constructor
  · rintro ⟨hloc, htest, -⟩
    exact ⟨hloc, htest⟩
  · rintro ⟨hloc, htest⟩
    exact ⟨hloc, htest, hloc⟩

/-- Output that gives its numbers in several spellings, the checked ones last. -/
def respelled : Text :=
  "\x7b\"Production\":[],\"production\":\x7b\"LOC\":-5,\"loc\":7e0\x7d,\"testLoc\":-0.0\x7d"

theorem parse_guarded_iff_respelled :
    ∃ doc, parse respelled = .ok doc ∧
      ∃ j n, TextOf respelled j ∧ Sees j n ∧
        ((doc.production.loc = n ∧ Binary64.NonNegative doc.testLoc ∧ (fragment doc).loc = n) ↔
          Guarded j n) ∧
          (DistinctKeys j → ModerateLoc j →
            (Guarded j n ↔ Binary64.IsDouble n ∧ n < 2 ^ 63)) := by
  have haccepted : (parse respelled).toOption.isSome = true := by decide +kernel
  cases hread : parse respelled with
  | error e => simp [hread, Except.toOption] at haccepted
  | ok doc => exact ⟨doc, rfl, parse_guarded_iff hread⟩

/-- Output that gives the lines of code once more, in capitals. -/
def shouted : Text := "\x7b\"production\":\x7b\"loc\":1,\"LOC\":-5\x7d\x7d"

/-- The check sees one line of code, but the document has minus five. -/
theorem parse_shouted :
    ∃ doc j, parse shouted = .ok doc ∧ TextOf shouted j ∧ Sees j 1 ∧ doc.production.loc = -5 := by
  have hloc : (parse shouted).toOption.any (·.production.loc == -5) = true := by decide +kernel
  have hseen : literals ((Json.parse? shouted).bind fun j =>
      (lookup "production" (membersOf j)).bind fun p =>
        lookup "loc" (membersOf p)).toList = [Text.ofNat 1] := by decide +kernel
  have hmem := mem_literals.1 (hseen ▸ List.mem_singleton_self (Text.ofNat 1))
  obtain ⟨j, hj, hmem⟩ := Option.bind_eq_some_iff.1 (Option.mem_toList.1 hmem)
  obtain ⟨p, hp, hv⟩ := Option.bind_eq_some_iff.1 hmem
  cases hread : parse shouted with
  | error e => simp [hread, Except.toOption] at hloc
  | ok doc =>
    exact ⟨doc, j, rfl, parse?_eq_some_iff.1 hj, ⟨p, _, hp, hv, denotes_ofNat 1⟩,
      by simpa [hread, Except.toOption] using hloc⟩

end Document

end MetricHistory
