import Mathlib
import MetricHistory.Json.Parser
import MetricHistory.Proofs.Json.Literal

/-!
# The spelling of JSON texts

`Json.Spelled` says that a tree is spelled the way JSON texts are, and `Json.depth` how deep it is
nested.

* `Json.parseValue_source` : a spelled tree that is not too deep is read back from its text.
* `Json.parseValue_eq_some` : what is read is spelled, not too deep, and has the text it was read from.
* `Json.parse?_eq_some_iff` : a whole text is read as the tree it is the text of (`Json.TextOf`).
-/

namespace MetricHistory

namespace Json

open Literal

/-- All bytes are blank space. -/
def Blank (t : Text) : Prop := ∀ b ∈ t, isBlank b = true

/-- No blank space comes next. -/
def NoBlank (t : Text) : Prop := ∀ b, t.head? = some b → isBlank b = false

mutual

/-- The tree is spelled the way JSON texts are.  Blank space stands in an array or object itself
only when it is empty. -/
def Spelled : Json → Prop
  | .null => True
  | .bool _ => True
  | .number literal => ∃ p : NumberParts, p.Valid ∧ literal = p.spelling
  | .string body => IsBody body
  | .array blank items => Blank blank ∧ (items.isNil = false → blank = []) ∧ ItemsSpelled items
  | .object blank members =>
    Blank blank ∧ (members.isNil = false → blank = []) ∧ MembersSpelled members

/-- The elements are spelled the way JSON texts are. -/
def ItemsSpelled : JsonItems → Prop
  | .nil => True
  | .cons before value after rest =>
    Blank before ∧ Spelled value ∧ Blank after ∧ ItemsSpelled rest

/-- The members are spelled the way JSON texts are. -/
def MembersSpelled : JsonMembers → Prop
  | .nil => True
  | .cons before key middle₁ middle₂ value after rest =>
    Blank before ∧ IsBody key ∧ Blank middle₁ ∧ Blank middle₂ ∧ Spelled value ∧ Blank after ∧
      MembersSpelled rest

end

mutual

/-- How many arrays and objects are open at the deepest place. -/
def depth : Json → Nat
  | .array _ items => itemsDepth items + 1
  | .object _ members => membersDepth members + 1
  | _ => 0

/-- The depth of the deepest element. -/
def itemsDepth : JsonItems → Nat
  | .nil => 0
  | .cons _ value _ rest => max (depth value) (itemsDepth rest)

/-- The depth of the deepest member. -/
def membersDepth : JsonMembers → Nat
  | .nil => 0
  | .cons _ _ _ _ value _ rest => max (depth value) (membersDepth rest)

end

/-! ### Pieces of the text -/

variable {t r : Text}

theorem blankRun_append (ht : Blank t) (hr : NoBlank r) : blankRun (t ++ r) = (t, r) := by
  unfold blankRun
  rw [List.takeWhile_append_of_pos ht, List.dropWhile_append_of_pos ht]
  cases r with
  | nil => simp
  | cons b r => simp [hr b rfl]

theorem blank_fst_blankRun (t : Text) : Blank (blankRun t).1 :=
  fun _ hb => List.mem_takeWhile_imp hb

theorem append_blankRun (t : Text) : (blankRun t).1 ++ (blankRun t).2 = t :=
  List.takeWhile_append_dropWhile

theorem noBlank_cons {b : UInt8} (h : isBlank b = false) (t : Text) : NoBlank (b :: t) := by
  intro c hc
  cases hc
  exact h

theorem blankRun_cons {b : UInt8} (ht : Blank t) (hb : isBlank b = false) (r : Text) :
    blankRun (t ++ b :: r) = (t, b :: r) :=
  blankRun_append ht (noBlank_cons hb r)

theorem expect?_cons (c : Char) (t : Text) : expect? c (Text.byte c :: t) = some t := by
  simp [expect?]

theorem expect?_eq_some {c : Char} (h : expect? c t = some r) : t = Text.byte c :: r := by
  cases t with
  | nil => simp [expect?] at h
  | cons b t =>
    simp only [expect?] at h
    split at h
    · rename_i hb
      rw [hb, Option.some.inj h]
    · simp at h

theorem expect?_ne {c : Char} {b : UInt8} (h : b ≠ Text.byte c) (t : Text) :
    expect? c (b :: t) = none := by
  simp [expect?, h]

theorem after?_append (p t : Text) : Text.after? p (p ++ t) = some t := by
  have : (p ++ t).startsWith p = true := by
    rw [Text.startsWith, List.isPrefixOf_iff_prefix]
    exact List.prefix_append _ _
  simp [Text.after?, this]

theorem after?_eq_some {p : Text} (h : Text.after? p t = some r) : t = p ++ r := by
  unfold Text.after? at h
  split at h
  · rename_i hp
    rw [Text.startsWith, List.isPrefixOf_iff_prefix] at hp
    obtain ⟨u, rfl⟩ := hp
    simpa using h
  · simp at h

theorem stops_append {after : Text} (ha : Blank after) {b : UInt8}
    (hb : b ∈ [Text.byte ',', Text.byte ']', Text.byte '\x7d', Text.byte ':']) (t : Text) :
    Stops (after ++ b :: t) := by
  have key : ∀ c : UInt8, isBlank c = true ∨
      c ∈ [Text.byte ',', Text.byte ']', Text.byte '\x7d', Text.byte ':'] →
      Text.isDigit c = false ∧ c ≠ Text.byte '.' ∧ c ≠ Text.byte 'e' ∧ c ≠ Text.byte 'E' := by
    intro c hc
    simp only [isBlank, Bool.or_eq_true, beq_iff_eq, List.mem_cons, List.not_mem_nil, or_false,
      or_assoc] at hc
    rcases hc with rfl | rfl | rfl | rfl | rfl | rfl | rfl | rfl <;> decide
  have hhead : ∀ c, (after ++ b :: t).head? = some c → isBlank c = true ∨
      c ∈ [Text.byte ',', Text.byte ']', Text.byte '\x7d', Text.byte ':'] := by
    intro c hc
    cases after with
    | nil =>
      cases hc
      exact .inr hb
    | cons a as =>
      cases hc
      exact .inl (ha _ List.mem_cons_self)
  refine ⟨fun c hc => (key c (hhead c hc)).1, fun hc => (key _ (hhead _ hc)).2.1 rfl,
    fun c hc => (key c (hhead c hc)).2.2⟩

/-! ### Reading back what is spelled -/

theorem Spelled.exists_cons {j : Json} (h : Spelled j) :
    ∃ b t, source j = b :: t ∧ isBlank b = false ∧ b ≠ Text.byte ']' ∧ b ≠ Text.byte '\x7d' := by
  cases j with
  | null => exact ⟨_, _, rfl, by decide⟩
  | bool b => cases b <;> exact ⟨_, _, rfl, by decide⟩
  | number literal =>
    obtain ⟨p, hp, rfl⟩ := h
    obtain ⟨d, ds, hw⟩ := hp.whole.exists_cons
    have hd : Text.isDigit d = true := hp.whole.digits d (by rw [hw]; exact List.mem_cons_self)
    rw [source, spelling_eq, hw]
    cases p.negative with
    | true => exact ⟨_, _, rfl, by decide⟩
    | false =>
      refine ⟨d, _, rfl, ?_, ?_, ?_⟩
      · rw [← Bool.not_eq_true]
        intro hb
        simp only [isBlank, Bool.or_eq_true, beq_iff_eq, or_assoc] at hb
        rcases hb with rfl | rfl | rfl | rfl <;> exact absurd hd (by decide)
      · rintro rfl
        exact absurd hd (by decide)
      · rintro rfl
        exact absurd hd (by decide)
  | string body => exact ⟨_, _, rfl, by decide⟩
  | array blank items => exact ⟨_, _, rfl, by decide⟩
  | object blank members => exact ⟨_, _, rfl, by decide⟩

theorem Spelled.noBlank {j : Json} (h : Spelled j) (r : Text) : NoBlank (source j ++ r) := by
  obtain ⟨b, t, ht, hb, -⟩ := h.exists_cons
  rw [ht]
  exact noBlank_cons hb _

theorem parseValue_scalar {b : UInt8} (h₁ : b ≠ Text.byte '[') (h₂ : b ≠ Text.byte '\x7b') (d : Nat)
    (t : Text) : parseValue d (b :: t) = parseValue.scalar (b :: t) := by
  cases d with
  | zero => rw [parseValue]
  | succ d => rw [parseValue]; simp only [h₁, h₂, if_false]

theorem scalar_number {p : NumberParts} (hp : p.Valid) (hr : Stops r) (d : Nat) :
    parseValue d (p.spelling ++ r) = some (.number p.spelling, r) := by
  obtain ⟨b, ds, hw⟩ := hp.whole.exists_cons
  have hd : Text.isDigit b = true := hp.whole.digits b (by rw [hw]; exact List.mem_cons_self)
  have hcons : ∃ c u, p.spelling ++ r = c :: u ∧ (c = Text.byte '-' ∨ Text.isDigit c = true) := by
    rw [spelling_eq, hw]
    cases p.negative with
    | true => exact ⟨_, _, rfl, .inl rfl⟩
    | false => exact ⟨_, _, rfl, .inr hd⟩
  obtain ⟨c, u, htext, hc⟩ := hcons
  have hne : ∀ a, a ≠ Text.byte '-' → Text.isDigit a = false → c ≠ a := by
    rintro a h₁ h₂ rfl
    rcases hc with hc | hc
    · exact h₁ hc
    · rw [hc] at h₂
      simp at h₂
  have hnum : number? (c :: u) = some (p.spelling, r) := by
    rw [← htext, number?, numberParts?_spelling hp hr]
    rfl
  rw [htext, parseValue_scalar (hne _ (by decide) (by decide)) (hne _ (by decide) (by decide)),
    parseValue.scalar, if_neg (hne _ (by decide) (by decide)),
    if_neg (hne _ (by decide) (by decide)), if_neg (hne _ (by decide) (by decide)),
    if_neg (hne _ (by decide) (by decide)), hnum]
  rfl

theorem scalar_string {body : Text} (h : IsBody body) (r : Text) (d : Nat) :
    parseValue d (source (.string body) ++ r) = some (.string body, r) := by
  have htext : source (.string body) ++ r = Text.byte '"' :: (body ++ Text.byte '"' :: r) := by
    rw [source]
    simp only [List.append_assoc]
    rfl
  rw [htext, parseValue_scalar (by decide) (by decide), parseValue.scalar, if_pos rfl,
    h.body?_append]
  rfl

theorem scalar_null (r : Text) (d : Nat) : parseValue d (source .null ++ r) = some (.null, r) := by
  have htext : source .null ++ r = Text.byte 'n' :: (Text.ofString "ull" ++ r) := rfl
  rw [htext, parseValue_scalar (by decide) (by decide), parseValue.scalar, if_neg (by decide),
    if_neg (by decide), if_neg (by decide), if_pos rfl]
  exact congrArg (Option.map _) (after?_append "null" r)

theorem scalar_bool (b : Bool) (r : Text) (d : Nat) :
    parseValue d (source (.bool b) ++ r) = some (.bool b, r) := by
  cases b with
  | true =>
    have htext : source (.bool true) ++ r = Text.byte 't' :: (Text.ofString "rue" ++ r) := rfl
    rw [htext, parseValue_scalar (by decide) (by decide), parseValue.scalar, if_neg (by decide),
      if_pos rfl]
    exact congrArg (Option.map _) (after?_append "true" r)
  | false =>
    have htext : source (.bool false) ++ r = Text.byte 'f' :: (Text.ofString "alse" ++ r) := rfl
    rw [htext, parseValue_scalar (by decide) (by decide), parseValue.scalar, if_neg (by decide),
      if_neg (by decide), if_pos rfl]
    exact congrArg (Option.map _) (after?_append "false" r)

section

variable {value : Text → Option (Json × Text)} {before key middle₁ middle₂ after u : Text} {j : Json}
  {fuel : Nat}

theorem parseItems_last (hb : Blank before) (hj : Spelled j) (ha : Blank after)
    (hv : ∀ u, Stops u → value (source j ++ u) = some (j, u)) :
    parseItems value (fuel + 1) (before ++ (source j ++ (after ++ Text.byte ']' :: r))) =
      some (.cons before j after .nil, r) := by
  have hstop : Stops (after ++ Text.byte ']' :: r) := stops_append ha (by decide) r
  have hafter : blankRun (after ++ Text.byte ']' :: r) = (after, Text.byte ']' :: r) :=
    blankRun_cons ha (by decide) r
  rw [parseItems]
  simp only [blankRun_append hb (hj.noBlank _), hv _ hstop, Option.bind_eq_bind, Option.bind_some,
    hafter, expect?_ne (show Text.byte ']' ≠ Text.byte ',' by decide), expect?_cons]

/-- Reading an element that another one follows. -/
theorem parseItems_cons {rest : JsonItems} (hb : Blank before) (hj : Spelled j) (ha : Blank after)
    (hv : ∀ u, Stops u → value (source j ++ u) = some (j, u))
    (hrest : parseItems value fuel u = some (rest, r)) :
    parseItems value (fuel + 1) (before ++ (source j ++ (after ++ Text.byte ',' :: u))) =
      some (.cons before j after rest, r) := by
  have hstop : Stops (after ++ Text.byte ',' :: u) := stops_append ha (by decide) u
  have hafter : blankRun (after ++ Text.byte ',' :: u) = (after, Text.byte ',' :: u) :=
    blankRun_cons ha (by decide) u
  rw [parseItems]
  simp only [blankRun_append hb (hj.noBlank _), hv _ hstop, Option.bind_eq_bind, Option.bind_some,
    hafter, expect?_cons, hrest]

/-- The text of a member up to its value. -/
def memberFront (before key middle₁ middle₂ t : Text) : Text :=
  before ++ Text.byte '"' :: (key ++ Text.byte '"' :: (middle₁ ++ Text.byte ':' :: (middle₂ ++ t)))

/-- Reading the last member of an object. -/
theorem parseMembers_last (hb : Blank before) (hk : IsBody key) (h₁ : Blank middle₁)
    (h₂ : Blank middle₂) (hj : Spelled j) (ha : Blank after)
    (hv : ∀ u, Stops u → value (source j ++ u) = some (j, u)) :
    parseMembers value (fuel + 1) (memberFront before key middle₁ middle₂
        (source j ++ (after ++ Text.byte '\x7d' :: r))) =
      some (.cons before key middle₁ middle₂ j after .nil, r) := by
  have hstop : Stops (after ++ Text.byte '\x7d' :: r) := stops_append ha (by decide) r
  have hafter : blankRun (after ++ Text.byte '\x7d' :: r) = (after, Text.byte '\x7d' :: r) :=
    blankRun_cons ha (by decide) r
  have hquote : isBlank (Text.byte '"') = false := by decide
  have hcolon : isBlank (Text.byte ':') = false := by decide
  rw [parseMembers, memberFront]
  simp only [blankRun_cons hb hquote, expect?_cons, Option.bind_eq_bind, Option.bind_some,
    hk.body?_append, blankRun_cons h₁ hcolon, blankRun_append h₂ (hj.noBlank _), hv _ hstop, hafter,
    expect?_ne (show Text.byte '\x7d' ≠ Text.byte ',' by decide)]

/-- Reading a member that another one follows. -/
theorem parseMembers_cons {rest : JsonMembers} (hb : Blank before) (hk : IsBody key)
    (h₁ : Blank middle₁) (h₂ : Blank middle₂) (hj : Spelled j) (ha : Blank after)
    (hv : ∀ u, Stops u → value (source j ++ u) = some (j, u))
    (hrest : parseMembers value fuel u = some (rest, r)) :
    parseMembers value (fuel + 1) (memberFront before key middle₁ middle₂
        (source j ++ (after ++ Text.byte ',' :: u))) =
      some (.cons before key middle₁ middle₂ j after rest, r) := by
  have hstop : Stops (after ++ Text.byte ',' :: u) := stops_append ha (by decide) u
  have hafter : blankRun (after ++ Text.byte ',' :: u) = (after, Text.byte ',' :: u) :=
    blankRun_cons ha (by decide) u
  have hquote : isBlank (Text.byte '"') = false := by decide
  have hcolon : isBlank (Text.byte ':') = false := by decide
  rw [parseMembers, memberFront]
  simp only [blankRun_cons hb hquote, expect?_cons, Option.bind_eq_bind, Option.bind_some,
    hk.body?_append, blankRun_cons h₁ hcolon, blankRun_append h₂ (hj.noBlank _), hv _ hstop, hafter,
    hrest]

end

theorem itemsSource_cons (before : Text) (j : Json) (after : Text) (rest : JsonItems) (u : Text) :
    itemsSource (.cons before j after rest) ++ u =
      before ++ (source j ++ (after ++
        (if rest.isNil then u else Text.byte ',' :: (itemsSource rest ++ u)))) := by
  rw [itemsSource]
  cases rest with
  | nil => simp [JsonItems.isNil, itemsSource, Text.ofString]
  | cons => simp only [JsonItems.isNil, Bool.false_eq_true, if_false, List.append_assoc]; rfl

theorem membersSource_cons (before key middle₁ middle₂ : Text) (j : Json) (after : Text)
    (rest : JsonMembers) (u : Text) :
    membersSource (.cons before key middle₁ middle₂ j after rest) ++ u =
      memberFront before key middle₁ middle₂ (source j ++ (after ++
        (if rest.isNil then u else Text.byte ',' :: (membersSource rest ++ u)))) := by
  rw [membersSource, memberFront]
  cases rest with
  | nil =>
    simp only [JsonMembers.isNil, membersSource, if_true, List.append_assoc]
    rfl
  | cons =>
    simp only [JsonMembers.isNil, Bool.false_eq_true, if_false, List.append_assoc]
    rfl

theorem array_source (blank : Text) (items : JsonItems) (u : Text) :
    source (.array blank items) ++ u =
      Text.byte '[' :: (blank ++ (itemsSource items ++ Text.byte ']' :: u)) := by
  rw [source]
  simp only [List.append_assoc]
  rfl

theorem object_source (blank : Text) (members : JsonMembers) (u : Text) :
    source (.object blank members) ++ u =
      Text.byte '\x7b' :: (blank ++ (membersSource members ++ Text.byte '\x7d' :: u)) := by
  rw [source]
  simp only [List.append_assoc]
  rfl

theorem expect?_itemsSource {items : JsonItems} (hi : ItemsSpelled items) (hne : items.isNil = false)
    (u : Text) : expect? ']' (blankRun (itemsSource items ++ u)).2 = none := by
  cases items with
  | nil => simp [JsonItems.isNil] at hne
  | cons before j after rest =>
    obtain ⟨hb, hj, -⟩ := hi
    obtain ⟨b, t, ht, -, hbr, -⟩ := hj.exists_cons
    rw [itemsSource_cons, blankRun_append hb (hj.noBlank _), ht]
    exact expect?_ne hbr _

theorem expect?_membersSource {members : JsonMembers} (hm : MembersSpelled members)
    (hne : members.isNil = false) (u : Text) :
    expect? '\x7d' (blankRun (membersSource members ++ u)).2 = none := by
  cases members with
  | nil => simp [JsonMembers.isNil] at hne
  | cons before key middle₁ middle₂ j after rest =>
    rw [membersSource_cons, memberFront, blankRun_cons hm.1 (by decide)]
    exact expect?_ne (by decide) _

mutual

/-- A spelled tree that is not too deep is read back from its text. -/
theorem parseValue_source : ∀ (j : Json) {d : Nat} {r : Text}, Spelled j → depth j ≤ d → Stops r →
    parseValue d (source j ++ r) = some (j, r)
  | .null, _, _, _, _, _ => scalar_null _ _
  | .bool _, _, _, _, _, _ => scalar_bool _ _ _
  | .number _, _, _, ⟨_, hp, rfl⟩, _, hr => scalar_number hp hr _
  | .string _, _, _, h, _, _ => scalar_string h _ _
  | .array blank items, d, r, h, hd, _ => by
    obtain ⟨hb, hblank, hi⟩ := h
    obtain ⟨d, rfl⟩ : ∃ d', d = d' + 1 := ⟨d - 1, by rw [depth] at hd; omega⟩
    have hdepth : itemsDepth items ≤ d := by rw [depth] at hd; omega
    rw [array_source, parseValue, if_pos rfl]
    cases hnil : items.isNil with
    | true =>
      cases items with
      | cons => simp [JsonItems.isNil] at hnil
      | nil =>
        simp only [itemsSource, List.nil_append,
          blankRun_cons hb (show isBlank (Text.byte ']') = false by decide), expect?_cons]
    | false =>
      obtain rfl := hblank hnil
      have hread : parseItems (parseValue d) (itemsSource items ++ Text.byte ']' :: r).length
          (itemsSource items ++ Text.byte ']' :: r) = some (items, r) :=
        parseItems_source items hi hnil hdepth (by simp)
      simp only [List.nil_append, expect?_itemsSource hi hnil, hread, Option.map_some]
  | .object blank members, d, r, h, hd, _ => by
    obtain ⟨hb, hblank, hm⟩ := h
    obtain ⟨d, rfl⟩ : ∃ d', d = d' + 1 := ⟨d - 1, by rw [depth] at hd; omega⟩
    have hdepth : membersDepth members ≤ d := by rw [depth] at hd; omega
    rw [object_source, parseValue, if_neg (by decide), if_pos rfl]
    cases hnil : members.isNil with
    | true =>
      cases members with
      | cons => simp [JsonMembers.isNil] at hnil
      | nil =>
        simp only [membersSource, List.nil_append,
          blankRun_cons hb (show isBlank (Text.byte '\x7d') = false by decide), expect?_cons]
    | false =>
      obtain rfl := hblank hnil
      have hread : parseMembers (parseValue d) (membersSource members ++ Text.byte '\x7d' :: r).length
          (membersSource members ++ Text.byte '\x7d' :: r) = some (members, r) :=
        parseMembers_source members hm hnil hdepth (by simp)
      simp only [List.nil_append, expect?_membersSource hm hnil, hread, Option.map_some]

theorem parseItems_source : ∀ (items : JsonItems) {d fuel : Nat} {r : Text}, ItemsSpelled items →
    items.isNil = false → itemsDepth items ≤ d → (itemsSource items).length ≤ fuel →
    parseItems (parseValue d) fuel (itemsSource items ++ Text.byte ']' :: r) = some (items, r)
  | .nil, _, _, _, _, h, _, _ => by simp [JsonItems.isNil] at h
  | .cons before j after rest, d, fuel, r, ⟨hb, hj, ha, hr⟩, _, hd, hf => by
    rw [itemsDepth] at hd
    have hv : ∀ u, Stops u → parseValue d (source j ++ u) = some (j, u) :=
      fun u hu => parseValue_source j hj (by omega) hu
    obtain ⟨b, t, ht, -⟩ := hj.exists_cons
    have hlen := congrArg List.length (itemsSource_cons before j after rest [])
    rw [List.append_nil] at hlen
    obtain ⟨fuel, rfl⟩ : ∃ n, fuel = n + 1 := ⟨fuel - 1, by simp [ht] at hlen; omega⟩
    rw [itemsSource_cons]
    cases hnil : rest.isNil with
    | true =>
      cases rest with
      | cons => simp [JsonItems.isNil] at hnil
      | nil => exact parseItems_last hb hj ha hv
    | false =>
      rw [hnil] at hlen
      have hrest : parseItems (parseValue d) fuel (itemsSource rest ++ Text.byte ']' :: r) =
          some (rest, r) :=
        parseItems_source rest hr hnil (by omega) (by simp [ht] at hlen; omega)
      exact parseItems_cons hb hj ha hv hrest

/-- Spelled members are read back. -/
theorem parseMembers_source : ∀ (members : JsonMembers) {d fuel : Nat} {r : Text},
    MembersSpelled members → members.isNil = false → membersDepth members ≤ d →
    (membersSource members).length ≤ fuel →
    parseMembers (parseValue d) fuel (membersSource members ++ Text.byte '\x7d' :: r) =
      some (members, r)
  | .nil, _, _, _, _, h, _, _ => by simp [JsonMembers.isNil] at h
  | .cons before key middle₁ middle₂ j after rest, d, fuel, r, ⟨hb, hk, h₁, h₂, hj, ha, hr⟩, _, hd,
      hf => by
    rw [membersDepth] at hd
    have hv : ∀ u, Stops u → parseValue d (source j ++ u) = some (j, u) :=
      fun u hu => parseValue_source j hj (by omega) hu
    have hlen := congrArg List.length
      (membersSource_cons before key middle₁ middle₂ j after rest [])
    rw [List.append_nil, memberFront] at hlen
    obtain ⟨fuel, rfl⟩ : ∃ n, fuel = n + 1 := ⟨fuel - 1, by simp at hlen; omega⟩
    rw [membersSource_cons]
    cases hnil : rest.isNil with
    | true =>
      cases rest with
      | cons => simp [JsonMembers.isNil] at hnil
      | nil => exact parseMembers_last hb hk h₁ h₂ hj ha hv
    | false =>
      rw [hnil] at hlen
      have hrest : parseMembers (parseValue d) fuel
          (membersSource rest ++ Text.byte '\x7d' :: r) = some (rest, r) :=
        parseMembers_source rest hr hnil (by omega) (by simp at hlen; omega)
      exact parseMembers_cons hb hk h₁ h₂ hj ha hv hrest

end

/-! ### What is read is spelled -/

/-- A reader of values that gives only spelled trees of at most a depth. -/
def Sound (d : Nat) (value : Text → Option (Json × Text)) : Prop :=
  ∀ {t r : Text} {j : Json}, value t = some (j, r) → Spelled j ∧ depth j ≤ d ∧ t = source j ++ r

variable {d : Nat} {value : Text → Option (Json × Text)}

theorem parseItems_eq_some (hv : Sound d value) {fuel : Nat} {items : JsonItems}
    (h : parseItems value fuel t = some (items, r)) :
    ItemsSpelled items ∧ items.isNil = false ∧ itemsDepth items ≤ d ∧
      t = itemsSource items ++ Text.byte ']' :: r := by
  induction fuel generalizing t items with
  | zero => simp [parseItems] at h
  | succ fuel ih =>
    rw [parseItems] at h
    simp only [Option.bind_eq_bind, Option.bind_eq_some_iff, Prod.exists] at h
    obtain ⟨j, u, hj, h⟩ := h
    obtain ⟨hjs, hjd, hju⟩ := hv hj
    have hbefore := append_blankRun t
    have hafter := append_blankRun u
    have hb := blank_fst_blankRun t
    have ha := blank_fst_blankRun u
    split at h
    · rename_i w hw
      simp only [Option.bind_eq_some_iff, Option.some.injEq, Prod.mk.injEq, Prod.exists] at h
      obtain ⟨rest, r', hrest, rfl, rfl⟩ := h
      obtain ⟨hr, hrn, hrd, rfl⟩ := ih hrest
      refine ⟨⟨hb, hjs, ha, hr⟩, rfl, by rw [itemsDepth]; omega, ?_⟩
      rw [itemsSource_cons, hrn, if_neg (by simp), ← expect?_eq_some hw, hafter, ← hju, hbefore]
    · simp only [Option.bind_eq_some_iff, Option.some.injEq, Prod.mk.injEq] at h
      obtain ⟨r', hw, rfl, rfl⟩ := h
      refine ⟨⟨hb, hjs, ha, trivial⟩, rfl, by rw [itemsDepth, itemsDepth]; omega, ?_⟩
      rw [itemsSource_cons, if_pos (show JsonItems.isNil .nil = true from rfl), ← expect?_eq_some hw,
        hafter, ← hju, hbefore]

theorem parseMembers_eq_some (hv : Sound d value) {fuel : Nat} {members : JsonMembers}
    (h : parseMembers value fuel t = some (members, r)) :
    MembersSpelled members ∧ members.isNil = false ∧ membersDepth members ≤ d ∧
      t = membersSource members ++ Text.byte '\x7d' :: r := by
  induction fuel generalizing t members with
  | zero => simp [parseMembers] at h
  | succ fuel ih =>
    rw [parseMembers] at h
    simp only [Option.bind_eq_bind, Option.bind_eq_some_iff, Prod.exists] at h
    obtain ⟨t₁, ht₁, key, t₂, hkey, t₃, ht₃, j, u, hj, h⟩ := h
    obtain ⟨hk, hkt⟩ := body?_eq_some hkey
    obtain ⟨hjs, hjd, hju⟩ := hv hj
    have hbefore := append_blankRun t
    have hmiddle₁ := append_blankRun t₂
    have hmiddle₂ := append_blankRun t₃
    have hafter := append_blankRun u
    -- the text up to the value, whatever follows it
    have hfront : ∀ w, u = w →
        t = memberFront (blankRun t).1 key (blankRun t₂).1 (blankRun t₃).1 (source j ++ w) := by
      rintro w rfl
      rw [memberFront, ← hju, hmiddle₂, ← expect?_eq_some ht₃, hmiddle₁, ← hkt,
        ← expect?_eq_some ht₁, hbefore]
    have hb := blank_fst_blankRun t
    have h₁ := blank_fst_blankRun t₂
    have h₂ := blank_fst_blankRun t₃
    have ha := blank_fst_blankRun u
    split at h
    · rename_i w hw
      simp only [Option.bind_eq_some_iff, Option.some.injEq, Prod.mk.injEq, Prod.exists] at h
      -- a comma, and further members
      obtain ⟨rest, r', hrest, rfl, rfl⟩ := h
      obtain ⟨hr, hrn, hrd, rfl⟩ := ih hrest
      refine ⟨⟨hb, hk, h₁, h₂, hjs, ha, hr⟩, rfl, by rw [membersDepth]; omega, ?_⟩
      rw [membersSource_cons, hrn, if_neg (by simp), ← expect?_eq_some hw]
      exact hfront _ hafter.symm
    · simp only [Option.bind_eq_some_iff, Option.some.injEq, Prod.mk.injEq] at h
      obtain ⟨r', hw, rfl, rfl⟩ := h
      refine ⟨⟨hb, hk, h₁, h₂, hjs, ha, trivial⟩, rfl, by rw [membersDepth, membersDepth]; omega, ?_⟩
      rw [membersSource_cons, if_pos (show JsonMembers.isNil .nil = true from rfl),
        ← expect?_eq_some hw]
      exact hfront _ hafter.symm

theorem sound_scalar (d : Nat) : Sound d parseValue.scalar := by
  intro t r j h
  cases t with
  | nil => simp [parseValue.scalar] at h
  | cons b t =>
    rw [parseValue.scalar] at h
    split at h
    · rename_i hb
      simp only [Option.map_eq_some_iff, Prod.mk.injEq, Prod.exists] at h
      obtain ⟨body, u, hread, rfl, rfl⟩ := h
      obtain ⟨hbody, rfl⟩ := body?_eq_some hread
      refine ⟨hbody, Nat.zero_le _, ?_⟩
      rw [source, hb]
      simp only [List.append_assoc]
      rfl
    split at h
    · simp only [Option.map_eq_some_iff, Prod.mk.injEq] at h
      obtain ⟨u, hu, rfl, rfl⟩ := h
      exact ⟨trivial, Nat.zero_le _, after?_eq_some hu⟩
    split at h
    · simp only [Option.map_eq_some_iff, Prod.mk.injEq] at h
      obtain ⟨u, hu, rfl, rfl⟩ := h
      exact ⟨trivial, Nat.zero_le _, after?_eq_some hu⟩
    split at h
    · simp only [Option.map_eq_some_iff, Prod.mk.injEq] at h
      obtain ⟨u, hu, rfl, rfl⟩ := h
      exact ⟨trivial, Nat.zero_le _, after?_eq_some hu⟩
    · simp only [Option.map_eq_some_iff, Prod.mk.injEq, Prod.exists, number?] at h
      obtain ⟨literal, u, ⟨p, w, hp, rfl, rfl⟩, rfl, rfl⟩ := h
      obtain ⟨hvalid, htext⟩ := numberParts?_eq_some hp
      exact ⟨⟨p, hvalid, rfl⟩, Nat.zero_le _, htext⟩

/-- What is read is spelled, not too deep, and has the text it was read from. -/
theorem parseValue_eq_some (d : Nat) : Sound d (parseValue d) := by
  induction d with
  | zero =>
    intro t r j h
    rw [parseValue] at h
    exact sound_scalar 0 h
  | succ d ih =>
    intro t r j h
    cases t with
    | nil => simp [parseValue] at h
    | cons b t =>
      rw [parseValue] at h
      have hblank := append_blankRun t
      have hb := blank_fst_blankRun t
      obtain ⟨blank, u, hrun⟩ : ∃ blank u, blankRun t = (blank, u) := ⟨_, _, rfl⟩
      rw [hrun] at h hblank hb
      simp only at h hblank hb
      -- an array, a table of members, or a scalar
      split at h
      · rename_i hopen
        split at h
        · rename_i w hu
          simp only [Option.some.injEq, Prod.mk.injEq] at h
          obtain ⟨rfl, rfl⟩ := h
          refine ⟨⟨hb, by simp [JsonItems.isNil], trivial⟩, by simp [depth, itemsDepth], ?_⟩
          rw [array_source, itemsSource, List.nil_append, ← expect?_eq_some hu, hblank, hopen]
        · simp only [Option.map_eq_some_iff, Prod.mk.injEq, Prod.exists] at h
          obtain ⟨items, w, hi, rfl, rfl⟩ := h
          obtain ⟨hs, -, hd, rfl⟩ := parseItems_eq_some ih hi
          refine ⟨⟨by simp [Blank], fun _ => rfl, hs⟩, by rw [depth]; omega, ?_⟩
          rw [array_source, List.nil_append, hopen]
      split at h
      · rename_i hopen
        split at h
        · rename_i w hu
          simp only [Option.some.injEq, Prod.mk.injEq] at h
          obtain ⟨rfl, rfl⟩ := h
          refine ⟨⟨hb, by simp [JsonMembers.isNil], trivial⟩, by simp [depth, membersDepth], ?_⟩
          rw [object_source, membersSource, List.nil_append, ← expect?_eq_some hu, hblank, hopen]
        · simp only [Option.map_eq_some_iff, Prod.mk.injEq, Prod.exists] at h
          obtain ⟨members, w, hm, rfl, rfl⟩ := h
          obtain ⟨hs, -, hd, rfl⟩ := parseMembers_eq_some ih hm
          refine ⟨⟨by simp [Blank], fun _ => rfl, hs⟩, by rw [depth]; omega, ?_⟩
          rw [object_source, List.nil_append, hopen]
      · exact sound_scalar (d + 1) h

/-! ### Whole texts -/

theorem blank_nil : Blank [] := by simp [Blank]

theorem stops_of_blank (h : Blank t) : Stops t := by
  cases t with
  | nil => exact stops_nil
  | cons b t =>
    have hb := h b List.mem_cons_self
    simp only [isBlank, Bool.or_eq_true, beq_iff_eq] at hb
    refine ⟨fun c hc => ?_, fun hc => ?_, fun c hc => ?_⟩
    · cases hc
      rcases hb with ((rfl | rfl) | rfl) | rfl <;> decide
    · cases hc
      exact absurd hb (by decide)
    · cases hc
      rcases hb with ((rfl | rfl) | rfl) | rfl <;> decide

theorem blankRun_of_blank (h : Blank t) : blankRun t = (t, []) := by
  have hrun := blankRun_append h (r := []) (by simp [NoBlank])
  rwa [List.append_nil] at hrun

/-- The text is that of a spelled tree, which is not too deep, with blank space around it. -/
structure TextOf (t : Text) (j : Json) : Prop where
  spelled : Spelled j
  shallow : depth j ≤ depthLimit
  text : ∃ before after, Blank before ∧ Blank after ∧ t = before ++ (source j ++ after)

/-- **Reading gives the tree of a text, and fails for a text that has none.** -/
theorem parse?_eq_some_iff {j : Json} : parse? t = some j ↔ TextOf t j := by
  constructor
  · intro h
    simp only [parse?, Option.bind_eq_bind, Option.bind_eq_some_iff, Prod.exists] at h
    obtain ⟨j', r, hj, h⟩ := h
    split at h
    · rename_i hempty
      obtain rfl : j' = j := Option.some.inj h
      obtain ⟨hs, hd, htext⟩ := parseValue_eq_some depthLimit hj
      have hrest := append_blankRun r
      rw [List.isEmpty_iff.1 hempty, List.append_nil] at hrest
      refine ⟨hs, hd, (blankRun t).1, r, blank_fst_blankRun t, hrest ▸ blank_fst_blankRun r, ?_⟩
      rw [← htext, append_blankRun]
    · simp at h
  · rintro ⟨hs, hd, before, after, hbefore, hafter, rfl⟩
    have hread : parseValue depthLimit (source j ++ after) = some (j, after) :=
      parseValue_source j hs hd (stops_of_blank hafter)
    rw [parse?, blankRun_append hbefore (hs.noBlank after)]
    simp only [hread, Option.bind_eq_bind, Option.bind_some, blankRun_of_blank hafter]
    rfl

theorem parse?_source_append {j : Json} (h : Spelled j) (hd : depth j ≤ depthLimit) (ht : Blank t) :
    parse? (source j ++ t) = some j :=
  parse?_eq_some_iff.2 ⟨h, hd, [], t, blank_nil, ht, rfl⟩

theorem parse?_source {j : Json} (h : Spelled j) (hd : depth j ≤ depthLimit) :
    parse? (source j) = some j := by
  have hread := parse?_source_append h hd blank_nil
  rwa [List.append_nil] at hread

theorem parse?_eq_some {j : Json} (h : parse? t = some j) : Spelled j ∧ depth j ≤ depthLimit :=
  have ht := parse?_eq_some_iff.1 h
  ⟨ht.spelled, ht.shallow⟩

end Json

end MetricHistory
