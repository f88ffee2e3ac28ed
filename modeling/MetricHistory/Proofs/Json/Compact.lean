import MetricHistory.Proofs.Json.Grammar
import MetricHistory.Proofs.Json.Strings

/-!
# What a JSON text stands for

`Json.value` forgets how a tree was spelled: the blank space, and the escapes in its strings and
keys.  Numbers keep their digits and objects the order of their members.

* `Json.compact_eq` : the compact text of a tree is that of the tree without its blank space
  (`Json.stripped`);
* `Json.eq_of_parse?_source` : the text of a tree is read as that tree or not at all;
* `Json.stripped_respells` and `Json.markupSafe_respells` : both ways of respelling keep the value.
-/

namespace MetricHistory

/-- A JSON value, however it is spelled. -/
inductive JsonValue where
  | null
  | bool (b : Bool)
  | number (literal : Text)
  | string (text : Text)
  | array (items : List JsonValue)
  | object (members : List (Text × JsonValue))

namespace Json

open Literal

mutual

/-- The value that a tree spells. -/
def value : Json → JsonValue
  | .null => .null
  | .bool b => .bool b
  | .number literal => .number literal
  | .string body => .string (unescape body)
  | .array _ items => .array (itemsValue items)
  | .object _ members => .object (membersValue members)

/-- The values of elements. -/
def itemsValue : JsonItems → List JsonValue
  | .nil => []
  | .cons _ value _ rest => Json.value value :: itemsValue rest

/-- The values of members with their keys. -/
def membersValue : JsonMembers → List (Text × JsonValue)
  | .nil => []
  | .cons _ key _ _ value _ rest => (unescape key, Json.value value) :: membersValue rest

end

mutual

/-- The tree without blank space. -/
def stripped : Json → Json
  | .array _ items => .array [] (itemsStripped items)
  | .object _ members => .object [] (membersStripped members)
  | j => j

/-- The elements without blank space. -/
def itemsStripped : JsonItems → JsonItems
  | .nil => .nil
  | .cons _ value _ rest => .cons [] (stripped value) [] (itemsStripped rest)

/-- The members without blank space. -/
def membersStripped : JsonMembers → JsonMembers
  | .nil => .nil
  | .cons _ key _ _ value _ rest => .cons [] key [] [] (stripped value) [] (membersStripped rest)

end

/-! ### Leaving out blank space -/

theorem isNil_itemsStripped (items : JsonItems) : (itemsStripped items).isNil = items.isNil := by
  cases items <;> rfl

theorem isNil_membersStripped (members : JsonMembers) :
    (membersStripped members).isNil = members.isNil := by
  cases members <;> rfl

mutual

/-- **The compact text is the text without blank space.** -/
theorem compact_eq : ∀ j : Json, compact j = source (stripped j)
  | .null => rfl
  | .bool _ => rfl
  | .number _ => rfl
  | .string _ => rfl
  | .array _ items => by
    rw [compact, stripped, source, itemsCompact_eq items, List.append_nil]
  | .object _ members => by
    rw [compact, stripped, source, membersCompact_eq members, List.append_nil]

theorem itemsCompact_eq : ∀ items : JsonItems,
    itemsCompact items = itemsSource (itemsStripped items)
  | .nil => rfl
  | .cons before value after rest => by
    rw [itemsCompact, itemsStripped, itemsSource, compact_eq value, itemsCompact_eq rest,
      isNil_itemsStripped]
    simp only [List.nil_append, List.append_nil]

theorem membersCompact_eq : ∀ members : JsonMembers,
    membersCompact members = membersSource (membersStripped members)
  | .nil => rfl
  | .cons before key middle₁ middle₂ value after rest => by
    rw [membersCompact, membersStripped, membersSource, compact_eq value, membersCompact_eq rest,
      isNil_membersStripped]
    simp only [List.nil_append, List.append_nil, List.append_assoc]
    rfl

end

/-! ### Respelling -/

/-- The second tree is well spelled, and as deep as the first with the same value. -/
structure Respells (j k : Json) : Prop where
  spelled : Spelled k
  depth : depth k = Json.depth j
  value : value k = Json.value j

/-- The same for elements. -/
structure ItemsRespell (items items' : JsonItems) : Prop where
  spelled : ItemsSpelled items'
  depth : itemsDepth items' = itemsDepth items
  value : itemsValue items' = itemsValue items

/-- The same for members. -/
structure MembersRespell (members members' : JsonMembers) : Prop where
  spelled : MembersSpelled members'
  depth : membersDepth members' = membersDepth members
  value : membersValue members' = membersValue members

theorem Respells.trans {i j k : Json} (h : Respells i j) (h' : Respells j k) : Respells i k :=
  ⟨h'.spelled, h'.depth.trans h.depth, h'.value.trans h.value⟩

theorem ItemsRespell.array {blank blank' : Text} {items items' : JsonItems}
    (h : ItemsRespell items items') (hb : Blank blank') (hn : items'.isNil = false → blank' = []) :
    Respells (.array blank items) (.array blank' items') :=
  ⟨⟨hb, hn, h.spelled⟩, congrArg (· + 1) h.depth, congrArg JsonValue.array h.value⟩

theorem MembersRespell.object {blank blank' : Text} {members members' : JsonMembers}
    (h : MembersRespell members members') (hb : Blank blank')
    (hn : members'.isNil = false → blank' = []) :
    Respells (.object blank members) (.object blank' members') :=
  ⟨⟨hb, hn, h.spelled⟩, congrArg (· + 1) h.depth, congrArg JsonValue.object h.value⟩

theorem ItemsRespell.cons {before before' after after' : Text} {j k : Json}
    {rest rest' : JsonItems} (hj : Respells j k) (h : ItemsRespell rest rest') (hb : Blank before')
    (ha : Blank after') :
    ItemsRespell (.cons before j after rest) (.cons before' k after' rest') := by
  refine ⟨⟨hb, hj.spelled, ha, h.spelled⟩, ?_, ?_⟩
  · rw [itemsDepth, itemsDepth, hj.depth, h.depth]
  · rw [itemsValue, itemsValue, hj.value, h.value]

theorem MembersRespell.cons {before before' key key' m₁ m₁' m₂ m₂' after after' : Text} {j k : Json}
    {rest rest' : JsonMembers} (hj : Respells j k) (h : MembersRespell rest rest')
    (hkey : IsBody key') (hsame : unescape key' = unescape key) (hb : Blank before') (h₁ : Blank m₁')
    (h₂ : Blank m₂') (ha : Blank after') :
    MembersRespell (.cons before key m₁ m₂ j after rest)
      (.cons before' key' m₁' m₂' k after' rest') := by
  refine ⟨⟨hb, hkey, h₁, h₂, hj.spelled, ha, h.spelled⟩, ?_, ?_⟩
  · rw [membersDepth, membersDepth, hj.depth, h.depth]
  · rw [membersValue, membersValue, hj.value, h.value, hsame]

mutual

/-- **Leaving out blank space respells a tree.** -/
theorem stripped_respells : ∀ j : Json, Spelled j → Respells j (stripped j)
  | .null, h => ⟨h, rfl, rfl⟩
  | .bool _, h => ⟨h, rfl, rfl⟩
  | .number _, h => ⟨h, rfl, rfl⟩
  | .string _, h => ⟨h, rfl, rfl⟩
  | .array _ items, h => (itemsStripped_respell items h.2.2).array blank_nil fun _ => rfl
  | .object _ members, h => (membersStripped_respell members h.2.2).object blank_nil fun _ => rfl

theorem itemsStripped_respell : ∀ items : JsonItems,
    ItemsSpelled items → ItemsRespell items (itemsStripped items)
  | .nil, h => ⟨h, rfl, rfl⟩
  | .cons _ value _ rest, h =>
    .cons (stripped_respells value h.2.1) (itemsStripped_respell rest h.2.2.2) blank_nil blank_nil

theorem membersStripped_respell : ∀ members : JsonMembers,
    MembersSpelled members → MembersRespell members (membersStripped members)
  | .nil, h => ⟨h, rfl, rfl⟩
  | .cons _ _ _ _ value _ rest, h =>
    .cons (stripped_respells value h.2.2.2.2.1) (membersStripped_respell rest h.2.2.2.2.2.2) h.2.1
      rfl blank_nil blank_nil blank_nil blank_nil

end

theorem isNil_itemsMarkupSafe (items : JsonItems) : (itemsMarkupSafe items).isNil = items.isNil := by
  cases items <;> rfl

theorem isNil_membersMarkupSafe (members : JsonMembers) :
    (membersMarkupSafe members).isNil = members.isNil := by
  cases members <;> rfl

mutual

/-- **Making a tree safe for markup respells it.** -/
theorem markupSafe_respells : ∀ j : Json, Spelled j → Respells j (markupSafe j)
  | .null, h => ⟨h, rfl, rfl⟩
  | .bool _, h => ⟨h, rfl, rfl⟩
  | .number _, h => ⟨h, rfl, rfl⟩
  | .string _, h =>
    ⟨isBody_markupSafeBody h, rfl, congrArg JsonValue.string (unescape_markupSafeBody h)⟩
  | .array _ items, h =>
    (itemsMarkupSafe_respell items h.2.2).array h.1 fun hn =>
      h.2.1 ((isNil_itemsMarkupSafe items).symm.trans hn)
  | .object _ members, h =>
    (membersMarkupSafe_respell members h.2.2).object h.1 fun hn =>
      h.2.1 ((isNil_membersMarkupSafe members).symm.trans hn)

theorem itemsMarkupSafe_respell : ∀ items : JsonItems,
    ItemsSpelled items → ItemsRespell items (itemsMarkupSafe items)
  | .nil, h => ⟨h, rfl, rfl⟩
  | .cons _ value _ rest, h =>
    .cons (markupSafe_respells value h.2.1) (itemsMarkupSafe_respell rest h.2.2.2) h.1 h.2.2.1

theorem membersMarkupSafe_respell : ∀ members : JsonMembers,
    MembersSpelled members → MembersRespell members (membersMarkupSafe members)
  | .nil, h => ⟨h, rfl, rfl⟩
  | .cons _ _ _ _ value _ rest, h =>
    .cons (markupSafe_respells value h.2.2.2.2.1) (membersMarkupSafe_respell rest h.2.2.2.2.2.2)
      (isBody_markupSafeBody h.2.1) (unescape_markupSafeBody h.2.1) h.1 h.2.2.1 h.2.2.2.1
      h.2.2.2.2.2.1

end

/-! ### Reading what was written -/

/-- **The text of a tree is read as that tree or, too deep, not at all.** -/
theorem eq_of_parse?_source {j k : Json} (h : Spelled j) (hp : parse? (source j) = some k) :
    k = j := by
  obtain ⟨hs, hd, before, after, hbefore, hafter, htext⟩ := parse?_eq_some_iff.1 hp
  have hrun := blankRun_append blank_nil (h.noBlank [])
  rw [List.nil_append, List.append_nil, htext, blankRun_append hbefore (hs.noBlank after),
    Prod.mk.injEq] at hrun
  obtain ⟨rfl, -⟩ := hrun
  -- a reader without the limit reads both trees from the same text
  have h₁ : parseValue (max (depth j) depthLimit) (source j ++ []) = some (j, []) :=
    parseValue_source j h (le_max_left _ _) stops_nil
  have h₂ : parseValue (max (depth j) depthLimit) (source k ++ after) = some (k, after) :=
    parseValue_source k hs (hd.trans (le_max_right _ _)) (stops_of_blank hafter)
  rw [List.append_nil, htext, List.nil_append, h₂] at h₁
  simp only [Option.some.injEq, Prod.mk.injEq] at h₁
  exact h₁.1

end Json

end MetricHistory
