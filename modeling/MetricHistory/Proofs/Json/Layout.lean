import MetricHistory.Proofs.Json.Compact

/-!
# Texts over several lines

`Json.indented` lays a tree out over several lines.  The text is that of the tree with other blank
space (`Json.laidOut`), which does not depend on the blank space that was there.

* `Json.indented_eq` : the text over several lines is the text of the tree laid out;
* `Json.laidOut_respells` : laying a tree out respells it;
* `Json.laidOut_of_stripped_eq` : **trees that differ in blank space only have the same layout**;
* `Json.parse?_indented` : the tree laid out is read back from its text.
-/

namespace MetricHistory

namespace Json

open Literal

mutual

/-- The tree with the blank space of a layout; `level` is the depth it stands at. -/
def laidOut (level : ℕ) : Json → Json
  | .array _ items => .array [] (itemsLaidOut level items)
  | .object _ members => .object [] (membersLaidOut level members)
  | j => j

/-- The elements of an array at a level, each on a line of its own, and the line feed behind the
last one. -/
def itemsLaidOut (level : ℕ) : JsonItems → JsonItems
  | .nil => .nil
  | .cons _ value _ rest => .cons (newline (level + 1)) (laidOut (level + 1) value)
      (if rest.isNil then newline level else []) (itemsLaidOut level rest)

/-- The members of an object at a level, each on a line of its own, and the line feed behind the
last one. -/
def membersLaidOut (level : ℕ) : JsonMembers → JsonMembers
  | .nil => .nil
  | .cons _ key _ _ value _ rest => .cons (newline (level + 1)) key [] " "
      (laidOut (level + 1) value) (if rest.isNil then newline level else [])
      (membersLaidOut level rest)

end

theorem isNil_itemsLaidOut (level : ℕ) (items : JsonItems) :
    (itemsLaidOut level items).isNil = items.isNil := by
  cases items <;> rfl

theorem isNil_membersLaidOut (level : ℕ) (members : JsonMembers) :
    (membersLaidOut level members).isNil = members.isNil := by
  cases members <;> rfl

mutual

/-- **The text over several lines is the text of the tree laid out.** -/
theorem indented_eq (level : ℕ) : ∀ j : Json, indented level j = source (laidOut level j)
  | .null => rfl
  | .bool _ => rfl
  | .number _ => rfl
  | .string _ => rfl
  | .array _ items => by
    rw [indented, laidOut, source, itemsIndented_eq level items]
    cases items with
    | nil => rfl
    | cons => simp [JsonItems.isNil]
  | .object _ members => by
    rw [indented, laidOut, source, membersIndented_eq level members]
    cases members with
    | nil => rfl
    | cons => simp [JsonMembers.isNil]

theorem itemsIndented_eq (level : ℕ) : ∀ items : JsonItems,
    itemsSource (itemsLaidOut level items) =
      itemsIndented (level + 1) items ++ (if items.isNil then [] else newline level)
  | .nil => rfl
  | .cons before value after rest => by
    have hempty : Text.ofString "" = [] := rfl
    rw [itemsIndented, itemsLaidOut, itemsSource, indented_eq (level + 1) value,
      itemsIndented_eq level rest, isNil_itemsLaidOut]
    cases rest <;> simp [JsonItems.isNil, itemsIndented, hempty]

theorem membersIndented_eq (level : ℕ) : ∀ members : JsonMembers,
    membersSource (membersLaidOut level members) =
      membersIndented (level + 1) members ++ (if members.isNil then [] else newline level)
  | .nil => rfl
  | .cons before key middle₁ middle₂ value after rest => by
    have hempty : Text.ofString "" = [] := rfl
    have hcolon : Text.ofString "\": " = Text.ofString "\"" ++ (Text.ofString ":" ++ " ") := by decide
    rw [membersIndented, membersLaidOut, membersSource, indented_eq (level + 1) value,
      membersIndented_eq level rest, isNil_membersLaidOut, hcolon]
    cases rest <;> simp [JsonMembers.isNil, membersIndented, hempty]

end

/-! ### Blank space only -/

theorem blank_newline (level : ℕ) : Blank (newline level) := by
  intro b hb
  rcases List.mem_cons.1 hb with rfl | hb
  · rfl
  · obtain ⟨t, ht, hb⟩ := List.mem_flatten.1 hb
    rw [List.eq_of_mem_replicate ht] at hb
    exact (show ∀ b ∈ Text.ofString "  ", isBlank b = true by decide +kernel) b hb

theorem blank_space : Blank " " :=
  show ∀ b ∈ Text.ofString " ", isBlank b = true by decide +kernel

mutual

/-- **Laying a tree out respells it.** -/
theorem laidOut_respells (level : ℕ) : ∀ j : Json, Spelled j → Respells j (laidOut level j)
  | .null, h => ⟨h, rfl, rfl⟩
  | .bool _, h => ⟨h, rfl, rfl⟩
  | .number _, h => ⟨h, rfl, rfl⟩
  | .string _, h => ⟨h, rfl, rfl⟩
  | .array _ items, h => (itemsLaidOut_respell level items h.2.2).array blank_nil fun _ => rfl
  | .object _ members, h => (membersLaidOut_respell level members h.2.2).object blank_nil fun _ => rfl

theorem itemsLaidOut_respell (level : ℕ) : ∀ items : JsonItems,
    ItemsSpelled items → ItemsRespell items (itemsLaidOut level items)
  | .nil, h => ⟨h, rfl, rfl⟩
  | .cons _ value _ rest, h => by
    refine .cons (laidOut_respells (level + 1) value h.2.1) (itemsLaidOut_respell level rest h.2.2.2)
      (blank_newline _) ?_
    split
    · exact blank_newline _
    · exact blank_nil

theorem membersLaidOut_respell (level : ℕ) : ∀ members : JsonMembers,
    MembersSpelled members → MembersRespell members (membersLaidOut level members)
  | .nil, h => ⟨h, rfl, rfl⟩
  | .cons _ _ _ _ value _ rest, h => by
    refine .cons (laidOut_respells (level + 1) value h.2.2.2.2.1)
      (membersLaidOut_respell level rest h.2.2.2.2.2.2) h.2.1 rfl (blank_newline _) blank_nil
      blank_space ?_
    split
    · exact blank_newline _
    · exact blank_nil

end

mutual

theorem stripped_laidOut (level : ℕ) : ∀ j : Json, stripped (laidOut level j) = stripped j
  | .null => rfl
  | .bool _ => rfl
  | .number _ => rfl
  | .string _ => rfl
  | .array _ items => by
    rw [laidOut, stripped, stripped, itemsStripped_laidOut level items]
  | .object _ members => by
    rw [laidOut, stripped, stripped, membersStripped_laidOut level members]

theorem itemsStripped_laidOut (level : ℕ) : ∀ items : JsonItems,
    itemsStripped (itemsLaidOut level items) = itemsStripped items
  | .nil => rfl
  | .cons _ value _ rest => by
    rw [itemsLaidOut, itemsStripped, itemsStripped, stripped_laidOut (level + 1) value,
      itemsStripped_laidOut level rest]

theorem membersStripped_laidOut (level : ℕ) : ∀ members : JsonMembers,
    membersStripped (membersLaidOut level members) = membersStripped members
  | .nil => rfl
  | .cons _ _ _ _ value _ rest => by
    rw [membersLaidOut, membersStripped, membersStripped, stripped_laidOut (level + 1) value,
      membersStripped_laidOut level rest]

end

mutual

theorem laidOut_stripped (level : ℕ) : ∀ j : Json, laidOut level (stripped j) = laidOut level j
  | .null => rfl
  | .bool _ => rfl
  | .number _ => rfl
  | .string _ => rfl
  | .array _ items => by
    rw [stripped, laidOut, laidOut, itemsLaidOut_stripped level items]
  | .object _ members => by
    rw [stripped, laidOut, laidOut, membersLaidOut_stripped level members]

theorem itemsLaidOut_stripped (level : ℕ) : ∀ items : JsonItems,
    itemsLaidOut level (itemsStripped items) = itemsLaidOut level items
  | .nil => rfl
  | .cons _ value _ rest => by
    rw [itemsStripped, itemsLaidOut, itemsLaidOut, laidOut_stripped (level + 1) value,
      itemsLaidOut_stripped level rest, isNil_itemsStripped]

theorem membersLaidOut_stripped (level : ℕ) : ∀ members : JsonMembers,
    membersLaidOut level (membersStripped members) = membersLaidOut level members
  | .nil => rfl
  | .cons _ _ _ _ value _ rest => by
    rw [membersStripped, membersLaidOut, membersLaidOut, laidOut_stripped (level + 1) value,
      membersLaidOut_stripped level rest, isNil_membersStripped]

end

/-- **Trees that differ in blank space only have the same layout.** -/
theorem laidOut_of_stripped_eq {j k : Json} (h : stripped j = stripped k) (level : ℕ) :
    laidOut level j = laidOut level k := by
  rw [← laidOut_stripped level j, h, laidOut_stripped]

/-! ### Reading what was laid out -/

/-- **The tree laid out is read back from its text.** -/
theorem parse?_indented {j : Json} (h : Spelled j) (hd : depth j ≤ depthLimit) (level : ℕ) {t : Text}
    (ht : Blank t) : parse? (indented level j ++ t) = some (laidOut level j) := by
  have hrespells := laidOut_respells level j h
  rw [indented_eq]
  exact parse?_source_append hrespells.spelled (hrespells.depth.trans_le hd) ht

end Json

end MetricHistory
