import MetricHistory.Proofs.Json.Compact

/-!
# What is not safe for markup

Making a tree safe for markup spells some characters as escapes.  The text gets longer, unless none
of these characters stands in a string or a key.

* `Json.bodies` : the strings and keys of a tree, as they are spelled;
* `Json.Unmarked` : none of them shows a character that markup gives a meaning;
* `Json.length_compact_markupSafe` : how much longer the text gets;
* `Json.compact_markupSafe_twice_iff` : **exactly the trees without such characters keep their text.**
-/

namespace MetricHistory

namespace Json

open Literal

/-! ### Strings and keys -/

mutual

/-- The strings and keys of a tree, as they are spelled. -/
def bodies : Json → List Text
  | .string body => [body]
  | .array _ items => itemsBodies items
  | .object _ members => membersBodies members
  | _ => []

/-- The strings and keys of elements. -/
def itemsBodies : JsonItems → List Text
  | .nil => []
  | .cons _ value _ rest => bodies value ++ itemsBodies rest

/-- The strings and keys of members. -/
def membersBodies : JsonMembers → List Text
  | .nil => []
  | .cons _ key _ _ value _ rest => key :: (bodies value ++ membersBodies rest)

end

/-- No character of the literal is one that markup gives a meaning. -/
def UnmarkedBody (body : Text) : Prop := ∀ c ∈ markup, Utf8.Piece.char c ∉ Utf8.pieces body

/-- No string and no key shows a character that markup gives a meaning. -/
def Unmarked (j : Json) : Prop := ∀ body ∈ bodies j, UnmarkedBody body

/-! ### One literal -/

theorem unmarkedBody_ofChars_iff (cs : List Char) :
    UnmarkedBody (Utf8.ofChars cs) ↔ ∀ c ∈ markup, c ∉ cs := by
  simp [UnmarkedBody, Utf8.pieces_ofChars]

theorem unmarkedBody_nil : UnmarkedBody [] := by simp [UnmarkedBody]

theorem unmarkedBody_encode_iff (c : Char) (r : Text) :
    UnmarkedBody (Utf8.encode c ++ r) ↔ c ∉ markup ∧ UnmarkedBody r := by
  simp only [UnmarkedBody, Utf8.pieces_encode_append, List.mem_cons, Utf8.Piece.char.injEq, not_or]
  constructor
  · intro h
    exact ⟨fun hc => (h c hc).1 rfl, fun d hd => (h d hd).2⟩
  · rintro ⟨hc, hr⟩ d hd
    exact ⟨fun heq => hc (heq ▸ hd), hr d hd⟩

theorem unmarkedBody_stray_iff {b : UInt8} {r : Text} (h : Utf8.front? (b :: r) = none) :
    UnmarkedBody (b :: r) ↔ UnmarkedBody r := by
  simp [UnmarkedBody, Utf8.pieces_of_stray h]

theorem markupSafeBody_of_unmarked {body : Text} (h : UnmarkedBody body) :
    markupSafeBody body = body := by
  induction body using Utf8.pieces_induction with
  | nil => exact markupSafeBody_nil
  | char c r ih =>
    obtain ⟨hc, hr⟩ := (unmarkedBody_encode_iff c r).1 h
    rw [markupSafeBody_encode, if_neg hc, ih hr]
  | stray b r hf ih => rw [markupSafeBody_stray hf, ih ((unmarkedBody_stray_iff hf).1 h)]

theorem length_markupSafeBody (body : Text) :
    body.length < (markupSafeBody body).length ∨ UnmarkedBody body := by
  -- an escape takes six bytes, the character it stands for at most three
  have hlonger : ∀ c ∈ markup, (Utf8.encode c).length < (escapeChar true c).length := by
    simp only [markup, List.forall_mem_cons, List.not_mem_nil, false_imp_iff, implies_true, and_true]
    refine ⟨?_, ?_, ?_, ?_, ?_⟩ <;> cbv
  have hle : ∀ {t : Text}, t.length < (markupSafeBody t).length ∨ UnmarkedBody t →
      t.length ≤ (markupSafeBody t).length := by
    rintro t (hlt | hun)
    · exact hlt.le
    · rw [markupSafeBody_of_unmarked hun]
  induction body using Utf8.pieces_induction with
  | nil => exact .inr unmarkedBody_nil
  | char c r ih =>
    rw [unmarkedBody_encode_iff, markupSafeBody_encode, List.length_append, List.length_append]
    by_cases hc : c ∈ markup
    · have hr := hle ih
      have hchar := hlonger c hc
      rw [if_pos hc]
      exact .inl (by omega)
    · rw [if_neg hc]
      exact ih.imp (Nat.add_lt_add_left · _) fun hr => ⟨hc, hr⟩
  | stray b r hf ih =>
    rw [unmarkedBody_stray_iff hf, markupSafeBody_stray hf, List.length_cons, List.length_cons]
    exact ih.imp_left Nat.succ_lt_succ

/-- How much longer a literal gets. -/
def growth (body : Text) : ℕ := (markupSafeBody body).length - body.length

theorem length_eq_add_growth (body : Text) :
    (markupSafeBody body).length = body.length + growth body := by
  have hlength := length_markupSafeBody body
  rw [growth]
  rcases hlength with hlt | hun
  · omega
  · rw [markupSafeBody_of_unmarked hun]
    omega

theorem unmarkedBody_of_growth {body : Text} (h : growth body = 0) : UnmarkedBody body := by
  have hlength := length_eq_add_growth body
  exact (length_markupSafeBody body).resolve_left (by omega)

/-! ### The whole tree -/

mutual

theorem markupSafe_of_unmarked : ∀ j : Json, Unmarked j → markupSafe j = j
  | .null, _ => rfl
  | .bool _, _ => rfl
  | .number _, _ => rfl
  | .string body, h => congrArg Json.string (markupSafeBody_of_unmarked (h body (by simp [bodies])))
  | .array blank items, h => congrArg (Json.array blank) (itemsMarkupSafe_of_unmarked items h)
  | .object blank members, h => congrArg (Json.object blank) (membersMarkupSafe_of_unmarked members h)

theorem itemsMarkupSafe_of_unmarked : ∀ items : JsonItems,
    (∀ body ∈ itemsBodies items, UnmarkedBody body) → itemsMarkupSafe items = items
  | .nil, _ => rfl
  | .cons before value after rest, h => by
    obtain ⟨hvalue, hrest⟩ := List.forall_mem_append.1 h
    rw [itemsMarkupSafe, markupSafe_of_unmarked value hvalue, itemsMarkupSafe_of_unmarked rest hrest]

theorem membersMarkupSafe_of_unmarked : ∀ members : JsonMembers,
    (∀ body ∈ membersBodies members, UnmarkedBody body) → membersMarkupSafe members = members
  | .nil, _ => rfl
  | .cons before key middle₁ middle₂ value after rest, h => by
    obtain ⟨hkey, h⟩ := List.forall_mem_cons.1 h
    obtain ⟨hvalue, hrest⟩ := List.forall_mem_append.1 h
    rw [membersMarkupSafe, markupSafeBody_of_unmarked hkey, markupSafe_of_unmarked value hvalue,
      membersMarkupSafe_of_unmarked rest hrest]

end

mutual

/-- **A text gets longer by as much as its strings and keys.** -/
theorem length_compact_markupSafe : ∀ j : Json,
    (compact (markupSafe j)).length = (compact j).length + ((bodies j).map growth).sum
  | .null => rfl
  | .bool _ => rfl
  | .number _ => rfl
  | .string body => by
    simp only [markupSafe, compact, bodies, List.length_append, length_eq_add_growth, List.map_cons,
      List.map_nil, List.sum_cons, List.sum_nil]
    omega
  | .array _ items => by
    simp only [markupSafe, compact, bodies, List.length_append, length_itemsCompact items]
    omega
  | .object _ members => by
    simp only [markupSafe, compact, bodies, List.length_append, length_membersCompact members]
    omega

theorem length_itemsCompact : ∀ items : JsonItems,
    (itemsCompact (itemsMarkupSafe items)).length =
      (itemsCompact items).length + ((itemsBodies items).map growth).sum
  | .nil => rfl
  | .cons _ value _ rest => by
    simp only [itemsMarkupSafe, itemsCompact, itemsBodies, List.length_append, List.map_append,
      List.sum_append, isNil_itemsMarkupSafe, length_compact_markupSafe value, length_itemsCompact rest]
    omega

theorem length_membersCompact : ∀ members : JsonMembers,
    (membersCompact (membersMarkupSafe members)).length =
      (membersCompact members).length + ((membersBodies members).map growth).sum
  | .nil => rfl
  | .cons _ key _ _ value _ rest => by
    simp only [membersMarkupSafe, membersCompact, membersBodies, List.length_append, List.map_cons,
      List.map_append, List.sum_cons, List.sum_append, isNil_membersMarkupSafe,
      length_eq_add_growth key, length_compact_markupSafe value, length_membersCompact rest]
    omega

end

/-- **A tree keeps its text when it is made safe for markup twice, exactly if it is unmarked.** -/
theorem compact_markupSafe_twice_iff (j : Json) :
    compact (markupSafe (markupSafe j)) = compact j ↔ Unmarked j := by
  constructor
  · intro h
    have hlength := congrArg List.length h
    rw [length_compact_markupSafe, length_compact_markupSafe] at hlength
    have hsum : ((bodies j).map growth).sum = 0 := by omega
    intro body hbody
    refine unmarkedBody_of_growth (Nat.eq_zero_of_le_zero ?_)
    rw [← hsum]
    exact List.le_sum_of_mem (List.mem_map_of_mem hbody)
  · intro h
    rw [markupSafe_of_unmarked j h, markupSafe_of_unmarked j h]

/-! ### Blank space and escapes -/

mutual

theorem stripped_stripped : ∀ j : Json, stripped (stripped j) = stripped j
  | .null => rfl
  | .bool _ => rfl
  | .number _ => rfl
  | .string _ => rfl
  | .array _ items => by rw [stripped, stripped, itemsStripped_stripped items]
  | .object _ members => by rw [stripped, stripped, membersStripped_stripped members]

theorem itemsStripped_stripped : ∀ items : JsonItems,
    itemsStripped (itemsStripped items) = itemsStripped items
  | .nil => rfl
  | .cons _ value _ rest => by
    rw [itemsStripped, itemsStripped, stripped_stripped value, itemsStripped_stripped rest]

theorem membersStripped_stripped : ∀ members : JsonMembers,
    membersStripped (membersStripped members) = membersStripped members
  | .nil => rfl
  | .cons _ _ _ _ value _ rest => by
    rw [membersStripped, membersStripped, stripped_stripped value, membersStripped_stripped rest]

end

mutual

theorem markupSafe_stripped : ∀ j : Json, markupSafe (stripped j) = stripped (markupSafe j)
  | .null => rfl
  | .bool _ => rfl
  | .number _ => rfl
  | .string _ => rfl
  | .array _ items => by
    rw [stripped, markupSafe, markupSafe, stripped, itemsMarkupSafe_stripped items]
  | .object _ members => by
    rw [stripped, markupSafe, markupSafe, stripped, membersMarkupSafe_stripped members]

theorem itemsMarkupSafe_stripped : ∀ items : JsonItems,
    itemsMarkupSafe (itemsStripped items) = itemsStripped (itemsMarkupSafe items)
  | .nil => rfl
  | .cons _ value _ rest => by
    rw [itemsStripped, itemsMarkupSafe, itemsMarkupSafe, itemsStripped, markupSafe_stripped value,
      itemsMarkupSafe_stripped rest]

theorem membersMarkupSafe_stripped : ∀ members : JsonMembers,
    membersMarkupSafe (membersStripped members) = membersStripped (membersMarkupSafe members)
  | .nil => rfl
  | .cons _ _ _ _ value _ rest => by
    rw [membersStripped, membersMarkupSafe, membersMarkupSafe, membersStripped,
      markupSafe_stripped value, membersMarkupSafe_stripped rest]

end

end Json

end MetricHistory
