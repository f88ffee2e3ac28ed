import MetricHistory.Config.Layers
import MetricHistory.Proofs.Decimal.Range

/-!
# What a settings file gives

A field takes any value that can be made into one of its type.  Here are the values that are of its
type as they stand, and what reading a field comes to if the file has no others: the given value if
there is one, and the value from before otherwise.

* `Setting.Kind.Admits` : a value is of a kind, or empty.
* `Setting.Spells` : a key is written in no other letter case, and its values are of a kind.
* `Setting.readField_of_spells` and `Setting.readSection_of_spells` : **a field, or a section, that
  is spelled like that is read as it is given.**
-/

namespace MetricHistory

theorem Text.lookup_cons {α : Type} (key : Text) (x : Text × α) (rest : List (Text × α)) :
    (x :: rest).lookup key = if key = x.1 then some x.2 else rest.lookup key := by
  rw [List.lookup_cons]
  by_cases hkey : key = x.1
  · rw [beq_iff_eq.2 hkey, if_pos hkey]
  · rw [beq_eq_false_iff_ne.2 hkey, if_neg hkey]

theorem Text.mem_keys_iff {α : Type} {key : Text} {entries : List (Text × α)} :
    key ∈ entries.map (·.1) ↔ (entries.lookup key).isSome := by
  rw [List.lookup_isSome_iff, List.mem_map]
  simp only [beq_iff_eq, eq_comm (a := key)]

namespace Setting

open Config (Entries)

variable {α : Type} {es : Entries} {name : Text} {s : Setting}

/-! ### Values -/

/-- The text that a value is. -/
def text? : Setting → Option Text
  | text t => some t
  | _ => none

/-- The integer that a value is.  Where all numbers are floats, it is one of them. -/
def int? : Setting → Option Int
  | int i => some i
  | float x => some (Binary64.truncate x)
  | _ => none

theorem int?_float {x : Float} {i : ℤ} (h : Binary64.IsWhole x i) (hmin : minInt64 ≤ i)
    (hmax : i ≤ maxInt64) : (float x).int? = some i :=
  congrArg some (Binary64.truncate_of_isWhole h hmin hmax)

/-- The truth value that a value is. -/
def bool? : Setting → Option Bool
  | bool b => some b
  | _ => none

/-- The texts that a list holds. -/
def texts? : Setting → Option (List Text)
  | list items => items.mapM text?
  | _ => none

/-- The entries of a table. -/
def table? : Setting → Option Entries
  | table entries => some entries
  | _ => none

/-- The kinds of fields. -/
inductive Kind where
  | text
  | int
  | bool
  | texts
deriving DecidableEq, Repr

/-- The value is of the kind, or empty. -/
def Kind.Admits : Kind → Setting → Prop
  | _, .null => True
  | .text, .text _ => True
  | .int, .int i => minInt64 ≤ i ∧ i ≤ maxInt64
  | .int, .float x => ∃ i, Binary64.IsWhole x i ∧ minInt64 ≤ i ∧ i ≤ maxInt64
  | .bool, .bool _ => True
  | .texts, .list items => ∀ s ∈ items, ∃ t, s = .text t
  | _, _ => False

theorem readText_of_admits (h : Kind.text.Admits s) (start : Text) :
    readText start s = some (s.text?.getD start) := by
  cases s with
  | null => rfl
  | text t => rfl
  | _ => exact h.elim

theorem readInt_of_admits (h : Kind.int.Admits s) (start : Int) :
    readInt start s = some (s.int?.getD start) := by
  cases s with
  | null => rfl
  | int i =>
    have hsame : wrap64 i = i := wrap64_eq_self_iff.2 h
    exact congrArg some hsame
  | float x => rfl
  | _ => exact h.elim

theorem readBool_of_admits (h : Kind.bool.Admits s) (start : Bool) :
    readBool start s = some (s.bool?.getD start) := by
  cases s with
  | null => rfl
  | bool b => rfl
  | _ => exact h.elim

theorem readTexts_of_admits (h : Kind.texts.Admits s) (start : List Text) :
    readTexts start s = some (s.texts?.getD start) := by
  cases s with
  | null => rfl
  | list items =>
    -- both ways to read the elements keep the texts
    have hitems : items.mapM (readText []) = items.mapM text? ∧ (items.mapM text?).isSome := by
      induction items with
      | nil => exact ⟨rfl, rfl⟩
      | cons x rest ih =>
        obtain ⟨t, rfl⟩ := h x (by simp)
        obtain ⟨hsame, hsome⟩ := ih fun y hy => h y (by simp [hy])
        obtain ⟨ts, hts⟩ := Option.isSome_iff_exists.1 hsome
        simp [List.mapM_cons, hsame, hts, readText, text?]
    obtain ⟨ts, hts⟩ := Option.isSome_iff_exists.1 hitems.2
    rw [readTexts, hitems.1, texts?, hts]
    rfl
  | _ => exact h.elim

/-! ### Fields -/

/-- What the entries give for a key, if it is there and its value is no empty one. -/
def given? (value? : Setting → Option α) (name : Text) (es : Entries) : Option α :=
  (es.lookup name).bind value?

/-- The key is written in no other letter case, and its values are as `P` says. -/
def Spells (name : Text) (P : Setting → Prop) (es : Entries) : Prop :=
  ∀ x ∈ es, x.1.equalFold name = true → x.1 = name ∧ P x.2

theorem Spells.nil {P : Setting → Prop} : Spells name P [] := fun _ hx => absurd hx List.not_mem_nil

theorem Spells.cons_self {P : Setting → Prop} (h : Spells name P es) (hs : P s) :
    Spells name P ((name, s) :: es) :=
  List.forall_mem_cons.2 ⟨fun _ => ⟨rfl, hs⟩, h⟩

theorem Spells.cons_other {P : Setting → Prop} {key : Text} (h : Spells name P es)
    (hkey : key.equalFold name = false) : Spells name P ((key, s) :: es) :=
  List.forall_mem_cons.2 ⟨fun hfold => absurd hfold (by simp [hkey]), h⟩

theorem find?_key (es : Entries) (name : Text) :
    (es.find? fun x => x.1 == name).map (·.2) = es.lookup name := by
  induction es with
  | nil => rfl
  | cons x rest ih =>
    rw [List.find?_cons, Text.lookup_cons]
    by_cases hx : x.1 = name
    · rw [beq_iff_eq.2 hx, if_pos hx.symm]
      rfl
    · rw [beq_eq_false_iff_ne.2 hx, if_neg (Ne.symm hx), ih]

theorem equalFold_self (t : Text) : t.equalFold t = true := by simp [Text.equalFold]

/-- An entry is found under its exact key, and its value is as it should be. -/
theorem Spells.entry? {P : Setting → Prop} (h : Spells name P es) :
    entry? name es = es.lookup name ∧ ∀ s, es.lookup name = some s → P s := by
  constructor
  · rw [Setting.entry?, ← find?_key]
    cases hexact : es.find? fun x => x.1 == name with
    | some x => rfl
    | none =>
      -- a key in another letter case would have to be the exact one
      have hother : (es.find? fun x => x.1.equalFold name) = none := by
        rw [List.find?_eq_none] at hexact ⊢
        intro x hx hfold
        exact hexact x hx (by simpa using (h x hx hfold).1)
      simp only [hother]
  · intro s hs
    obtain ⟨l, l', hes, -⟩ := List.lookup_eq_some_iff.1 hs
    exact (h (name, s) (by simp [hes]) (equalFold_self name)).2

/-- **A field is read as it is given, and keeps its value otherwise.** -/
theorem readField_of_spells {read : α → Setting → Option α} {value? : Setting → Option α}
    {P : Setting → Prop} {start : α}
    (hread : ∀ s, P s → read start s = some ((value? s).getD start)) (h : Spells name P es) :
    readField read name start es = some ((given? value? name es).getD start) := by
  obtain ⟨hentry, hvalue⟩ := h.entry?
  rw [readField, hentry, given?]
  cases hs : es.lookup name with
  | none => rfl
  | some s => exact hread s (hvalue s hs)

/-! ### Sections -/

/-- The entries of a section, none if it is not there or empty. -/
def sectionOf (name : Text) (es : Entries) : Entries := (given? table? name es).getD []

/-- The keys of a section with their kinds. -/
abbrev Fields := List (String × Kind)

/-- The entries have the fields of a section, spelled as they are, and with values of their kinds.
Other entries do not matter. -/
def Fits (fields : Fields) (es : Entries) : Prop :=
  ∀ f ∈ fields, Spells (Text.ofString f.1) f.2.Admits es

/-- The value is a section with the fields, or empty. -/
def FitsSection (fields : Fields) : Setting → Prop
  | .null => True
  | .table es => Fits fields es
  | _ => False

theorem fits_nil (fields : Fields) : Fits fields [] := fun _ _ => .nil

/-- A value that is a section has entries, and they have the fields. -/
theorem FitsSection.entries {fields : Fields} (h : FitsSection fields s) :
    sectionEntries? s = some (s.table?.getD []) ∧ Fits fields (s.table?.getD []) := by
  cases s with
  | null => exact ⟨rfl, fits_nil fields⟩
  | table es => exact ⟨rfl, h⟩
  | _ => exact h.elim

/-- **A section is read as it is given.** -/
theorem readSection_of_spells {read : α → Entries → Option α} {lay : α → Entries → α} {start : α}
    {fields : Fields} (hread : ∀ es, Fits fields es → read start es = some (lay start es))
    (hnil : lay start [] = start) (h : Spells name (FitsSection fields) es) :
    readField (Config.readSection read) name start es = some (lay start (sectionOf name es)) := by
  obtain ⟨hentry, hvalue⟩ := h.entry?
  rw [readField, hentry, sectionOf, given?]
  cases hs : es.lookup name with
  | none => exact congrArg some hnil.symm
  | some s =>
    obtain ⟨hentries, hfits⟩ := (hvalue s hs).entries
    calc Config.readSection read start s
        = (sectionEntries? s).bind (read start) := rfl
      _ = read start (s.table?.getD []) := by rw [hentries, Option.bind_some]
      _ = some (lay start (s.table?.getD [])) := hread _ hfits

end Setting

end MetricHistory
