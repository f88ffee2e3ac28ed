import MetricHistory.Proofs.Decimal.Notation
import MetricHistory.Proofs.FileSystem.Listing

/-!
# Temporary files

A temporary file is created under the first name of a series that is free.  There are finitely many
nodes, so that one of the names always is.

* `Files.isName_numbered` : the names of a series are names;
* `Files.freeName_free` : the name that is chosen is free;
* `Files.createTemp_free` : so a temporary file can be created in every directory.
-/

namespace MetricHistory

namespace Text

theorem ofNat_injective : Function.Injective ofNat := by
  intro m n h
  rw [← numeral_ofNat m, h, numeral_ofNat]

end Text

namespace Files

open FileSystem

variable {fs : FileSystem} {dir front : Text} {d : Place}

/-- A numbered name is a name. -/
theorem isName_numbered (hslash : Path.slash ∉ front) (i : ℕ) :
    Path.IsName (front ++ Text.ofNat i) := by
  obtain ⟨init, b, hdigits⟩ := (List.eq_nil_or_concat (Text.ofNat i)).resolve_left
    (Text.ofNat_ne_nil i)
  rw [List.concat_eq_append] at hdigits
  have hb := Text.digits_ofNat i b (by simp [hdigits])
  have hlast : (front ++ Text.ofNat i).getLast? = some b := by simp [hdigits]
  refine ⟨?_, ?_, ?_, ?_⟩
  · intro h
    simp [h] at hlast
  · intro h
    rw [h] at hlast
    rw [← Option.some.inj hlast] at hb
    exact absurd hb (by decide)
  · intro h
    rw [h] at hlast
    rw [← Option.some.inj hlast] at hb
    exact absurd hb (by decide)
  · rw [List.mem_append, not_or]
    refine ⟨hslash, fun h => ?_⟩
    exact absurd (Text.digits_ofNat i _ h) (by decide)

/-- The paths of a series lead to the names of the series in one directory. -/
def Series (fs : FileSystem) (dir front : Text) (d : Place) : Prop :=
  ∀ i, fs.locate false (Path.join [dir, front ++ Text.ofNat i]) =
    .ok (d ++ [front ++ Text.ofNat i], fs.node? (d ++ [front ++ Text.ofNat i]))

theorem exists_free (fs : FileSystem) (d : Place) (front : Text) :
    ∃ i ∈ List.range (fs.nodes.length + 1), fs.node? (d ++ [front ++ Text.ofNat i]) = none := by
  by_contra htaken
  push Not at htaken
  set places := (List.range (fs.nodes.length + 1)).map fun i => d ++ [front ++ Text.ofNat i]
  have hnodup : places.Nodup := by
    refine List.nodup_range.map fun i j hij => Text.ofNat_injective ?_
    simpa using hij
  have hsub : places ⊆ fs.nodes.map (·.1) := by
    intro p hp
    obtain ⟨i, hi, rfl⟩ := List.mem_map.1 hp
    obtain ⟨n, hn⟩ := Option.ne_none_iff_exists'.1 (htaken i hi)
    exact mem_nodes_of_node? (by simp) hn
  have hlength := (hnodup.subperm hsub).length_le
  simp [places] at hlength

/-- **The name that is chosen for a temporary file is free.** -/
theorem freeName_free (h : Series fs dir front d) :
    ∃ i, freeName fs dir front = Path.join [dir, front ++ Text.ofNat i] ∧
      fs.node? (d ++ [front ++ Text.ofNat i]) = none := by
  obtain ⟨j, hj, hfree⟩ := exists_free fs d front
  unfold freeName
  dsimp only
  generalize hchosen : (List.range (fs.nodes.length + 1)).find? _ = chosen
  cases chosen with
  | none =>
    rw [List.find?_eq_none] at hchosen
    have htaken := hchosen j hj
    rw [h j, hfree] at htaken
    simp at htaken
  | some i =>
    refine ⟨i, rfl, ?_⟩
    have hi := List.find?_some hchosen
    rw [h i] at hi
    cases hnode : fs.node? (d ++ [front ++ Text.ofNat i]) with
    | none => rfl
    | some n => simp [hnode] at hi

/-- **A temporary file can be created in every directory.** -/
theorem createTemp_free (h : Series fs dir front d) (hslash : Path.slash ∉ front) :
    ∃ i, fs.node? (d ++ [front ++ Text.ofNat i]) = none ∧
      (createTemp dir front).run fs = (.ok (Path.join [dir, front ++ Text.ofNat i]),
        fs.put (d ++ [front ++ Text.ofNat i]) (.file (fs.granted 0o600) [] fs.clock)) := by
  obtain ⟨i, hname, hfree⟩ := freeName_free h
  refine ⟨i, hfree, ?_⟩
  rw [createTemp_run, if_neg hslash, hname, h i, hfree]

end Files

end MetricHistory
