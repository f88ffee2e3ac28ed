import MetricHistory.Proofs.FileSystem.Plant

/-!
# Removing and moving

* `FileSystem.Shrinks` : nothing is new in a file system after something was removed, so whatever
  a path leads to it led to before (`FileSystem.Shrinks.reaches`);
* `Files.remove_shrinks` and `Files.removeAll_shrinks` : removal is of that kind, on any path;
* `FileSystem.node?_moved` : moving a file changes the two places only.
-/

namespace MetricHistory

namespace FileSystem

variable {fs fs' : FileSystem} {p : Place}

/-- Everything that is left was there before. -/
structure Shrinks (fs fs' : FileSystem) : Prop where
  node : ∀ {p : Place} {n : FileNode}, fs'.node? p = some n → fs.node? p = some n
  current : fs'.current = fs.current

theorem Shrinks.refl (fs : FileSystem) : fs.Shrinks fs := ⟨id, rfl⟩

/-- What steps lead to after a removal they led to before it. -/
theorem Shrinks.reaches (h : fs.Shrinks fs') {links left : Nat} {at_ d : Place} {xs : List Text}
    (hx : Reaches fs' links at_ xs left d) : Reaches fs links at_ xs left d :=
  hx.mono (.of_node? fun _ _ => h.node)

theorem node?_filter (keep : Place → Bool) {q : Place} (hq : q ≠ []) :
    ({ fs with nodes := fs.nodes.filter fun (p, _) => keep p } : FileSystem).node? q =
      if keep q then fs.node? q else none := by
  have he : q.isEmpty = false := by simpa using hq
  simp only [node?, he, Bool.false_eq_true, if_false, lookup_filter keep]

theorem shrinks_filter (fs : FileSystem) (keep : Place → Bool) :
    fs.Shrinks { fs with nodes := fs.nodes.filter fun (p, _) => keep p } := by
  refine ⟨fun {q n} h => ?_, rfl⟩
  by_cases hq : q = []
  · subst hq
    exact h
  · rw [node?_filter keep hq] at h
    split at h
    · exact h
    · simp at h

theorem shrinks_erase (fs : FileSystem) (p : Place) : fs.Shrinks (fs.erase p) :=
  shrinks_filter fs (· != p)

theorem shrinks_eraseBelow (fs : FileSystem) (p : Place) : fs.Shrinks (fs.eraseBelow p) :=
  shrinks_filter fs fun q => !p.isPrefixOf q

theorem node?_erase (hp : p ≠ []) (q : Place) :
    (fs.erase p).node? q = if q = p then none else fs.node? q := by
  by_cases hq : q = []
  · rw [hq, if_neg (Ne.symm hp)]
    rfl
  · rw [erase, node?_filter (· != p) hq]
    simp only [bne_iff_ne, ne_eq, ite_not]

theorem node?_eraseBelow {q : Place} (hq : q ≠ []) :
    (fs.eraseBelow p).node? q = if p <+: q then none else fs.node? q := by
  rw [eraseBelow, node?_filter (fun q => !p.isPrefixOf q) hq]
  simp only [Bool.not_eq_true', ← Bool.not_eq_true, List.isPrefixOf_iff_prefix, ite_not]

theorem node?_eraseBelow_apart {q : Place} (h : ¬ p <+: q) :
    (fs.eraseBelow p).node? q = fs.node? q := by
  by_cases hne : q = []
  · rw [hne]
    rfl
  · rw [node?_eraseBelow hne, if_neg h]

theorem node?_eraseBelow_mono {fs' : FileSystem} {p' q : Place} {n : FileNode}
    (h : (fs.eraseBelow p).node? q = some n) (hq : ¬ p <+: q → ¬ p' <+: q)
    (hn : ¬ p <+: q → fs.node? q = some n → fs'.node? q = some n) :
    (fs'.eraseBelow p').node? q = some n := by
  by_cases hne : q = []
  · subst hne
    exact h
  · rw [node?_eraseBelow hne] at h
    split at h
    · simp at h
    · rename_i hp
      rw [node?_eraseBelow_apart (hq hp), hn hp h]

/-- A file can be removed without anything else. -/
theorem Sound.erase (hs : fs.Sound) (hp : p ≠ []) (h : fs.node? p ≠ some .dir) :
    (fs.erase p).Sound := by
  have keep : ∀ q, fs.node? q = some .dir → (fs.erase p).node? q = some .dir := by
    intro q hq
    rw [node?_erase hp, if_neg (by rintro rfl; exact h hq), hq]
  refine ⟨fun q c hsome => keep q (hs.parent q c ?_), keep _ hs.current⟩
  obtain ⟨n, hn⟩ := Option.isSome_iff_exists.1 hsome
  rw [(shrinks_erase fs p).node hn]
  rfl

theorem keeps_erase (hp : p ≠ []) {mode : Nat} {content : Text} {modified : Time}
    (h : fs.node? p = some (.file mode content modified)) : fs.Keeps (fs.erase p) := by
  refine ⟨fun {q} hq => ?_, fun {q t} hq => ?_⟩
  · rw [node?_erase hp, if_neg (by rintro rfl; simp [h] at hq), hq]
  · rw [node?_erase hp, if_neg (by rintro rfl; simp [h] at hq), hq]

/-! ### Moving -/

/-- The nodes at and below a place under their places after it was moved. -/
def movedNodes (source target : Place) (nodes : List (Place × FileNode)) : List (Place × FileNode) :=
  nodes.filterMap fun (q, m) =>
    if source.isPrefixOf q then some (target ++ q.drop source.length, m) else none

/-- The file system after what is at a place was moved. -/
def moved (fs : FileSystem) (source target : Place) : FileSystem :=
  { (fs.eraseBelow source).erase target with
    nodes := ((fs.eraseBelow source).erase target).nodes ++ movedNodes source target fs.nodes }

variable {source target : Place}

theorem lookup_movedNodes (nodes : List (Place × FileNode)) (ys : Place) :
    (movedNodes source target nodes).lookup (target ++ ys) = nodes.lookup (source ++ ys) := by
  induction nodes with
  | nil => rfl
  | cons x nodes ih =>
    obtain ⟨q, m⟩ := x
    by_cases hq : source <+: q
    · obtain ⟨zs, rfl⟩ := hq
      have hcons : movedNodes source target ((source ++ zs, m) :: nodes) =
          (target ++ zs, m) :: movedNodes source target nodes := by
        simp [movedNodes, List.isPrefixOf_iff_prefix]
      rw [hcons, List.lookup_cons, List.lookup_cons, ih]
      by_cases hy : ys = zs
      · simp [hy]
      · have h₁ : (target ++ ys == target ++ zs) = false := by simpa using hy
        have h₂ : (source ++ ys == source ++ zs) = false := by simpa using hy
        rw [h₁, h₂]
    · have hskip : movedNodes source target ((q, m) :: nodes) = movedNodes source target nodes := by
        simp [movedNodes, List.isPrefixOf_iff_prefix, hq]
      have hne : (source ++ ys == q) = false := by
        rw [beq_eq_false_iff_ne]
        rintro rfl
        exact hq (List.prefix_append _ _)
      rw [hskip, List.lookup_cons, hne, ih]

theorem lookup_movedNodes_other (nodes : List (Place × FileNode)) {q : Place}
    (h : ¬ target <+: q) : (movedNodes source target nodes).lookup q = none := by
  rw [List.lookup_eq_none_iff]
  rintro ⟨a, m⟩ hmem
  simp only [movedNodes, List.mem_filterMap, Prod.exists] at hmem
  obtain ⟨b, m', -, heq⟩ := hmem
  split at heq
  · simp only [Option.some.injEq, Prod.mk.injEq] at heq
    rw [bne_iff_ne]
    rintro rfl
    exact h (heq.1 ▸ List.prefix_append _ _)
  · simp at heq

/-- Nothing is below a file, so the file is all that is erased with it. -/
theorem node?_unless_below_file (hs : fs.Sound) {mode : Nat} {content : Text} {modified : Time}
    (hsource : fs.node? source = some (.file mode content modified)) (q : Place) :
    (if source <+: q then none else fs.node? q) = if q = source then none else fs.node? q := by
  by_cases hqs : q = source
  · rw [if_pos (hqs ▸ List.prefix_refl _), if_pos hqs]
  · rw [if_neg hqs]
    split
    · rename_i hprefix
      obtain ⟨ys, rfl⟩ := hprefix
      exact (hs.below_none (by rw [hsource]; simp) (by simpa using hqs)).symm
    · rfl

theorem lookup_below_file (hs : fs.Sound) {mode : Nat} {content : Text} {modified : Time}
    (hsource : fs.node? source = some (.file mode content modified)) (ys : Place) :
    fs.nodes.lookup (source ++ ys) =
      if ys = [] then some (.file mode content modified) else none := by
  have hne : source ≠ [] := by
    rintro rfl
    simp [node?] at hsource
  have hnode : fs.nodes.lookup (source ++ ys) = fs.node? (source ++ ys) := by
    simp [node?, hne]
  rw [hnode]
  split
  · rename_i hy
    rw [hy, List.append_nil, hsource]
  · rename_i hy
    exact hs.below_none (by rw [hsource]; simp) hy

/-- **Moving a file changes the two places only.** -/
theorem node?_moved (hs : fs.Sound) {mode : Nat} {content : Text} {modified : Time}
    (hsource : fs.node? source = some (.file mode content modified)) (ht : target ≠ [])
    (q : Place) :
    (fs.moved source target).node? q =
      if q = target then some (.file mode content modified)
      else if q = source then none else fs.node? q := by
  have hne : source ≠ [] := by
    rintro rfl
    simp [node?] at hsource
  by_cases hq : q = []
  · rw [hq, if_neg (Ne.symm ht), if_neg (Ne.symm hne)]
    rfl
  have he : q.isEmpty = false := by simpa using hq
  have hsplit : (fs.moved source target).node? q =
      (((fs.eraseBelow source).erase target).node? q).or
        ((movedNodes source target fs.nodes).lookup q) := by
    simp only [node?, moved, he, Bool.false_eq_true, if_false, List.lookup_append]
  rw [hsplit, node?_erase ht, node?_eraseBelow hq, node?_unless_below_file hs hsource]
  by_cases hprefix : target <+: q
  · obtain ⟨ys, rfl⟩ := hprefix
    rw [lookup_movedNodes, lookup_below_file hs hsource]
    by_cases hy : ys = []
    · simp [hy]
    · simp [hy]
  · have hqt : q ≠ target := by
      rintro rfl
      exact hprefix (List.prefix_refl _)
    rw [lookup_movedNodes_other _ hprefix, Option.or_none, if_neg hqt, if_neg hqt]

theorem Sound.moved (hs : fs.Sound) {mode : Nat} {content : Text} {modified : Time}
    (hsource : fs.node? source = some (.file mode content modified)) {d : Place} {c : Text}
    (hd : fs.node? d = some .dir) (hc : fs.node? (d ++ [c]) ≠ some .dir) :
    (fs.moved source (d ++ [c])).Sound := by
  have hnode : ∀ q, (fs.moved source (d ++ [c])).node? q =
      if q = d ++ [c] then some (.file mode content modified)
      else if q = source then none else fs.node? q :=
    node?_moved hs hsource (by simp)
  have keep : ∀ p, fs.node? p = some .dir → (fs.moved source (d ++ [c])).node? p = some .dir := by
    intro p hp
    rw [hnode, if_neg (by rintro rfl; exact hc hp), if_neg (by rintro rfl; simp [hsource] at hp), hp]
  refine ⟨fun p e hsome => ?_, keep _ hs.current⟩
  rw [hnode] at hsome
  split at hsome
  · rename_i heq
    obtain ⟨rfl, -⟩ := List.append_inj' heq rfl
    exact keep _ hd
  · split at hsome
    · simp at hsome
    · exact keep _ (hs.parent p e hsome)

end FileSystem

namespace Files

open FileSystem

variable {fs : FileSystem}

theorem remove_run (path : Text) (fs : FileSystem) :
    (remove path).run fs =
      match fs.find false path with
      | .error e => (.error ⟨"remove", [path], e⟩, fs)
      | .ok (place, .dir) =>
        if (fs.children place).isEmpty then (.ok (), fs.erase place)
        else (.error ⟨"remove", [path], .notEmpty⟩, fs)
      | .ok (place, _) => (.ok (), fs.erase place) := by
  have hfind : (find "remove" false path).run fs =
      ((fs.find false path).mapError (⟨"remove", [path], ·⟩), fs) := by
    rw [find, run_get_bind]
    rcases fs.find false path with e | found <;> rfl
  rw [remove, run_bind, hfind]
  rcases fs.find false path with e | ⟨p, _ | _ | _⟩
  · rfl
  · simp only [Except.mapError, run_get_bind]
    split <;> rfl
  · rfl
  · rfl

/-- **Removing something brings nothing new.** -/
theorem remove_shrinks (path : Text) (fs : FileSystem) :
    fs.Shrinks ((remove path).run fs).2 := by
  rw [remove_run]
  rcases fs.find false path with e | ⟨p, _ | _ | _⟩
  · exact .refl fs
  · simp only
    split
    · exact shrinks_erase fs p
    · exact .refl fs
  · exact shrinks_erase fs p
  · exact shrinks_erase fs p

/-- **Removing everything below a path brings nothing new.** -/
theorem removeAll_shrinks (path : Text) (fs : FileSystem) :
    fs.Shrinks ((removeAll path).run fs).2 := by
  rw [removeAll]
  split
  · exact .refl fs
  split
  · exact .refl fs
  change fs.Shrinks (((get >>= fun fs => _ : Files Unit).run fs)).2
  rw [run_get_bind]
  rcases fs.locate false path with e | ⟨p, _ | n⟩
  · cases e <;> exact .refl fs
  · exact .refl fs
  · exact shrinks_eraseBelow fs p

theorem rename_run (old new : Text) (fs : FileSystem) :
    (rename old new).run fs =
      match fs.find false old with
      | .error e => (.error ⟨"rename", [old, new], e⟩, fs)
      | .ok (source, n) =>
        match fs.locate false new with
        | .error e => (.error ⟨"rename", [old, new], e⟩, fs)
        | .ok (_, some .dir) => (.error ⟨"rename", [old, new], .exists⟩, fs)
        | .ok (target, there) =>
          if n.isDir && there.isSome then (.error ⟨"rename", [old, new], .notDirectory⟩, fs)
          else if n.isDir && source.isPrefixOf target then
            (.error ⟨"rename", [old, new], .invalid⟩, fs)
          else (.ok (), fs.moved source target) := by
  rw [rename, run_get_bind]
  rcases fs.find false old with e | ⟨source, n⟩
  · rfl
  · simp only [run_get_bind]
    rcases fs.locate false new with e | ⟨target, _ | _ | _ | _⟩
    · rfl
    · simp only
      split
      · rfl
      · split <;> rfl
    · rfl
    · simp only
      split
      · rfl
      · split <;> rfl
    · simp only
      split
      · rfl
      · split <;> rfl

theorem createTemp_run (dir front : Text) (fs : FileSystem) :
    (createTemp dir front).run fs =
      if Path.slash ∈ front then (.error ⟨"createtemp", [front ++ "*"], .separator⟩, fs)
      else
        match fs.locate false (freeName fs dir front) with
        | .ok (place, none) => (.ok (freeName fs dir front), fs.put place (.file (fs.granted 0o600) [] fs.clock))
        | .ok (_, some _) => (.error ⟨"open", [freeName fs dir front], .exists⟩, fs)
        | .error e => (.error ⟨"open", [freeName fs dir front], e⟩, fs) := by
  have hl : (locate "open" false (freeName fs dir front)).run fs =
      ((fs.locate false (freeName fs dir front)).mapError (⟨"open", [freeName fs dir front], ·⟩),
        fs) := by
    rw [locate, run_get_bind]
    rcases fs.locate false (freeName fs dir front) with e | found <;> rfl
  rw [createTemp]
  by_cases hslash : Path.slash ∈ front
  · rw [if_pos (List.contains_iff_mem.2 hslash), if_pos hslash]
    rfl
  rw [if_neg (mt List.contains_iff_mem.1 hslash), if_neg hslash, run_get_bind, run_bind, hl]
  rcases fs.locate false (freeName fs dir front) with e | ⟨p, _ | _⟩ <;> rfl

end Files

end MetricHistory
