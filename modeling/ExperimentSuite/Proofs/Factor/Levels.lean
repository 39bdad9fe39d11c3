import ExperimentSuite.Factor.Levels
import ExperimentSuite.Proofs.Document.Merge

/-!
# Entries that pass the check

The paths that the check reads off an entry are places of the entry, and every
place of the entry is at, below or on the way to one of them. An entry passes
when these paths are exactly the declared ones, so it is sparse over them and
free of markers.
-/

namespace ExperimentSuite

namespace FactorLevels

open Document

variable {factors : List KeyPath} {path q r : KeyPath} {d v entry : Document}
  {fields : List (String × Document)} {levelPaths : List KeyPath} {entries : List Document}

theorem mem_pathsIn :
    q ∈ pathsIn factors path fields ↔ ∃ e ∈ fields, q ∈ pathsAt factors (path ++ [e.1]) e.2 := by
  induction fields with
  | nil => simp [pathsIn]
  | cons e rest ih => simp [pathsIn, ih]

/-- Below the root an entry sets either the place itself or what its fields set. -/
theorem pathsAt_of_ne_nil (factors : List KeyPath) (h : path ≠ []) (d : Document) :
    pathsAt factors path d = [path] ∨
      ∃ fields, d = .map fields ∧ fields ≠ [] ∧
        pathsAt factors path d = pathsIn factors path fields := by
  cases d with
  | map fields =>
      cases fields with
      | nil => exact .inl (by simp [pathsAt, h])
      | cons e rest =>
          rw [pathsAt]
          split
          · exact .inl rfl
          · exact .inr ⟨_, rfl, by simp, rfl⟩
  | _ => exact .inl (by simp [pathsAt])

theorem pathsAt_nil_map (fields : List (String × Document)) :
    pathsAt factors [] (.map fields) = pathsIn factors [] fields := by
  cases fields <;> simp [pathsAt, pathsIn]

/-- Every path that is read off is a place of the entry. -/
theorem get?_of_mem_pathsAt (hd : d.Ordered) (hne : path ≠ []) (h : q ∈ pathsAt factors path d) :
    ∃ r, q = path ++ r ∧ (d.get? r).isSome := by
  induction d using memberInduction generalizing path with
  | map fields ih =>
      rcases pathsAt_of_ne_nil factors hne (.map fields) with hpath | ⟨_, heq, -, hin⟩
      · rw [hpath, List.mem_singleton] at h
        exact ⟨[], by simp [h], by simp⟩
      · cases heq
        rw [hin, mem_pathsIn] at h
        obtain ⟨e, he, hq⟩ := h
        obtain ⟨r, rfl, hr⟩ := ih e he ((ordered_map_iff.mp hd).2 e he) (by simp) hq
        refine ⟨e.1 :: r, by simp, ?_⟩
        rw [get?_map_cons, Keyed.find?_of_mem hd.sorted he]
        exact hr
  | _ =>
      simp only [pathsAt, List.mem_singleton] at h
      exact ⟨[], by simp [h], by simp⟩

/-- Some path is read off at or below every place. -/
theorem exists_mem_pathsAt (factors : List KeyPath) (hne : path ≠ []) (d : Document) :
    ∃ q ∈ pathsAt factors path d, path <+: q := by
  induction d using memberInduction generalizing path with
  | map fields ih =>
      rcases pathsAt_of_ne_nil factors hne (.map fields) with hpath | ⟨_, heq, hnonempty, hin⟩
      · exact ⟨path, by simp [hpath], List.prefix_rfl⟩
      · cases heq
        obtain ⟨e, he⟩ := List.exists_mem_of_ne_nil _ hnonempty
        have hne' : path ++ [e.1] ≠ [] := by simp
        obtain ⟨q, hq, hpre⟩ := ih e he hne'
        exact ⟨q, hin ▸ mem_pathsIn.mpr ⟨e, he, hq⟩, (List.prefix_append _ _).trans hpre⟩
  | _ => exact ⟨path, by simp [pathsAt], List.prefix_rfl⟩

/-- Every place of an entry lies at or below a path that is read off, or is a mapping on the way to
one. -/
theorem mem_pathsAt_of_get? (hne : path ≠ []) (h : d.get? r = some v) :
    (∃ q ∈ pathsAt factors path d, q <+: path ++ r) ∨
      (v.isMap = true ∧ ∃ q ∈ pathsAt factors path d, path ++ r <+: q) := by
  induction r generalizing path d with
  | nil =>
      rw [get?_nil] at h
      cases h
      rcases pathsAt_of_ne_nil factors hne v with hpath | ⟨fields, rfl, -, -⟩
      · exact .inl ⟨path, by simp [hpath], by simp⟩
      · obtain ⟨q, hq, hpre⟩ := exists_mem_pathsAt factors hne (.map fields)
        exact .inr ⟨rfl, q, hq, by simpa using hpre⟩
  | cons key r ih =>
      obtain ⟨fields, rfl⟩ := isMap_iff.mp (isMap_of_get?_cons h)
      rcases pathsAt_of_ne_nil factors hne (.map fields) with hpath | ⟨_, heq, -, hin⟩
      · exact .inl ⟨path, by simp [hpath], List.prefix_append _ _⟩
      · cases heq
        rw [get?_map_cons, Option.bind_eq_some_iff] at h
        obtain ⟨child, hf, hc⟩ := h
        have hsub : ∀ q ∈ pathsAt factors (path ++ [key]) child,
            q ∈ pathsAt factors path (.map fields) :=
          fun q hq => hin ▸ mem_pathsIn.mpr ⟨_, Keyed.mem_of_find? hf, hq⟩
        have hne' : path ++ [key] ≠ [] := by simp
        rcases ih hne' hc with ⟨q, hq, hpre⟩ | ⟨hmap, q, hq, hpre⟩
        · exact .inl ⟨q, hsub q hq, by simpa using hpre⟩
        · exact .inr ⟨hmap, q, hsub q hq, by simpa using hpre⟩

/-- An entry is sparse over the paths that are read off it. -/
theorem sparse_pathsAt (factors : List KeyPath) (hd : (Document.map fields).Ordered) :
    Sparse (pathsAt factors [] (.map fields)) (.map fields) where
  isMap := rfl
  ordered := hd
  holds q hq := by
    rw [pathsAt_nil_map, mem_pathsIn] at hq
    obtain ⟨e, he, hq⟩ := hq
    obtain ⟨r, rfl, hr⟩ :=
      get?_of_mem_pathsAt ((ordered_map_iff.mp hd).2 e he) (by simp) hq
    rw [List.nil_append, List.singleton_append, get?_map_cons, Keyed.find?_of_mem hd.sorted he]
    exact hr
  noOther p v hv := by
    cases p with
    | nil => cases hv; exact .inr ⟨rfl, .inl rfl⟩
    | cons key r =>
        rw [get?_map_cons, Option.bind_eq_some_iff] at hv
        obtain ⟨child, hf, hc⟩ := hv
        have hsub : ∀ q ∈ pathsAt factors [key] child, q ∈ pathsAt factors [] (.map fields) := by
          intro q hq
          rw [pathsAt_nil_map]
          exact mem_pathsIn.mpr ⟨_, Keyed.mem_of_find? hf, hq⟩
        have hne : [key] ≠ [] := by simp
        rcases mem_pathsAt_of_get? hne hc with ⟨q, hq, hpre⟩ | ⟨hmap, q, hq, hpre⟩
        · exact .inl ⟨q, hsub q hq, hpre⟩
        · exact .inr ⟨hmap, .inr ⟨q, hsub q hq, hpre⟩⟩

theorem checkEntry_eq_ok {expected : List KeyPath} {index : Nat}
    (h : checkEntry expected index entry = .ok ()) :
    entry.isMap = true ∧ entry.hasMarker = false ∧
      ∀ q, q ∈ pathsAt expected [] entry ↔ q ∈ expected := by
  rw [checkEntry] at h
  split_ifs at h with hmap hmarker
  refine ⟨by simpa using hmap, by simpa using hmarker, ?_⟩
  intro q
  dsimp only at h
  split at h
  · next hboth =>
      simp only [Bool.and_eq_true, List.isEmpty_iff, Ascending.difference_eq_nil_iff,
        Ascending.mem_ofList] at hboth
      exact ⟨hboth.2 q, hboth.1 q⟩
  · cases h

theorem checkFrom_eq_ok {expected : List KeyPath} {index : Nat}
    (h : checkFrom expected index entries = .ok ()) (he : entry ∈ entries) :
    ∃ i, checkEntry expected i entry = .ok () := by
  induction entries generalizing index with
  | nil => cases he
  | cons first rest ih =>
      rw [checkFrom, Outcome.bind_eq_ok] at h
      obtain ⟨_, hfirst, hrest⟩ := h
      rcases List.mem_cons.mp he with rfl | he
      · exact ⟨index, hfirst⟩
      · exact ih hrest he

theorem sparse_of_checkEntry {index : Nat}
    (h : checkEntry (Ascending.ofList levelPaths) index entry = .ok ()) (ho : entry.Ordered) :
    Sparse levelPaths entry ∧ entry.hasMarker = false := by
  obtain ⟨hmap, hmarker, hpaths⟩ := checkEntry_eq_ok h
  obtain ⟨fields, rfl⟩ := isMap_iff.mp hmap
  refine ⟨(sparse_pathsAt (Ascending.ofList levelPaths) ho).congr fun q => ?_, hmarker⟩
  rw [hpaths q, Ascending.mem_ofList]

/-- An entry that passes the check holds a value without markers at every declared place and
nothing else. -/
theorem sparse_of_check (h : check levelPaths entries = .ok ()) (he : entry ∈ entries)
    (ho : entry.Ordered) : Sparse levelPaths entry ∧ entry.hasMarker = false := by
  obtain ⟨_, hentry⟩ := checkFrom_eq_ok h he
  exact sparse_of_checkEntry hentry ho

end FactorLevels

end ExperimentSuite
