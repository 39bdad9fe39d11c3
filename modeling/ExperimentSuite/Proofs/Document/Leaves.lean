import ExperimentSuite.Proofs.Document.Path

/-!
# Leaves and occupied places

A leaf is a value that nothing stands below, and a leaf path is the path of
one. A path is occupied when something stands there or a value that is no
mapping stands above it. Replacing a value and removing a field are writes at
a place that exists, so what they leave alone is known from writing.
-/

namespace ExperimentSuite

namespace Document

open KeyPath

variable {d d' v taken value : Document} {key : String} {p q path parent rest : KeyPath}
  {fields : List (String × Document)}

theorem mem_leafPathsIn :
    q ∈ leafPathsIn fields ↔ ∃ e ∈ fields, ∃ r ∈ e.2.leafPathsBelow, q = e.1 :: r := by
  induction fields with
  | nil => simp [leafPathsIn]
  | cons e rest ih => simp [leafPathsIn, ih, eq_comm]

/-- The leaf paths below a node are the paths of its leaves. -/
theorem mem_leafPathsBelow_iff (hd : d.Ordered) :
    q ∈ d.leafPathsBelow ↔ ∃ v, d.get? q = some v ∧ v.isLeaf = true := by
  induction d using memberInduction generalizing q with
  | map fields ih =>
      have hvalues := (ordered_map_iff.mp hd).2
      cases fields with
      | nil =>
          rw [leafPathsBelow, List.mem_singleton]
          · cases q <;> simp [get?, isLeaf]
          · simp
      | cons e rest =>
          rw [leafPathsBelow, mem_leafPathsIn]
          constructor
          · rintro ⟨e', he', r, hr, rfl⟩
            obtain ⟨v, hv, hleaf⟩ := (ih e' he' (hvalues e' he')).mp hr
            refine ⟨v, ?_, hleaf⟩
            rw [get?_map_cons, Keyed.find?_of_mem hd.sorted he']
            exact hv
          · rintro ⟨v, hv, hleaf⟩
            cases q with
            | nil => cases hv; cases hleaf
            | cons key r =>
                rw [get?_map_cons, Option.bind_eq_some_iff] at hv
                obtain ⟨child, hf, hc⟩ := hv
                have hmem := Keyed.mem_of_find? hf
                exact ⟨(key, child), hmem, r, (ih _ hmem (hvalues _ hmem)).mpr ⟨v, hc, hleaf⟩, rfl⟩
  | _ => cases q <;> simp [leafPathsBelow, get?, isLeaf]

theorem mem_leafPaths_iff (hd : d.Ordered) :
    q ∈ d.leafPaths ↔ q ≠ [] ∧ ∃ v, d.get? q = some v ∧ v.isLeaf = true := by
  cases d with
  | map fields =>
      cases fields with
      | nil => cases q <;> simp [leafPaths, leafPathsIn, get?]
      | cons e rest =>
          have hbelow := mem_leafPathsBelow_iff (q := q) hd
          rw [leafPathsBelow] at hbelow
          rw [leafPaths, hbelow]
          refine ⟨fun h => ⟨?_, h⟩, And.right⟩
          rintro rfl
          obtain ⟨v, hv, hleaf⟩ := h
          cases hv
          cases hleaf
  | _ => cases q <;> simp [leafPaths, get?]

/-- Some leaf stands at or below every place. -/
theorem exists_leaf (d : Document) : ∃ q v, d.get? q = some v ∧ v.isLeaf = true := by
  induction d using memberInduction with
  | map fields ih =>
      cases fields with
      | nil => exact ⟨[], .map [], rfl, rfl⟩
      | cons e rest =>
          obtain ⟨q, v, hv, hleaf⟩ := ih e List.mem_cons_self
          exact ⟨e.1 :: q, v, by simpa [get?, Keyed.find?] using hv, hleaf⟩
  | _ => exact ⟨[], _, get?_nil _, rfl⟩

/-- Every place but the root is on the way to a leaf path. -/
theorem exists_mem_leafPaths (hd : d.Ordered) (hne : p ≠ []) (hp : (d.get? p).isSome) :
    ∃ q, p ++ q ∈ d.leafPaths := by
  obtain ⟨v, hv⟩ := Option.isSome_iff_exists.mp hp
  obtain ⟨q, leaf, hq, hleaf⟩ := exists_leaf v
  refine ⟨q, (mem_leafPaths_iff hd).mpr ⟨by simp [hne], leaf, ?_, hleaf⟩⟩
  rw [get?_append, hv]
  exact hq

/-- A path is occupied if it exists or if a value that is no mapping stands above it. -/
theorem isOccupied_iff :
    d.isOccupied p = true ↔
      (d.get? p).isSome ∨ ∃ q v, q <+: p ∧ d.get? q = some v ∧ v.isMap = false := by
  induction p generalizing d with
  | nil => simp [isOccupied]
  | cons key rest ih =>
      cases d with
      | map fields =>
          rw [isOccupied, get?_map_cons]
          cases hf : Keyed.find? key fields with
          | none =>
              simp only [Option.bind_none, Option.isSome_none, Bool.false_eq_true, false_or,
                false_iff]
              rintro ⟨q, v, hq, hv, hmap⟩
              cases q with
              | nil => cases hv; cases hmap
              | cons other q =>
                  obtain ⟨rfl, -⟩ := List.cons_prefix_cons.mp hq
                  rw [get?_map_cons, hf] at hv
                  cases hv
          | some child =>
              rw [Option.bind_some]
              refine ih.trans (or_congr Iff.rfl ⟨?_, ?_⟩)
              · rintro ⟨q, v, hq, hv, hmap⟩
                refine ⟨key :: q, v, by simpa using hq, ?_, hmap⟩
                rw [get?_map_cons, hf]
                exact hv
              · rintro ⟨q, v, hq, hv, hmap⟩
                cases q with
                | nil => cases hv; cases hmap
                | cons other q =>
                    obtain ⟨rfl, hq'⟩ := List.cons_prefix_cons.mp hq
                    rw [get?_map_cons, hf] at hv
                    exact ⟨q, v, hq', hv, hmap⟩
      | _ =>
          simp only [isOccupied, true_iff]
          exact .inr ⟨[], _, List.nil_prefix, get?_nil _, rfl⟩

theorem get?_eq_none_of_free (h : d.isOccupied q = false) : d.get? q = none := by
  rw [Bool.eq_false_iff, ne_eq, isOccupied_iff, not_or] at h
  exact Option.not_isSome_iff_eq_none.mp h.1

/-- Above an occupied path every path is occupied. -/
theorem isOccupied_of_isPrefix (h : d.isOccupied q = true) (hp : p <+: q) :
    d.isOccupied p = true := by
  rw [isOccupied_iff] at h ⊢
  rcases h with hsome | ⟨r, v, hr, hv, hmap⟩
  · exact .inl (isSome_get?_of_isPrefix hsome hp)
  · rcases List.prefix_or_prefix_of_prefix hr hp with hrp | hpr
    · exact .inr ⟨r, v, hrp, hv, hmap⟩
    · exact .inl (isSome_get?_of_isPrefix (by rw [hv]; rfl) hpr)

theorem ne_nil_of_free (h : d.isOccupied p = false) : p ≠ [] := by
  rintro rfl
  rw [isOccupied] at h
  cases h

/-- Below a free path every path is free. -/
theorem free_append (h : d.isOccupied p = false) (q : KeyPath) : d.isOccupied (p ++ q) = false := by
  rw [Bool.eq_false_iff] at h ⊢
  exact fun hocc => h (isOccupied_of_isPrefix hocc (List.prefix_append p q))

/-- Where a write succeeds nothing but mappings stood above its path. -/
theorem isMap_of_set (h : d.set path value = .ok d') (hp : p <+: path) (hne : p ≠ path)
    (hv : d.get? p = some v) : v.isMap = true := by
  induction path generalizing d d' p with
  | nil => exact absurd (List.prefix_nil.mp hp) hne
  | cons key rest ih =>
      obtain ⟨fields, child, rfl, hc, -⟩ := set_cons_eq_ok.mp h
      cases p with
      | nil => cases hv; rfl
      | cons other p =>
          obtain ⟨rfl, hp'⟩ := List.cons_prefix_cons.mp hp
          rw [get?_map_cons, Option.bind_eq_some_iff] at hv
          obtain ⟨old, hf, hv⟩ := hv
          rw [hf, Option.getD_some] at hc
          exact ih hc hp' (by simpa using hne) hv

/-- A replacement is a write. -/
theorem set_of_replace? (h : d.replace? path value = some d') : d.set path value = .ok d' := by
  induction path generalizing d d' with
  | nil =>
      rw [set_nil]
      cases d <;> cases h <;> rfl
  | cons key rest ih =>
      cases d with
      | map fields =>
          simp only [replace?, Option.bind_eq_bind, Option.bind_eq_some_iff] at h
          obtain ⟨child, hf, child', hc, h⟩ := h
          cases h
          exact set_cons_eq_ok.mpr ⟨fields, child', rfl, by rw [hf]; exact ih hc, rfl⟩
      | _ => cases h

/-- A removal takes a field out of a mapping and writes what is left of it. -/
theorem set_of_remove? (h : d.remove? (parent ++ [key]) = some (taken, d')) :
    ∃ fields, d.get? parent = some (.map fields) ∧ Keyed.find? key fields = some taken ∧
      d.set parent (.map (Keyed.erase key fields)) = .ok d' := by
  induction parent generalizing d d' with
  | nil =>
      cases d with
      | map fields =>
          simp only [List.nil_append, remove?, Option.bind_eq_bind, Option.bind_eq_some_iff] at h
          obtain ⟨found, hf, h⟩ := h
          cases h
          exact ⟨fields, rfl, hf, set_nil⟩
      | _ => cases h
  | cons first parent ih =>
      cases d with
      | map fields =>
          obtain ⟨second, more, hmore⟩ : ∃ second more, parent ++ [key] = second :: more :=
            List.exists_cons_of_ne_nil (by simp)
          rw [List.cons_append, hmore, remove?] at h
          · simp only [Option.bind_eq_bind, Option.bind_eq_some_iff] at h
            obtain ⟨child, hf, ⟨found, child'⟩, hc, h⟩ := h
            cases h
            rw [← hmore] at hc
            obtain ⟨inner, hget, hfound, hset⟩ := ih hc
            refine ⟨inner, ?_, hfound, set_cons_eq_ok.mpr ⟨fields, child', rfl, ?_, rfl⟩⟩
            · rw [get?_map_cons, hf]
              exact hget
            · rw [hf]
              exact hset
          · simp
      | _ => simp [remove?] at h

theorem get?_of_remove? (h : d.remove? (parent ++ [key]) = some (taken, d')) :
    d.get? (parent ++ [key]) = some taken := by
  obtain ⟨fields, hget, hfound, -⟩ := set_of_remove? h
  rw [get?_append, hget, Option.bind_some, get?_map_cons, hfound]
  rfl

/-- A removal reaches no path apart from its own. -/
theorem get?_remove?_of_apart (h : d.remove? (parent ++ [key]) = some (taken, d'))
    (hp : Apart p (parent ++ [key])) : d'.get? p = d.get? p := by
  obtain ⟨fields, hget, -, hset⟩ := set_of_remove? h
  rcases prefix_or_prefix_or_apart p parent with hpre | ⟨below, rfl⟩ | hapart
  · exact absurd (hpre.trans (List.prefix_append _ _)) hp.1
  · cases below with
    | nil => exact absurd (by simp) hp.1
    | cons first below =>
        have hne : key ≠ first := by
          rintro rfl
          exact hp.2 (by simp)
        rw [get?_set_append hset, get?_append, hget, Option.bind_some, get?_map_cons, get?_map_cons,
          Keyed.find?_erase_of_ne hne]
  · exact get?_set_of_apart hset hapart

/-- Above its path a removal leaves mappings. -/
theorem exists_isMap_of_remove? (h : d.remove? (parent ++ [key]) = some (taken, d'))
    (hp : p <+: parent) : ∃ v, d'.get? p = some v ∧ v.isMap = true := by
  obtain ⟨fields, -, -, hset⟩ := set_of_remove? h
  have hparent := get?_set_self hset
  by_cases heq : p = parent
  · exact ⟨_, heq ▸ hparent, rfl⟩
  · have hsome : (d'.get? p).isSome := isSome_get?_of_isPrefix (by rw [hparent]; rfl) hp
    obtain ⟨v, hv⟩ := Option.isSome_iff_exists.mp hsome
    exact ⟨v, hv, isMap_of_get?_set hset hp heq hv⟩

/-- Nothing is left at or below the path of a removal. -/
theorem get?_remove?_below (hd : d.Ordered) (h : d.remove? (parent ++ [key]) = some (taken, d')) :
    d'.get? (parent ++ [key] ++ rest) = none := by
  obtain ⟨fields, hget, -, hset⟩ := set_of_remove? h
  rw [List.append_assoc, get?_set_append hset, List.singleton_append, get?_map_cons,
    Keyed.find?_erase_self (hd.get? hget).sorted]
  rfl

theorem Ordered.remove? (hd : d.Ordered) (h : d.remove? (parent ++ [key]) = some (taken, d')) :
    d'.Ordered := by
  obtain ⟨fields, hget, -, hset⟩ := set_of_remove? h
  exact hd.set (hd.get? hget).erase hset

end Document

end ExperimentSuite
