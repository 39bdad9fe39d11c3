import ExperimentSuite.Proofs.Document.Leaves

/-!
# Writing as a lens

A write walks down to its place and enters the mappings that are missing on the
way, before it knows whether it will get through. It still fails as a whole or
not at all: a mapping that it entered is empty, so nothing below it blocks the
walk, and a walk that is blocked has entered nothing. What a successful write
shows afterwards, and which paths count as occupied, follows from where values
that are no mappings stand.
-/

namespace ExperimentSuite

namespace Document

open KeyPath

variable {d d' value v : Document} {key : String} {p path rest : KeyPath} {blocked : Blocked}
  {fields : List (String × Document)}

@[simp] theorem setInPlace_nil : d.setInPlace [] value = (value, none) := by
  cases d <;> rfl

theorem setInPlace_map_cons :
    (map fields).setInPlace (key :: rest) value =
      let walked := ((Keyed.find? key fields).getD .empty).setInPlace rest value
      (.map (Keyed.insert key walked.1 fields), walked.2) := rfl

/-- A write is what the walk leaves unless it is blocked. -/
theorem set_eq_setInPlace (d : Document) (path : KeyPath) (value : Document) :
    d.set path value =
      match d.setInPlace path value with
      | (d', none) => .ok d'
      | (_, some blocked) => .error blocked := by
  induction path generalizing d with
  | nil => rw [set_nil, setInPlace_nil]
  | cons key rest ih =>
      cases d with
      | map fields =>
          rw [set, ih, setInPlace_map_cons]
          obtain ⟨child, blocked⟩ := ((Keyed.find? key fields).getD .empty).setInPlace rest value
          cases blocked <;> rfl
      | _ => cases rest <;> rfl

/-- Below a mapping that was just entered nothing blocks the walk. -/
theorem setInPlace_empty (path : KeyPath) (value : Document) :
    (empty.setInPlace path value).2 = none := by
  induction path with
  | nil => rw [setInPlace_nil]
  | cons key rest ih => exact ih

/-- A walk that is blocked has changed nothing. -/
theorem eq_of_setInPlace (hd : d.Ordered) (h : d.setInPlace path value = (d', some blocked)) :
    d' = d := by
  induction path generalizing d d' with
  | nil => rw [setInPlace_nil] at h; cases h
  | cons key rest ih =>
      cases d with
      | map fields =>
          rw [setInPlace_map_cons, Prod.mk.injEq] at h
          obtain ⟨rfl, hblocked⟩ := h
          cases hf : Keyed.find? key fields with
          | none =>
              rw [hf, Option.getD_none, setInPlace_empty] at hblocked
              cases hblocked
          | some child =>
              rw [hf, Option.getD_some] at hblocked
              have hsame : (child.setInPlace rest value).1 = child :=
                ih (hd.find? hf) (Prod.ext rfl hblocked)
              rw [Option.getD_some, hsame, Keyed.insert_eq_self hd.sorted hf]
      | _ => cases rest <;> cases h <;> rfl

/-- A write gets through exactly if nothing but mappings stands above its path. -/
theorem exists_set_iff :
    (∃ d', d.set path value = .ok d') ↔
      ∀ p v, p <+: path → p ≠ path → d.get? p = some v → v.isMap = true :=
  ⟨fun ⟨_, h⟩ _ _ hp hne => isMap_of_set h hp hne, exists_set⟩

/-- A path below the root is free exactly if nothing stands there and a write gets through. -/
theorem free_iff (hne : path ≠ []) :
    d.isOccupied path = false ↔ d.get? path = none ∧ ∃ d', d.set path value = .ok d' := by
  rw [Bool.eq_false_iff, ne_eq, isOccupied_iff, not_or, Option.not_isSome_iff_eq_none,
    exists_set_iff]
  refine and_congr_right fun hnone => ⟨fun h p v hp _ hv => ?_, ?_⟩
  · exact Bool.eq_true_of_not_eq_false fun hmap => h ⟨p, v, hp, hv, hmap⟩
  · rintro h ⟨p, v, hp, hv, hmap⟩
    have hstrict : p ≠ path := by
      rintro rfl
      rw [hnone] at hv
      cases hv
    rw [h p v hp hstrict hv] at hmap
    cases hmap

/-- A value that is no mapping outlasts a write to a free path. -/
theorem get?_set_of_free (h : d.set path value = .ok d') (hfree : d.get? path = none)
    (hp : d.get? p = some v) (hv : v.isMap = false) : d'.get? p = some v := by
  rcases prefix_or_prefix_or_apart p path with hpre | ⟨rest, rfl⟩ | hapart
  · by_cases heq : p = path
    · rw [heq, hfree] at hp
      cases hp
    · rw [isMap_of_set h hpre heq hp] at hv
      cases hv
  · rw [get?_append, hfree] at hp
    cases hp
  · rw [get?_set_of_apart h hapart]
    exact hp

/-- What a write of a value at a path is to a document. -/
structure IsLens (d : Document) (path : KeyPath) (value : Document) : Prop where
  /-- The walk ends with what the write returns, and where the write fails with what was there. -/
  walks : d.setInPlace path value =
    match d.set path value with
    | .ok d' => (d', none)
    | .error blocked => (d, some blocked)
  succeeds_iff : (∃ d', d.set path value = .ok d') ↔
    path = [] ∨ ∀ p v, p <+: path → p ≠ path → d.get? p = some v → v.isMap = true
  shows : ∀ d', d.set path value = .ok d' → d'.get? path = some value
  keeps : ∀ d', d.set path value = .ok d' → ∀ p, (d.get? p).isSome → ¬ p <+: path → ¬ path <+: p →
    d'.get? p = d.get? p
  free_iff : path ≠ [] →
    (d.isOccupied path = false ↔ d.get? path = none ∧ ∃ d', d.set path value = .ok d')
  keeps_of_free : path ≠ [] → d.isOccupied path = false → ∀ d', d.set path value = .ok d' →
    ∀ p v, d.get? p = some v → v.isMap = false → d'.get? p = some v

/-- Every write is a lens that fails without a trace, and occupation predicts it. -/
theorem set_isLens (hd : d.Ordered) (path : KeyPath) (value : Document) :
    IsLens d path value where
  walks := by
    rw [set_eq_setInPlace]
    cases hwalk : d.setInPlace path value with
    | mk d' blocked =>
        cases blocked with
        | none => rfl
        | some blocked => rw [eq_of_setInPlace hd hwalk]
  succeeds_iff := by
    rw [exists_set_iff]
    refine ⟨.inr, ?_⟩
    rintro (rfl | h)
    · exact fun p v hp hne => absurd (List.prefix_nil.mp hp) hne
    · exact h
  shows _ h := get?_set_self h
  keeps _ h _ _ hp hpath := get?_set_of_apart h ⟨hp, hpath⟩
  free_iff := Document.free_iff
  keeps_of_free _ hfree _ h _ _ := get?_set_of_free h (get?_eq_none_of_free hfree)

/-- A host with its size, beside a number of runs. -/
def hostDocument : Document :=
  .map [("host", .map [("size", .int 2)]), ("runs", .int 5)]

/-- A write enters a mapping below the host. A write below the number of runs is blocked where its
first key should be entered, and leaves the document as it was. -/
theorem set_hostDocument :
    hostDocument.Ordered ∧
      (hostDocument.isOccupied ["host", "disk", "kind"] = false ∧
        ∃ d', hostDocument.set ["host", "disk", "kind"] (.str "ssd") = .ok d' ∧
          d'.get? ["host", "disk", "kind"] = some (.str "ssd") ∧
          d'.get? ["host", "size"] = some (.int 2) ∧ d'.get? ["runs"] = some (.int 5)) ∧
      hostDocument.setInPlace ["runs", "limit", "kind"] .null =
        (hostDocument, some (.passing "limit")) := by
  have hd : hostDocument.Ordered := by decide
  have hfree : hostDocument.isOccupied ["host", "disk", "kind"] = false := by decide
  have hlens := set_isLens hd ["host", "disk", "kind"] (.str "ssd")
  obtain ⟨-, d', h⟩ := (hlens.free_iff (by decide)).mp hfree
  have hkeeps := hlens.keeps_of_free (by decide) hfree d' h
  exact ⟨hd, ⟨hfree, d', h, hlens.shows d' h, hkeeps _ _ rfl rfl, hkeeps _ _ rfl rfl⟩,
    (set_isLens hd ["runs", "limit", "kind"] .null).walks⟩

end Document

end ExperimentSuite
