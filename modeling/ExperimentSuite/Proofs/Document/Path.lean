import ExperimentSuite.Document.Path
import ExperimentSuite.Proofs.Document.Ordered
import ExperimentSuite.Proofs.Outcome
import Mathlib.Data.List.Infix

/-!
# Reading and writing at key paths

A write succeeds exactly where no value that is no mapping stands on the way,
reads back at its own path, leaves mappings above it and does not reach any
path that is neither above nor below it. Two paths are apart when none of them
is a prefix of the other one; those of different leaves always are.
-/

namespace ExperimentSuite

namespace KeyPath

variable {α : Type} {p q : List α}

/-- None of two paths, of keys or of other steps, is a prefix of the other. -/
def Apart (p q : List α) : Prop :=
  ¬ p <+: q ∧ ¬ q <+: p

theorem Apart.symm (h : Apart p q) : Apart q p :=
  ⟨h.2, h.1⟩

theorem apart_cons {step : α} : Apart (step :: p) (step :: q) ↔ Apart p q := by
  simp [Apart]

theorem not_apart_nil : ¬ Apart [] p :=
  fun h => h.1 List.nil_prefix

/-- Paths that continue one path by different steps never coincide. -/
theorem key_eq_of_isPrefix {path : List α} {step other : α} (h : path ++ [step] <+: q)
    (h' : path ++ [other] <+: q) : step = other := by
  have := List.prefix_of_prefix_length_le h h' (by simp)
  simpa using this

/-- A path is above, below or apart from another one. -/
theorem prefix_or_prefix_or_apart (p q : List α) : p <+: q ∨ q <+: p ∨ Apart p q := by
  by_cases hp : p <+: q
  · exact .inl hp
  · by_cases hq : q <+: p
    · exact .inr (.inl hq)
    · exact .inr (.inr ⟨hp, hq⟩)

end KeyPath

namespace Document

open KeyPath

variable {d d' value v : Document} {key : String} {p q path rest : KeyPath}
  {fields : List (String × Document)}

@[simp] theorem get?_nil (d : Document) : d.get? [] = some d := by
  cases d <;> rfl

theorem get?_map_cons :
    (map fields).get? (key :: rest) = (Keyed.find? key fields).bind (get? · rest) := rfl

theorem get?_singleton : d.get? [key] = d.field? key := by
  cases d with
  | map fields =>
      rw [get?_map_cons, field?]
      cases Keyed.find? key fields <;> simp
  | _ => rfl

theorem get?_append (d : Document) (p q : KeyPath) :
    d.get? (p ++ q) = (d.get? p).bind (get? · q) := by
  induction p generalizing d with
  | nil => simp
  | cons key p ih =>
      cases d with
      | map fields =>
          rw [List.cons_append, get?_map_cons, get?_map_cons]
          cases Keyed.find? key fields with
          | none => rfl
          | some child => exact ih child
      | _ => rfl

theorem get?_concat (h : d.get? p = some (.map fields)) :
    d.get? (p ++ [key]) = Keyed.find? key fields := by
  rw [get?_append, h, Option.bind_some, get?_map_cons]
  cases Keyed.find? key fields <;> simp

/-- Whatever stands above an existing place is a mapping. -/
theorem isMap_of_get?_cons (h : d.get? (key :: rest) = some v) : d.isMap = true := by
  cases d with
  | map fields => rfl
  | _ => cases h

theorem isMap_of_get?_append (hd : d.get? p = some d') (h : (d.get? (p ++ key :: rest)).isSome) :
    d'.isMap = true := by
  obtain ⟨v, hv⟩ := Option.isSome_iff_exists.mp h
  rw [get?_append, hd] at hv
  exact isMap_of_get?_cons hv

theorem isSome_get?_of_isPrefix (h : (d.get? q).isSome) (hp : p <+: q) : (d.get? p).isSome := by
  obtain ⟨rest, rfl⟩ := hp
  rw [get?_append] at h
  cases hd : d.get? p with
  | none => simp [hd] at h
  | some _ => rfl

/-- Whether nothing stands below a value. -/
def isLeaf : Document → Bool
  | .map (_ :: _) => false
  | _ => true

theorem isLeaf_of_not_isMap (h : d.isMap = false) : d.isLeaf = true := by
  cases d with
  | map fields => cases h
  | _ => rfl

theorem get?_cons_of_isLeaf (h : d.isLeaf = true) : d.get? (key :: rest) = none := by
  cases d with
  | map fields =>
      cases fields with
      | nil => rfl
      | cons _ _ => cases h
  | _ => rfl

/-- Leaves at different paths stand apart. -/
theorem apart_of_isLeaf {w : Document} (hp : d.get? p = some v) (hv : v.isLeaf = true)
    (hq : d.get? q = some w) (hw : w.isLeaf = true) (hne : p ≠ q) : Apart p q := by
  have hno : ∀ {p q : KeyPath} {v w : Document}, d.get? p = some v → v.isLeaf = true →
      d.get? q = some w → p ≠ q → ¬ p <+: q := by
    rintro p _ v w hp hv hq hne ⟨rest, rfl⟩
    cases rest with
    | nil => exact hne (List.append_nil p).symm
    | cons key rest =>
        rw [get?_append, hp, Option.bind_some, get?_cons_of_isLeaf hv] at hq
        cases hq
  exact ⟨hno hp hv hq hne, hno hq hw hp hne.symm⟩

/-- Values that are no mappings never stand above each other. -/
theorem apart_of_not_isMap {w : Document} (hp : d.get? p = some v) (hv : v.isMap = false)
    (hq : d.get? q = some w) (hw : w.isMap = false) (hne : p ≠ q) : Apart p q :=
  apart_of_isLeaf hp (isLeaf_of_not_isMap hv) hq (isLeaf_of_not_isMap hw) hne

theorem Ordered.get? (hd : d.Ordered) (h : d.get? p = some v) : v.Ordered := by
  induction p generalizing d with
  | nil => rw [get?_nil] at h; cases h; exact hd
  | cons key p ih =>
      cases d with
      | map fields =>
          rw [get?_map_cons, Option.bind_eq_some_iff] at h
          obtain ⟨child, hf, hc⟩ := h
          exact ih (hd.find? hf) hc
      | _ => cases h

/-- Ordered documents with the same places and, at them, the same values that are no mappings are
equal. -/
theorem ext_get? (hd : d.Ordered) (hd' : d'.Ordered)
    (hplace : ∀ p, (d.get? p).isSome ↔ (d'.get? p).isSome)
    (hvalue : ∀ p v, v.isMap = false → (d.get? p = some v ↔ d'.get? p = some v)) : d = d' := by
  induction d using memberInduction generalizing d' with
  | map fields ih =>
      obtain ⟨fields', rfl⟩ : ∃ fields', d' = .map fields' := by
        refine isMap_iff.mp (Bool.eq_true_of_not_eq_false fun hmap => ?_)
        cases (hvalue [] d' hmap).mpr (get?_nil d')
        cases hmap
      congr 1
      apply Keyed.ext hd.sorted hd'.sorted
      intro key
      have hkey := hplace [key]
      rw [get?_singleton, get?_singleton, field?, field?] at hkey
      cases hf : Keyed.find? key fields with
      | none =>
          rw [hf] at hkey
          exact (Option.not_isSome_iff_eq_none.mp (hkey.not.mp (by simp))).symm
      | some child =>
          rw [hf] at hkey
          obtain ⟨child', hf'⟩ := Option.isSome_iff_exists.mp (hkey.mp rfl)
          have hchild : ∀ p, (Document.map fields).get? (key :: p) = child.get? p := fun p => by
            rw [get?_map_cons, hf, Option.bind_some]
          have hchild' : ∀ p, (Document.map fields').get? (key :: p) = child'.get? p := fun p => by
            rw [get?_map_cons, hf', Option.bind_some]
          have heq : child = child' := by
            refine ih _ (Keyed.mem_of_find? hf) (hd.find? hf) (hd'.find? hf') (fun p => ?_)
              fun p v hv => ?_
            · rw [← hchild, ← hchild', hplace]
            · rw [← hchild, ← hchild', hvalue _ v hv]
          rw [hf', heq]
  | _ =>
      have hroot := (hvalue [] _ rfl).mp (get?_nil _)
      rw [get?_nil, Option.some.injEq] at hroot
      exact hroot.symm

/-- A write below the root goes through a mapping and writes into the child under the first key,
an empty mapping where there is none. -/
theorem set_cons_eq_ok :
    d.set (key :: rest) value = .ok d' ↔
      ∃ fields child, d = .map fields ∧
        ((Keyed.find? key fields).getD .empty).set rest value = .ok child ∧
        d' = .map (Keyed.insert key child fields) := by
  cases d with
  | map fields =>
      rw [set, Outcome.bind_eq_ok]
      constructor
      · rintro ⟨child, hc, hd⟩
        cases hd
        exact ⟨fields, child, rfl, hc, rfl⟩
      · rintro ⟨_, child, heq, hc, rfl⟩
        cases heq
        exact ⟨child, hc, rfl⟩
  | _ => cases rest <;> simp [set]

@[simp] theorem set_nil : d.set [] value = .ok value := by
  cases d <;> rfl

/-- A write fails only at a value that is no mapping and stands above its path. -/
theorem exists_set (h : ∀ p v, p <+: path → p ≠ path → d.get? p = some v → v.isMap = true) :
    ∃ d', d.set path value = .ok d' := by
  induction path generalizing d with
  | nil => exact ⟨value, set_nil⟩
  | cons key rest ih =>
      obtain ⟨fields, rfl⟩ := isMap_iff.mp
        (h [] d List.nil_prefix (by simp) (get?_nil d))
      have hchild : ∀ p v, p <+: rest → p ≠ rest →
          ((Keyed.find? key fields).getD .empty).get? p = some v → v.isMap = true := by
        intro p v hp hne hv
        cases hf : Keyed.find? key fields with
        | none =>
            rw [hf] at hv
            cases p with
            | nil => cases hv; rfl
            | cons _ _ => cases hv
        | some child =>
            rw [hf] at hv
            refine h (key :: p) v (by simpa using hp) (by simpa using hne) ?_
            rw [get?_map_cons, hf]
            exact hv
      obtain ⟨child, hc⟩ := ih hchild
      exact ⟨_, set_cons_eq_ok.mpr ⟨fields, child, rfl, hc, rfl⟩⟩

theorem get?_set_self (h : d.set path value = .ok d') : d'.get? path = some value := by
  induction path generalizing d d' with
  | nil => rw [set_nil] at h; cases h; simp
  | cons key rest ih =>
      obtain ⟨fields, child, rfl, hc, rfl⟩ := set_cons_eq_ok.mp h
      rw [get?_map_cons, Keyed.find?_insert_self]
      exact ih hc

/-- Below its path a write shows what it wrote. -/
theorem get?_set_append (h : d.set path value = .ok d') (p : KeyPath) :
    d'.get? (path ++ p) = value.get? p := by
  rw [get?_append, get?_set_self h]
  rfl

/-- Above its path a write leaves mappings. -/
theorem isMap_of_get?_set (h : d.set path value = .ok d') (hp : p <+: path) (hne : p ≠ path)
    (hv : d'.get? p = some v) : v.isMap = true := by
  obtain ⟨rest, rfl⟩ := hp
  cases rest with
  | nil => exact absurd (List.append_nil p).symm hne
  | cons key rest =>
      exact isMap_of_get?_append hv (by rw [get?_set_self h]; rfl)

/-- A write reaches no path apart from its own. -/
theorem get?_set_of_apart (h : d.set path value = .ok d') (hp : Apart p path) :
    d'.get? p = d.get? p := by
  induction path generalizing d d' p with
  | nil => exact absurd hp.symm not_apart_nil
  | cons key rest ih =>
      obtain ⟨fields, child, rfl, hc, rfl⟩ := set_cons_eq_ok.mp h
      cases p with
      | nil => exact absurd hp not_apart_nil
      | cons other p =>
          rw [get?_map_cons, get?_map_cons]
          by_cases hkey : key = other
          · subst hkey
            have hp' := apart_cons.mp hp
            rw [Keyed.find?_insert_self, Option.bind_some, ih hc hp']
            cases hf : Keyed.find? key fields with
            | some _ => rfl
            | none =>
                -- a missing child was written as an empty mapping, which holds nothing below
                cases p with
                | nil => exact absurd hp' not_apart_nil
                | cons _ _ => rfl
          · rw [Keyed.find?_insert_of_ne hkey]

theorem Ordered.set (hd : d.Ordered) (hv : value.Ordered) (h : d.set path value = .ok d') :
    d'.Ordered := by
  induction path generalizing d d' with
  | nil => rw [set_nil] at h; cases h; exact hv
  | cons key rest ih =>
      obtain ⟨fields, child, rfl, hc, rfl⟩ := set_cons_eq_ok.mp h
      have hold : ((Keyed.find? key fields).getD .empty).Ordered := by
        cases hf : Keyed.find? key fields with
        | none => exact ordered_empty
        | some _ => exact hd.find? hf
      exact hd.insert (ih hold hc)

end Document

end ExperimentSuite
