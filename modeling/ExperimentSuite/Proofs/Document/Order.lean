import ExperimentSuite.Proofs.Document.Leaves
import Mathlib.Data.List.Lex

/-!
# Document order

Paths are compared key by key. The fields of a mapping stand in the order of
their keys, so whatever is collected field after field, each at a path through
its own field, comes in increasing order. The leaf paths of a document are
collected like this; no two of them coincide or stand above each other.
-/

namespace ExperimentSuite

namespace KeyPath

variable {α : Type} {key other : String} {p q path : KeyPath} {fields : List (String × α)}
  {paths : String × α → List KeyPath}

/-- Paths that continue one path by different keys come in the order of these keys. -/
theorem lt_of_key_lt (h : key < other) (hp : path ++ [key] <+: p) (hq : path ++ [other] <+: q) :
    p < q := by
  obtain ⟨below, rfl⟩ := hp
  obtain ⟨below', rfl⟩ := hq
  induction path with
  | nil => exact List.cons_lt_cons_iff.mpr (.inl h)
  | cons first rest ih => exact List.cons_lt_cons_iff.mpr (.inr ⟨rfl, ih⟩)

/-- Paths collected field after field increase if those of each field do. -/
theorem pairwise_flatMap (hs : Keyed.Sorted fields)
    (hpre : ∀ e ∈ fields, ∀ q ∈ paths e, path ++ [e.1] <+: q)
    (h : ∀ e ∈ fields, (paths e).Pairwise (· < ·)) :
    (fields.flatMap paths).Pairwise (· < ·) := by
  refine List.pairwise_flatMap.mpr ⟨h, hs.imp_of_mem fun {a b} ha hb hlt => ?_⟩
  exact fun p hp q hq => lt_of_key_lt hlt (hpre a ha p hp) (hpre b hb q hq)

section Fields

variable {γ : Type} {items : String × α → List γ} {x : γ}

/-- What is collected field after field, each at a path through its own field, comes from the field
that its path leads through. -/
theorem mem_flatMap_iff (locate : γ → KeyPath) (hs : Keyed.Sorted fields)
    (hpre : ∀ e ∈ fields, ∀ y ∈ items e, path ++ [e.1] <+: locate y) (hx : locate x = path ++ p) :
    x ∈ fields.flatMap items ↔ ∃ key rest a, p = key :: rest ∧
      Keyed.find? key fields = some a ∧ x ∈ items (key, a) := by
  rw [List.mem_flatMap]
  constructor
  · rintro ⟨e, he, hmem⟩
    have hkey : [e.1] <+: p := by simpa [hx] using hpre e he x hmem
    obtain ⟨rest, rfl⟩ := hkey
    exact ⟨e.1, rest, e.2, rfl, Keyed.find?_of_mem hs he, hmem⟩
  · rintro ⟨key, rest, a, -, ha, hmem⟩
    exact ⟨(key, a), Keyed.mem_of_find? ha, hmem⟩

end Fields

end KeyPath

namespace Document

open KeyPath

variable {d : Document} {fields : List (String × Document)}

theorem leafPathsIn_eq_flatMap :
    leafPathsIn fields = fields.flatMap fun e => e.2.leafPathsBelow.map (e.1 :: ·) := by
  induction fields with
  | nil => rfl
  | cons e rest ih => rw [leafPathsIn, ih, List.flatMap_cons]

theorem pairwise_leafPathsIn (hs : Keyed.Sorted fields)
    (h : ∀ e ∈ fields, e.2.leafPathsBelow.Pairwise (· < ·)) :
    (leafPathsIn fields).Pairwise (· < ·) := by
  rw [leafPathsIn_eq_flatMap]
  have hpre : ∀ e ∈ fields, ∀ q ∈ e.2.leafPathsBelow.map (e.1 :: ·), [] ++ [e.1] <+: q := by
    intro e _ q hq
    obtain ⟨below, -, rfl⟩ := List.mem_map.mp hq
    simp
  refine pairwise_flatMap hs hpre fun e he => List.pairwise_map.mpr ?_
  exact (h e he).imp fun hlt => List.cons_lt_cons_iff.mpr (.inr ⟨rfl, hlt⟩)

theorem pairwise_leafPathsBelow (hd : d.Ordered) : d.leafPathsBelow.Pairwise (· < ·) := by
  induction d using memberInduction with
  | map fields ih =>
      cases fields with
      | nil => exact List.pairwise_singleton ..
      | cons e rest =>
          rw [leafPathsBelow]
          exact pairwise_leafPathsIn hd.sorted fun e he => ih e he ((ordered_map_iff.mp hd).2 e he)
  | _ => exact List.pairwise_singleton ..

/-- Leaf paths come in document order. -/
theorem pairwise_leafPaths (hd : d.Ordered) : d.leafPaths.Pairwise (· < ·) := by
  cases d with
  | map fields =>
      exact pairwise_leafPathsIn hd.sorted
        fun e he => pairwise_leafPathsBelow ((ordered_map_iff.mp hd).2 e he)
  | _ => exact .nil

theorem nodup_leafPaths (hd : d.Ordered) : d.leafPaths.Nodup :=
  (pairwise_leafPaths hd).nodup

/-- Leaf paths stand apart from each other. -/
theorem pairwise_apart_leafPaths (hd : d.Ordered) : d.leafPaths.Pairwise Apart := by
  refine (nodup_leafPaths hd).imp_of_mem fun hp hq hne => ?_
  obtain ⟨-, v, hv, hvleaf⟩ := (mem_leafPaths_iff hd).mp hp
  obtain ⟨-, w, hw, hwleaf⟩ := (mem_leafPaths_iff hd).mp hq
  exact apart_of_isLeaf hv hvleaf hw hwleaf hne

end Document

end ExperimentSuite
