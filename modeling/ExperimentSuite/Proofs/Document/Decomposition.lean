import ExperimentSuite.Proofs.Document.Assignment
import ExperimentSuite.Proofs.Document.Order

/-!
# Leaves as the parts of a document

The leaf paths of a mapping take it apart without loss: every value of it that
nothing stands below is found at one of them, an empty mapping included, so
setting these values from the empty mapping on, in whatever order, rebuilds it.
The paths can be collected in one walk that keeps the keys on its way and puts
them back before it goes on.
-/

namespace ExperimentSuite

namespace Document

open KeyPath

variable {d : Document} {fields : List (String × Document)}

/-- The walk over fields is back where it was, with their leaf paths found in addition. -/
theorem visitFields_eq
    (h : ∀ e ∈ fields, ∀ walk : LeafWalk, walk.visit e.2 =
      ⟨walk.path, walk.found ++ e.2.leafPathsBelow.map (walk.path ++ ·)⟩) (walk : LeafWalk) :
    walk.visitFields fields =
      ⟨walk.path, walk.found ++ (leafPathsIn fields).map (walk.path ++ ·)⟩ := by
  induction fields generalizing walk with
  | nil => simp [LeafWalk.visitFields, leafPathsIn]
  | cons e rest ih =>
      obtain ⟨he, hrest⟩ := List.forall_mem_cons.mp h
      rw [LeafWalk.visitFields, he, List.dropLast_concat, ih hrest, leafPathsIn, List.map_append,
        List.map_map, List.append_assoc]
      simp [Function.comp_def]

theorem visit_eq (d : Document) (walk : LeafWalk) :
    walk.visit d = ⟨walk.path, walk.found ++ d.leafPathsBelow.map (walk.path ++ ·)⟩ := by
  induction d using memberInduction generalizing walk with
  | map fields ih =>
      cases fields with
      | nil => simp [LeafWalk.visit, leafPathsBelow]
      | cons e rest =>
          rw [LeafWalk.visit, leafPathsBelow]
          exact visitFields_eq ih walk
  | _ => simp [LeafWalk.visit, leafPathsBelow]

/-- A mapping is sparse over its own leaf paths. -/
theorem sparse_leafPaths (hd : (map fields).Ordered) :
    Sparse (map fields).leafPaths (.map fields) where
  isMap := rfl
  ordered := hd
  holds q hq := by
    obtain ⟨-, v, hv, -⟩ := (mem_leafPaths_iff hd).mp hq
    rw [hv]
    rfl
  noOther p v hv := by
    by_cases hne : p = []
    · subst hne
      cases hv
      exact .inr ⟨rfl, .inl rfl⟩
    · cases hmap : v.isMap with
      | false =>
          have hleaf : p ∈ (map fields).leafPaths :=
            (mem_leafPaths_iff hd).mpr ⟨hne, v, hv, isLeaf_of_not_isMap hmap⟩
          exact .inl ⟨p, hleaf, List.prefix_rfl⟩
      | true =>
          obtain ⟨q, hq⟩ := exists_mem_leafPaths hd hne (by rw [hv]; rfl)
          exact .inr ⟨rfl, .inr ⟨p ++ q, hq, List.prefix_append p q⟩⟩

/-- Paths that take a document apart: in order, none above another one, each of them readable and
leading to a value that nothing stands below, and all these values together making up the document
again. -/
structure Decomposes (paths : List KeyPath) (d : Document) : Prop where
  proper : ∀ p ∈ paths, p ≠ []
  increasing : paths.Pairwise (· < ·)
  apart : paths.Pairwise fun p q => ¬ p <+: q ∧ ¬ q <+: p
  readable : ∀ p ∈ paths, ∃ v, d.get? p = some v ∧ v.isLeaf = true
  rebuilds : ∀ order, order.Perm paths → ∀ value : KeyPath → Document,
    (∀ p ∈ paths, d.get? p = some (value p)) → empty.setAll value order = .ok d

/-- The leaf paths of a mapping take it apart, and the walk over it finds exactly these. -/
theorem leafPaths_decompose (hd : (map fields).Ordered) :
    Decomposes (map fields).leafPaths (.map fields) ∧
      LeafWalk.visitFields ⟨[], []⟩ fields = ⟨[], (map fields).leafPaths⟩ := by
  have hproper : ∀ p ∈ (map fields).leafPaths, p ≠ [] :=
    fun p hp => ((mem_leafPaths_iff hd).mp hp).1
  constructor
  · exact {
      proper := hproper
      increasing := pairwise_leafPaths hd
      apart := pairwise_apart_leafPaths hd
      readable := fun p hp => ((mem_leafPaths_iff hd).mp hp).2
      rebuilds := fun order horder value hvalue =>
        Assigned.setAll_empty ⟨sparse_leafPaths hd, hvalue⟩ hproper (pairwise_apart_leafPaths hd)
          horder }
  · rw [visitFields_eq fun e _ => visit_eq e.2]
    simp [leafPaths]

/-- A host with two disks, one of them without settings, beside a list. -/
def diskDocument : Document :=
  .map [("disks", .map [("fast", .map [("size", .int 2)]), ("slow", .map [])]),
    ("runs", .list [.int 1, .int 2])]

/-- It is rebuilt also if the disk without settings is set before the other one. -/
theorem decompose_diskDocument :
    diskDocument.Ordered ∧
      diskDocument.leafPaths = [["disks", "fast", "size"], ["disks", "slow"], ["runs"]] ∧
      empty.setAll (fun p => (diskDocument.get? p).getD .null)
        [["disks", "slow"], ["disks", "fast", "size"], ["runs"]] = .ok diskDocument := by
  have hd : diskDocument.Ordered := by decide
  have hpaths : diskDocument.leafPaths =
      [["disks", "fast", "size"], ["disks", "slow"], ["runs"]] := rfl
  have hdecomposes : Decomposes diskDocument.leafPaths diskDocument := (leafPaths_decompose hd).1
  have hvalue : ∀ p ∈ diskDocument.leafPaths,
      diskDocument.get? p = some ((diskDocument.get? p).getD .null) := by
    intro p hp
    obtain ⟨v, hv, -⟩ := hdecomposes.readable p hp
    rw [hv, Option.getD_some]
  refine ⟨hd, hpaths, hdecomposes.rebuilds _ ?_ _ hvalue⟩
  rw [hpaths]
  exact .swap _ _ _

end Document

end ExperimentSuite
