import ExperimentSuite.Proofs.Document.Merge
import ExperimentSuite.Proofs.Document.Order
import ExperimentSuite.Proofs.Inclusion.Absorb

/-!
# Absorbing is merging with the roles swapped

Absorbing goes through the leaves of a source and tests each path against a
document that is being filled meanwhile; merging recurses on both documents at
once. Both fill the free places of the document from the source, and that much
determines the outcome. The test against the growing document decides as one
against the original would, since the leaves of a source stand apart.
-/

namespace ExperimentSuite

namespace Document

open KeyPath

variable {d d' target source v : Document} {p q : KeyPath} {paths : List KeyPath}

/-- A document has the values of a target and, on the paths that the target leaves free, those of a
source. -/
structure Filled (target source d : Document) : Prop where
  place : ∀ p, (d.get? p).isSome ↔
    (target.get? p).isSome ∨ target.isOccupied p = false ∧ (source.get? p).isSome
  value : ∀ p v, v.isMap = false → (d.get? p = some v ↔
    target.get? p = some v ∨ target.isOccupied p = false ∧ source.get? p = some v)

/-- There is only one way to fill a document. -/
theorem Filled.unique (h : Filled target source d) (h' : Filled target source d')
    (hd : d.Ordered) (hd' : d'.Ordered) : d = d' :=
  ext_get? hd hd' (fun p => (h.place p).trans (h'.place p).symm)
    fun p v hv => (h.value p v hv).trans (h'.value p v hv).symm

/-- Nothing stands on an occupied path that does not exist if the value in the way is kept. -/
theorem get?_eq_none_of_isOccupied (hp : target.isOccupied p = true) (hnone : target.get? p = none)
    (hkeeps : ∀ q v, target.get? q = some v → v.isMap = false → d.get? q = some v) :
    d.get? p = none := by
  rcases isOccupied_iff.mp hp with hsome | ⟨q, v, ⟨rest, rfl⟩, hv, hmap⟩
  · rw [hnone] at hsome
    cases hsome
  · cases rest with
    | nil =>
        rw [List.append_nil, hv] at hnone
        cases hnone
    | cons key rest =>
        rw [get?_append, hkeeps q v hv hmap, Option.bind_some,
          get?_cons_of_isLeaf (isLeaf_of_not_isMap hmap)]

theorem filled_merge (ht : target.Ordered) : Filled target source (source.merge target) := by
  have hkeeps : ∀ q v, target.get? q = some v → v.isMap = false →
      (source.merge target).get? q = some v := by
    intro q v hv hmap
    rw [get?_merge_of_get? ht hv]
    cases source.get? q with
    | none => rfl
    | some old => rw [Option.map_some, merge_eq_right hmap, Option.getD_some]
  constructor
  · intro p
    cases hfree : target.isOccupied p with
    | false => simp [get?_merge_of_free ht hfree, get?_eq_none_of_free hfree]
    | true =>
        cases hw : target.get? p with
        | none => simp [get?_eq_none_of_isOccupied hfree hw hkeeps]
        | some w => simp [get?_merge_of_get? ht hw]
  · intro p v hmap
    cases hfree : target.isOccupied p with
    | false => simp [get?_merge_of_free ht hfree, get?_eq_none_of_free hfree]
    | true =>
        cases hw : target.get? p with
        | none => simp [get?_eq_none_of_isOccupied hfree hw hkeeps]
        | some w =>
            cases hwmap : w.isMap with
            | false => simp [hkeeps p w hw hwmap]
            | true =>
                have hmerged : (((source.get? p).map (·.merge w)).getD w).isMap = true := by
                  cases source.get? p <;> simp [isMap_merge, hwmap]
                have hne : ∀ u : Document, u.isMap = true → u ≠ v := by
                  rintro u hu rfl
                  rw [hu] at hmap
                  cases hmap
                simp [get?_merge_of_get? ht hw, hne _ hwmap, hne _ hmerged]

theorem filled_of_absorb {report : InclusionReport} (hs : source.Ordered)
    (h : target.absorb source = .ok (d, report)) : Filled target source d := by
  have habsorbed := absorbed_of_absorb hs h
  have hexists : ∀ q ∈ source.leafPaths, (source.get? q).isSome := by
    intro q hq
    obtain ⟨-, v, hv, -⟩ := (mem_leafPaths_iff hs).mp hq
    rw [hv]
    rfl
  constructor
  · intro p
    constructor
    · intro hp
      rcases isSome_of_absorbLeaves hexists h hp with htarget | hsource
      · exact .inl htarget
      · cases hfree : target.isOccupied p with
        | false => exact .inr ⟨rfl, hsource⟩
        | true =>
            refine .inl (Option.isSome_iff_ne_none.mpr fun hnone => ?_)
            rw [get?_eq_none_of_isOccupied hfree hnone habsorbed.keeps] at hp
            cases hp
    · rintro (htarget | ⟨hfree, hsource⟩)
      · exact habsorbed.retains p htarget
      · obtain ⟨below, hleaf⟩ := exists_mem_leafPaths hs (ne_nil_of_free hfree) hsource
        exact isSome_get?_of_isPrefix (habsorbed.enters _ hleaf (free_append hfree below))
          (List.prefix_append p below)
  · intro p v hmap
    constructor
    · intro hv
      rcases habsorbed.origin p v hv hmap with htarget | ⟨-, hsource⟩
      · exact .inl htarget
      · cases hfree : target.isOccupied p with
        | false => exact .inr ⟨rfl, hsource⟩
        | true => exact .inl (get?_of_isOccupied hs h hfree hv hmap)
    · rintro (htarget | ⟨hfree, hsource⟩)
      · exact habsorbed.keeps p v htarget hmap
      · have hleaf : p ∈ source.leafPaths :=
          (mem_leafPaths_iff hs).mpr ⟨ne_nil_of_free hfree, v, hsource, isLeaf_of_not_isMap hmap⟩
        exact habsorbed.takes p hleaf v hsource hmap hfree

/-- A free path can be written. -/
theorem exists_set_of_free (h : d.isOccupied p = false) : ∃ d', d.set p v = .ok d' := by
  rw [Bool.eq_false_iff, ne_eq, isOccupied_iff, not_or] at h
  refine exists_set fun q w hq _ hw => Bool.eq_true_of_not_eq_false fun hmap => ?_
  exact h.2 ⟨q, w, hq, hw, hmap⟩

/-- Leaves that stand apart are absorbed without fail, and the report sorts them by whether their
paths were occupied at the outset. -/
theorem exists_absorbLeaves (d source : Document) (h : paths.Pairwise Apart) :
    ∃ d', absorbLeaves source paths d =
      .ok (d', ⟨paths.filter fun q => !d.isOccupied q, paths.filter d.isOccupied⟩) := by
  induction paths generalizing d with
  | nil => exact ⟨d, rfl⟩
  | cons path rest ih =>
      obtain ⟨hapart, hrest⟩ := List.pairwise_cons.mp h
      rw [absorbLeaves]
      cases hpath : d.isOccupied path with
      | true =>
          obtain ⟨d', hd'⟩ := ih d hrest
          refine ⟨d', ?_⟩
          rw [if_pos rfl, hd']
          simp [hpath]
      | false =>
          obtain ⟨middle, hmiddle⟩ := exists_set_of_free (v := (source.get? path).getD .null) hpath
          obtain ⟨d', hd'⟩ := ih middle hrest
          have hsame : ∀ q ∈ rest, middle.isOccupied q = d.isOccupied q :=
            fun q hq => isOccupied_set_of_apart hmiddle (hapart q hq).symm
          have hfree : (rest.filter fun q => !middle.isOccupied q) =
              rest.filter fun q => !d.isOccupied q :=
            List.filter_congr fun q hq => by rw [hsame q hq]
          refine ⟨d', ?_⟩
          rw [if_neg (by simp), hmiddle]
          simp only [hd', hfree, List.filter_congr hsame]
          simp [hpath]

/-- Absorbing never fails, merges the document over the source, and reports every leaf of the
source once, in order, by whether the document had its path occupied. -/
theorem absorb_eq_merge (ht : target.Ordered) (hs : source.Ordered) :
    target.absorb source = .ok (source.merge target,
      { included := source.leafPaths.filter fun path => !target.isOccupied path
        skipped := source.leafPaths.filter target.isOccupied }) ∧
    source.leafPaths.Nodup := by
  refine ⟨?_, nodup_leafPaths hs⟩
  obtain ⟨d, hd⟩ := exists_absorbLeaves target source (pairwise_apart_leafPaths hs)
  have hmerge : d = source.merge target :=
    (filled_of_absorb hs hd).unique (filled_merge ht) (Ordered.absorbLeaves ht hs hd) (hs.merge ht)
  rw [absorb, hd, hmerge]

/-- Own settings, with an empty mapping and a scalar where the shared ones have mappings. -/
def ownSettings : Document :=
  .map [("hollow", .map []), ("mode", .str "slow"), ("net", .map [("rate", .nat 1)]),
    ("seed", .nat 5)]

/-- Shared settings that the own ones meet in every way. -/
def sharedSettings : Document :=
  .map [("hollow", .map [("z", .nat 1)]), ("list", .list [.map []]), ("mode", .str "fast"),
    ("net", .map [("loss", .map []), ("rate", .nat 2)]), ("seed", .map [("deep", .nat 1)])]

theorem absorb_sharedSettings :
    (ownSettings.Ordered ∧ sharedSettings.Ordered) ∧
    ownSettings.absorb sharedSettings = .ok
      (.map [("hollow", .map [("z", .nat 1)]), ("list", .list [.map []]), ("mode", .str "slow"),
          ("net", .map [("loss", .map []), ("rate", .nat 1)]), ("seed", .nat 5)],
        { included := [["hollow", "z"], ["list"], ["net", "loss"]]
          skipped := [["mode"], ["net", "rate"], ["seed", "deep"]] }) ∧
    sharedSettings.leafPaths.Nodup := by
  have ht : ownSettings.Ordered := by decide
  have hs : sharedSettings.Ordered := by decide
  exact ⟨⟨ht, hs⟩, absorb_eq_merge ht hs⟩

end Document

end ExperimentSuite
