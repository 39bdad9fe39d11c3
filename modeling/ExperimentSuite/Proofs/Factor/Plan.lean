import ExperimentSuite.Factor.Plan
import ExperimentSuite.Proofs.Document.Path
import Mathlib.Data.List.Nodup

/-!
# What extraction finds

The plan of a configuration, place by place: a bare marker becomes a path whose
levels the entries supply, a mapping with the marker as its only key becomes a
crossed factor, and everything else stays in the skeleton. The induction over a
successful extraction is stated once and carries every fact about plans, among
them that the skeleton holds a bare marker at each factor, so that no factor
stands above another one.
-/

namespace ExperimentSuite

namespace Document

variable {d v : Document} {fields : List (String × Document)} {p : KeyPath}

theorem hasMarkerFields_eq_false_iff :
    hasMarkerFields fields = false ↔
      ∀ e ∈ fields, e.1 ≠ Vocabulary.factor ∧ e.2.hasMarker = false := by
  induction fields with
  | nil => simp [hasMarkerFields]
  | cons e rest ih => simp [hasMarkerFields, ih]

/-- Nothing inside a document without markers has one. -/
theorem hasMarker_of_get? (hd : d.hasMarker = false) (h : d.get? p = some v) :
    v.hasMarker = false := by
  induction p generalizing d with
  | nil => rw [get?_nil] at h; cases h; exact hd
  | cons key p ih =>
      cases d with
      | map fields =>
          rw [get?_map_cons, Option.bind_eq_some_iff] at h
          obtain ⟨child, hf, hc⟩ := h
          exact ih (hasMarkerFields_eq_false_iff.mp hd _ (Keyed.mem_of_find? hf)).2 hc
      | _ => cases h

end Document

namespace FactorPlan

open Document KeyPath

variable {path : KeyPath} {d : Document} {plan : FactorPlan}

/-- The places of the crossed factors. -/
def crossPaths (plan : FactorPlan) : List KeyPath :=
  plan.cross.map (·.path)

/-- The plan of one field of a mapping at a path, where there is one. -/
def ofField (path : KeyPath) (e : String × Document) : FactorPlan :=
  (extractAt (path ++ [e.1]) e.2).toOption.getD (constant e.2)

/-- The plan of a mapping from those of its fields. -/
def ofPlans (fields : List (String × Document)) (plans : String × Document → FactorPlan) :
    FactorPlan where
  skeleton := .map (fields.map fun e => (e.1, (plans e).skeleton))
  levelPaths := fields.flatMap fun e => (plans e).levelPaths
  cross := fields.flatMap fun e => (plans e).cross

theorem extractFields_eq_ok {fields : List (String × Document)}
    {result : List (String × Document) × List KeyPath × List CrossFactor}
    (h : extractFields path fields = .ok result) :
    (∀ e ∈ fields, extractAt (path ++ [e.1]) e.2 = .ok (ofField path e)) ∧
      (⟨.map result.1, result.2.1, result.2.2⟩ : FactorPlan) =
        ofPlans fields (ofField path) := by
  induction fields generalizing result with
  | nil => rw [extractFields] at h; cases h; simp [ofPlans]
  | cons e rest ih =>
      obtain ⟨key, d⟩ := e
      rw [extractFields, Outcome.bind_eq_ok] at h
      obtain ⟨first, hfirst, h⟩ := h
      rw [Outcome.bind_eq_ok] at h
      obtain ⟨others, hothers, h⟩ := h
      cases h
      obtain ⟨hall, hplan⟩ := ih hothers
      have hhead : ofField path (key, d) = first := by
        simp [ofField, hfirst, Except.toOption]
      refine ⟨List.forall_mem_cons.mpr ⟨by rw [hhead]; exact hfirst, hall⟩, ?_⟩
      simp only [ofPlans, FactorPlan.mk.injEq, Document.map.injEq] at hplan ⊢
      simp [hhead, hplan]

/-- Induction over a successful extraction. -/
theorem extractAt_induction {motive : KeyPath → Document → FactorPlan → Prop}
    (marker : ∀ path, motive path (.str Vocabulary.factor) ⟨.str Vocabulary.factor, [path], []⟩)
    (leaf : ∀ path d, d.isMap = false → d.hasMarker = false → motive path d (constant d))
    (cross : ∀ path raw levels, path ≠ [] → crossLevels path raw = .ok levels →
      motive path (.map [(Vocabulary.factor, raw)]) ⟨.str Vocabulary.factor, [], [⟨path, levels⟩]⟩)
    (map : ∀ path fields plans, Keyed.find? Vocabulary.factor fields = none →
      (∀ e ∈ fields, extractAt (path ++ [e.1]) e.2 = .ok (plans e)) →
      (∀ e ∈ fields, motive (path ++ [e.1]) e.2 (plans e)) →
      motive path (.map fields) (ofPlans fields plans))
    (h : extractAt path d = .ok plan) : motive path d plan := by
  induction d using memberInduction generalizing path plan with
  | str s =>
      rw [extractAt] at h
      split at h
      · next heq => cases h; exact heq ▸ marker path
      · next hne => cases h; exact leaf _ _ rfl (by simpa [hasMarker] using hne)
  | list items _ =>
      rw [extractAt] at h
      split at h
      · cases h
      · next hno => cases h; exact leaf _ _ rfl (by simpa [hasMarker] using hno)
  | map fields ih =>
      rw [extractAt] at h
      split at h
      · next raw hfound =>
          rw [crossed] at h
          split at h
          · cases h
          next hpath =>
          split at h
          · cases h
          next hlength =>
          obtain ⟨e, rfl⟩ := List.length_eq_one_iff.mp (not_not.mp hlength)
          have he := Keyed.mem_of_find? hfound
          rw [List.mem_singleton] at he
          subst he
          simp only [Outcome.bind_eq_ok] at h
          obtain ⟨levels, hlevels, h⟩ := h
          cases h
          exact cross _ _ _ (by simpa using hpath) hlevels
      · next hnone =>
          rw [Outcome.bind_eq_ok] at h
          obtain ⟨result, hresult, h⟩ := h
          cases h
          obtain ⟨hall, hplan⟩ := extractFields_eq_ok hresult
          rw [hplan]
          exact map _ _ _ hnone hall fun e he => ih e he (hall e he)
  | _ => simp only [extractAt] at h; cases h; exact leaf _ _ rfl rfl

theorem levelsAt_ne_nil {raw : Document} {levels : List Document}
    (h : levelsAt path raw = .ok levels) : levels ≠ [] := by
  cases raw with
  | list items =>
      cases items with
      | nil => cases h
      | cons d rest => cases h; simp
  | str expression =>
      rw [levelsAt] at h
      split at h
      · cases h
      · cases h
      · next values hparse =>
          cases h
          obtain ⟨texts, -, hvalues⟩ := Option.map_eq_some_iff.mp hparse
          split at hvalues
          · cases hvalues
          · rw [Range.Bounds.levels?] at hvalues
            split_ifs at hvalues
            split at hvalues
            · cases hvalues
            · next hne => cases hvalues; simpa using hne
  | _ => cases h

theorem ordered_of_mem_levelsAt {raw level : Document} {levels : List Document}
    (hraw : raw.Ordered) (h : levelsAt path raw = .ok levels) (hl : level ∈ levels) :
    level.Ordered := by
  cases raw with
  | list items =>
      cases items with
      | nil => cases h
      | cons d rest => cases h; exact ordered_list_iff.mp hraw level hl
  | str expression =>
      rw [levelsAt] at h
      split at h
      · cases h
      · cases h
      · cases h
        obtain ⟨n, -, rfl⟩ := List.mem_map.mp hl
        trivial
  | _ => cases h

/-- What a crossed factor is guaranteed to have: levels, all of them documents without markers. -/
structure Usable (levels : List Document) : Prop where
  nonempty : levels ≠ []
  ordered : ∀ level ∈ levels, level.Ordered
  unmarked : ∀ level ∈ levels, level.hasMarker = false

theorem usable_of_crossLevels {raw : Document} {levels : List Document} (hraw : raw.Ordered)
    (h : crossLevels path raw = .ok levels) : Usable levels := by
  rw [crossLevels, Outcome.bind_eq_ok] at h
  obtain ⟨found, hfound, h⟩ := h
  split at h
  · cases h
  next hmarker =>
  cases h
  exact ⟨levelsAt_ne_nil hfound, fun _ hl => ordered_of_mem_levelsAt hraw hfound hl,
    fun level hl => by simpa using fun hm => hmarker (List.any_eq_true.mpr ⟨level, hl, hm⟩)⟩

/-- How a plan relates to the part of a configuration that it was extracted from at a path. -/
structure Describes (plan : FactorPlan) (path : KeyPath) (d : Document) : Prop where
  ordered : plan.skeleton.Ordered
  /-- A place of the entries holds a bare marker. -/
  level : ∀ q ∈ plan.levelPaths, ∃ r, q = path ++ r ∧
    d.get? r = some (.str Vocabulary.factor) ∧ plan.skeleton.get? r = some (.str Vocabulary.factor)
  /-- A crossed factor is written as a mapping and leaves a bare marker. -/
  cross : ∀ f ∈ plan.cross, ∃ r, f.path = path ++ r ∧ Usable f.levels ∧
    (∃ fields, d.get? r = some (.map fields)) ∧
    plan.skeleton.get? r = some (.str Vocabulary.factor)
  nodup : plan.crossPaths.Nodup

theorem prefix_of_mem_crossPaths {q : KeyPath} (h : plan.Describes path d)
    (hq : q ∈ plan.crossPaths) : path <+: q := by
  obtain ⟨f, hf, rfl⟩ := List.mem_map.mp hq
  obtain ⟨r, hr, -⟩ := h.cross f hf
  exact ⟨r, hr.symm⟩

theorem prefix_of_mem_levelPaths {q : KeyPath} (h : plan.Describes path d)
    (hq : q ∈ plan.levelPaths) : path <+: q := by
  obtain ⟨r, hr, -⟩ := h.level q hq
  exact ⟨r, hr.symm⟩

theorem find?_skeletons {fields : List (String × Document)} {plans : String × Document → FactorPlan}
    {e : String × Document} (hs : Keyed.Sorted fields) (he : e ∈ fields) :
    Keyed.find? e.1 (fields.map fun e => (e.1, (plans e).skeleton)) = some (plans e).skeleton :=
  Keyed.find?_of_mem (List.pairwise_map.mpr hs) (List.mem_map.mpr ⟨e, he, rfl⟩)

theorem describes_ofPlans {fields : List (String × Document)}
    {plans : String × Document → FactorPlan} (hd : (Document.map fields).Ordered)
    (h : ∀ e ∈ fields, (plans e).Describes (path ++ [e.1]) e.2) :
    (ofPlans fields plans).Describes path (.map fields) where
  ordered := by
    refine ordered_map_iff.mpr ⟨List.pairwise_map.mpr hd.sorted, fun e he => ?_⟩
    obtain ⟨e', he', rfl⟩ := List.mem_map.mp he
    exact (h e' he').ordered
  level q hq := by
    obtain ⟨e, he, hq⟩ := List.mem_flatMap.mp hq
    obtain ⟨r, rfl, hget, hskeleton⟩ := (h e he).level q hq
    refine ⟨e.1 :: r, by simp, ?_, ?_⟩
    · rw [get?_map_cons, Keyed.find?_of_mem hd.sorted he]
      exact hget
    · rw [ofPlans, get?_map_cons, find?_skeletons hd.sorted he]
      exact hskeleton
  cross f hf := by
    obtain ⟨e, he, hf⟩ := List.mem_flatMap.mp hf
    obtain ⟨r, hr, husable, hget, hskeleton⟩ := (h e he).cross f hf
    refine ⟨e.1 :: r, by rw [hr]; simp, husable, ?_, ?_⟩
    · rw [get?_map_cons, Keyed.find?_of_mem hd.sorted he]
      exact hget
    · rw [ofPlans, get?_map_cons, find?_skeletons hd.sorted he]
      exact hskeleton
  nodup := by
    rw [crossPaths, ofPlans, List.map_flatMap]
    refine List.nodup_flatMap.mpr ⟨fun e he => (h e he).nodup, ?_⟩
    refine hd.sorted.imp_of_mem fun {a b} ha hb hlt => ?_
    intro q hqa hqb
    have hka := prefix_of_mem_crossPaths (h a ha) hqa
    have hkb := prefix_of_mem_crossPaths (h b hb) hqb
    exact hlt.ne (key_eq_of_isPrefix hka hkb)

theorem describes_of_extractAt (hd : d.Ordered) (h : extractAt path d = .ok plan) :
    plan.Describes path d := by
  refine extractAt_induction (motive := fun path d plan => d.Ordered → plan.Describes path d)
    ?marker ?leaf ?cross ?map h hd
  case marker =>
    intro path _
    exact ⟨trivial, by simp [get?_nil], by simp, by simp [crossPaths]⟩
  case leaf =>
    intro path d _ _ hd
    exact ⟨hd, by simp [constant], by simp [constant], by simp [constant, crossPaths]⟩
  case cross =>
    intro path raw levels _ hlevels hd
    have hraw : raw.Ordered := (ordered_map_iff.mp hd).2 (Vocabulary.factor, raw) (by simp)
    exact ⟨trivial, by simp, by simpa using usable_of_crossLevels hraw hlevels,
      by simp [crossPaths]⟩
  case map =>
    intro path fields plans _ _ ih hd
    exact describes_ofPlans hd fun e he => ih e he ((ordered_map_iff.mp hd).2 e he)

/-- The skeleton of a mapping is a mapping, as a factor cannot stand at the root. -/
theorem isMap_skeleton (h : extract d = .ok plan) (hd : d.isMap = true) :
    plan.skeleton.isMap = true := by
  refine extractAt_induction (motive := fun path d plan => path = [] → d.isMap = true →
    plan.skeleton.isMap = true) ?_ ?_ ?_ ?_ h rfl hd
  · intro _ _ hd
    cases hd
  · intro _ _ hleaf _ _ hd
    rw [hd] at hleaf
    cases hleaf
  · intro _ _ _ hpath _ hnil
    exact absurd hnil hpath
  · intros
    rfl

section Root

variable {base : Document} {p q : KeyPath}

theorem marker_of_mem_levelPaths (h : extract base = .ok plan) (hb : base.Ordered)
    (hp : p ∈ plan.levelPaths) : plan.skeleton.get? p = some (.str Vocabulary.factor) := by
  obtain ⟨r, rfl, -, hskeleton⟩ := (describes_of_extractAt hb h).level p hp
  exact hskeleton

theorem marker_of_mem_crossPaths (h : extract base = .ok plan) (hb : base.Ordered)
    (hp : p ∈ plan.crossPaths) : plan.skeleton.get? p = some (.str Vocabulary.factor) := by
  obtain ⟨f, hf, rfl⟩ := List.mem_map.mp hp
  obtain ⟨r, hr, -, -, hskeleton⟩ := (describes_of_extractAt hb h).cross f hf
  rw [hr]
  exact hskeleton

/-- One place is never a factor of both kinds. -/
theorem disjoint_paths (h : extract base = .ok plan) (hb : base.Ordered)
    (hp : p ∈ plan.levelPaths) : p ∉ plan.crossPaths := by
  intro hcross
  obtain ⟨r, hr, hget, -⟩ := (describes_of_extractAt hb h).level p hp
  obtain ⟨f, hf, hfp⟩ := List.mem_map.mp hcross
  obtain ⟨r', hr', -, ⟨fields, hget'⟩, -⟩ := (describes_of_extractAt hb h).cross f hf
  have heq : r = r' := by rw [hfp, hr] at hr'; simpa using hr'
  rw [heq, hget'] at hget
  cases hget

theorem apart_of_markers (hp : plan.skeleton.get? p = some (.str Vocabulary.factor))
    (hq : plan.skeleton.get? q = some (.str Vocabulary.factor)) (hne : p ≠ q) : Apart p q :=
  apart_of_not_isMap hp rfl hq rfl hne

theorem pairwise_apart_crossPaths (h : extract base = .ok plan) (hb : base.Ordered) :
    plan.crossPaths.Pairwise Apart :=
  (describes_of_extractAt hb h).nodup.imp_of_mem fun hp hq hne =>
    apart_of_markers (marker_of_mem_crossPaths h hb hp) (marker_of_mem_crossPaths h hb hq) hne

theorem ne_nil_of_mem_crossPaths (h : extract base = .ok plan) (hb : base.Ordered)
    (hmap : base.isMap = true) (hp : p ∈ plan.crossPaths) : p ≠ [] := by
  rintro rfl
  have hmarker := marker_of_mem_crossPaths h hb hp
  have hskeleton := isMap_skeleton h hmap
  rw [get?_nil, Option.some.injEq] at hmarker
  rw [hmarker] at hskeleton
  cases hskeleton

end Root

end FactorPlan

end ExperimentSuite
