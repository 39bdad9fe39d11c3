import ExperimentSuite.Proofs.Document.Agreement

/-!
# Containment

A document contains a filter exactly if it has, at every place of the filter, a
mapping where the filter has one and a value that agrees elsewhere. Read off
places, containment is a preorder, a merge contains its overlay, and a document
contains a filter exactly if laying the filter over it changes nothing.
-/

namespace ExperimentSuite

namespace Document

variable {d d' doc filter inner v w : Document} {fields expected : List (String × Document)}

theorem containsFields_iff :
    containsFields fields expected = true ↔
      ∀ e ∈ expected, ∃ actual, Keyed.find? e.1 fields = some actual ∧
        actual.contains e.2 = true := by
  induction expected with
  | nil => simp [containsFields]
  | cons e rest ih =>
      rw [containsFields, Bool.and_eq_true, ih, List.forall_mem_cons]
      refine and_congr_left' ?_
      cases Keyed.find? e.1 fields <;> simp

theorem contains_map_iff :
    (map fields).contains (map expected) = true ↔
      ∀ e ∈ expected, ∃ actual, Keyed.find? e.1 fields = some actual ∧
        actual.contains e.2 = true := by
  rw [contains, containsFields_iff]

/-- Beside two mappings containment is agreement. -/
theorem contains_of_not_isMap (h : filter.isMap = false) :
    doc.contains filter = doc.agrees filter := by
  cases filter with
  | map expected => cases h
  | _ => cases doc <;> rfl

theorem isMap_of_contains (h : doc.contains (map expected) = true) : doc.isMap = true := by
  cases doc with
  | map fields => rfl
  | _ => simp [contains, agrees] at h

/-- What a place of the filter asks of the value there: to be a mapping as well, or to agree. -/
def Meets (actual expected : Document) : Prop :=
  if expected.isMap then actual.isMap = true else actual.agrees expected = true

theorem meets_of_agrees (h : d.agrees d' = true) : Meets d d' := by
  rw [Meets]
  split
  · next hmap => rw [isMap_of_agrees h, hmap]
  · exact h

theorem Meets.trans (h : Meets d d') (h' : Meets d' v) : Meets d v := by
  rw [Meets] at h h' ⊢
  split at h'
  · next hmap => simpa [hmap, h'] using h
  · next hmap =>
      have hd' : d'.isMap = false := by rw [isMap_of_agrees h', Bool.eq_false_iff.mpr hmap]
      rw [if_neg (by simp [hd'])] at h
      simpa [hmap] using agrees_trans h h'

/-- A document contains a filter exactly if it meets what the filter has at each of its places. -/
theorem contains_iff_get? (hfilter : filter.Ordered) :
    doc.contains filter = true ↔
      ∀ p v, filter.get? p = some v → ∃ w, doc.get? p = some w ∧ Meets w v := by
  induction filter using memberInduction generalizing doc with
  | map expected ih =>
      constructor
      · intro h p v hv
        obtain ⟨fields, rfl⟩ := isMap_iff.mp (isMap_of_contains h)
        cases p with
        | nil =>
            cases hv
            exact ⟨_, rfl, rfl⟩
        | cons key rest =>
            rw [get?_map_cons, Option.bind_eq_some_iff] at hv
            obtain ⟨child, hchild, hv⟩ := hv
            have hmem := Keyed.mem_of_find? hchild
            obtain ⟨actual, hactual, hc⟩ := contains_map_iff.mp h _ hmem
            obtain ⟨w, hw, hmeets⟩ := (ih _ hmem (hfilter.find? hchild)).mp hc rest v hv
            refine ⟨w, ?_, hmeets⟩
            rw [get?_map_cons, hactual]
            exact hw
      · intro h
        obtain ⟨w, hw, hmap⟩ := h [] _ (get?_nil _)
        rw [get?_nil, Option.some.injEq] at hw
        subst hw
        obtain ⟨fields, rfl⟩ := isMap_iff.mp hmap
        refine contains_map_iff.mpr fun e he => ?_
        have hfind := Keyed.find?_of_mem hfilter.sorted he
        have hbelow : ∀ p v, e.2.get? p = some v →
            ∃ w, (map fields).get? (e.1 :: p) = some w ∧ Meets w v := by
          intro p v hv
          refine h (e.1 :: p) v ?_
          rw [get?_map_cons, hfind]
          exact hv
        obtain ⟨w, hw, -⟩ := hbelow [] _ (get?_nil _)
        rw [get?_map_cons, Option.bind_eq_some_iff] at hw
        obtain ⟨actual, hactual, -⟩ := hw
        refine ⟨actual, hactual, (ih e he (hfilter.find? hfind)).mpr fun p v hv => ?_⟩
        obtain ⟨w, hw, hmeets⟩ := hbelow p v hv
        rw [get?_map_cons, hactual] at hw
        exact ⟨w, hw, hmeets⟩
  | _ =>
      rw [contains_of_not_isMap rfl]
      constructor
      · intro h p v hv
        cases p with
        | nil =>
            cases hv
            exact ⟨doc, get?_nil _, h⟩
        | cons _ _ => cases hv
      · intro h
        obtain ⟨w, hw, hmeets⟩ := h [] _ (get?_nil _)
        rw [get?_nil, Option.some.injEq] at hw
        subst hw
        exact hmeets

/-- A document contains every document that it agrees with. -/
theorem contains_of_agrees (hd' : d'.Ordered) (h : d.agrees d' = true) : d.contains d' = true := by
  refine (contains_iff_get? hd').mpr fun p v hv => ?_
  obtain ⟨w, hw, hagrees⟩ := exists_agrees_of_get? (agrees_symm h) hv
  exact ⟨w, hw, meets_of_agrees (agrees_symm hagrees)⟩

theorem contains_refl (hd : d.Ordered) : d.contains d = true :=
  contains_of_agrees hd (agrees_refl d)

theorem contains_trans (hfilter : filter.Ordered) (hinner : inner.Ordered)
    (h : doc.contains filter = true) (h' : filter.contains inner = true) :
    doc.contains inner = true := by
  refine (contains_iff_get? hinner).mpr fun p v hv => ?_
  obtain ⟨w, hw, hmeets⟩ := (contains_iff_get? hinner).mp h' p v hv
  obtain ⟨u, hu, hmeets'⟩ := (contains_iff_get? hfilter).mp h p w hw
  exact ⟨u, hu, hmeets'.trans hmeets⟩

/-- A merge contains what was laid over. -/
theorem merge_contains (hfilter : filter.Ordered) (doc : Document) :
    (doc.merge filter).contains filter = true := by
  refine (contains_iff_get? hfilter).mpr fun p v hv => ⟨_, get?_merge_of_get? hfilter hv, ?_⟩
  cases hold : doc.get? p with
  | none => exact meets_of_agrees (agrees_refl v)
  | some old =>
      rw [Option.map_some, Option.getD_some, Meets]
      split
      · next hmap => rw [isMap_merge, hmap]
      · next hmap => rw [merge_eq_right (Bool.eq_false_iff.mpr hmap), agrees_refl]

/-- Laying over a document what it contains changes nothing. -/
theorem merge_agrees_of_contains (hdoc : doc.Ordered) (hfilter : filter.Ordered)
    (h : doc.contains filter = true) : (doc.merge filter).agrees doc = true := by
  induction filter using memberInduction generalizing doc with
  | map expected ih =>
      obtain ⟨fields, rfl⟩ := isMap_iff.mp (isMap_of_contains h)
      have hmerged : Keyed.Sorted (mergeFields fields expected) := (hdoc.merge hfilter).sorted
      rw [agrees_iff, merge, unsigned_map, unsigned_map, map.injEq]
      apply Keyed.ext (Keyed.sorted_mapValues hmerged) (Keyed.sorted_mapValues hdoc.sorted)
      intro key
      rw [Keyed.find?_mapValues, Keyed.find?_mapValues, find?_mergeFields hfilter.sorted]
      cases hvalue : Keyed.find? key expected with
      | none => cases Keyed.find? key fields <;> rfl
      | some value =>
          have hmem := Keyed.mem_of_find? hvalue
          obtain ⟨old, hold, hcontains⟩ := contains_map_iff.mp h _ hmem
          have hagrees := ih _ hmem (hdoc.find? hold) (hfilter.find? hvalue) hcontains
          simpa [hold] using (agrees_iff _ _).mp hagrees
  | _ =>
      rw [contains_of_not_isMap rfl] at h
      rw [merge_eq_right rfl]
      exact agrees_symm h

/-- Containment is what merging leaves unchanged: a document contains a filter exactly if it agrees
with the outcome of laying the filter over it. Hence every document contains itself, a document
contains whatever its filters contain, and a merge contains what was laid over. -/
theorem contains_iff_merge_agrees (hdoc : doc.Ordered) (hfilter : filter.Ordered) :
    (doc.contains filter = true ↔ (doc.merge filter).agrees doc = true) ∧
      doc.contains doc = true ∧
      (∀ inner : Document, inner.Ordered → doc.contains filter = true →
        filter.contains inner = true → doc.contains inner = true) ∧
      (doc.merge filter).contains filter = true := by
  have hmerge := merge_contains hfilter doc
  refine ⟨⟨merge_agrees_of_contains hdoc hfilter, fun h => ?unchanged⟩, contains_refl hdoc,
    fun _ hinner => contains_trans hfilter hinner, hmerge⟩
  case unchanged =>
    have hback := contains_of_agrees (hdoc.merge hfilter) (agrees_symm h)
    exact contains_trans (hdoc.merge hfilter) hfilter hback hmerge

/-- A run with a nested mapping, a list and a float zero. -/
def idleRun : Document :=
  .map [("host", .map [("load", .num (.float .zero)), ("size", .int 2)]),
    ("seeds", .list [.int 1, .int 2])]

/-- A filter on the run that writes the zero with the other sign. -/
def idleFilter : Document :=
  .map [("host", .map [("load", .num (.float .negativeZero))])]

/-- A weaker filter, which asks for a mapping only. -/
def hostFilter : Document :=
  .map [("host", .empty)]

theorem contains_idleFilter :
    (idleRun.Ordered ∧ idleFilter.Ordered) ∧
      (idleRun.contains idleFilter = true ∧ (idleRun.merge idleFilter).agrees idleRun = true) ∧
      (idleFilter.contains hostFilter = true ∧ idleRun.contains hostFilter = true) ∧
      (idleRun.contains (.map [("seeds", .list [.int 1])]) = false ∧
        (idleRun.merge (.map [("seeds", .list [.int 1])])).agrees idleRun = false) := by
  have hrun : idleRun.Ordered := by decide
  have hfilter : idleFilter.Ordered := by decide
  have hcontains : idleRun.contains idleFilter = true := by decide
  have hinner : idleFilter.contains hostFilter = true := by decide
  have hlist : idleRun.contains (.map [("seeds", .list [.int 1])]) = false := by decide
  obtain ⟨hiff, -, htrans, -⟩ := contains_iff_merge_agrees hrun hfilter
  obtain ⟨hiff', -, -, -⟩ := contains_iff_merge_agrees hrun
    (by decide : (Document.map [("seeds", .list [.int 1])]).Ordered)
  refine ⟨⟨hrun, hfilter⟩, ⟨hcontains, hiff.mp hcontains⟩,
    ⟨hinner, htrans hostFilter (by decide) hcontains hinner⟩, hlist, ?_⟩
  exact Bool.eq_false_iff.mpr fun h => by simp [hiff'.mpr h] at hlist

end Document

end ExperimentSuite
