import ExperimentSuite.Proofs.Placeholder.Pending

/-!
# The texts of a document

Exchanging the texts of a document keeps its shape: its keys, its lists and all
values that are no text. Conversely a document is determined by its shape and
the texts at its places.
-/

namespace ExperimentSuite

namespace Document

variable {d d' c c' : Document} {step : Step} {place : Place} {f : String → String}
  {s t : String}

mutual

/-- The document with another text in the place of each one; keys are not texts. -/
def mapTexts (f : String → String) : Document → Document
  | .str s => .str (f s)
  | .list items => .list (mapTextsItems f items)
  | .map fields => .map (mapTextsFields f fields)
  | d => d

/-- The same for items. -/
def mapTextsItems (f : String → String) : List Document → List Document
  | [] => []
  | d :: rest => mapTexts f d :: mapTextsItems f rest

/-- The same for the values of fields. -/
def mapTextsFields (f : String → String) : List (String × Document) → List (String × Document)
  | [] => []
  | (key, d) :: rest => (key, mapTexts f d) :: mapTextsFields f rest

end

/-- A document without what its texts say. -/
def shape (d : Document) : Document := d.mapTexts fun _ => ""

theorem mapTexts_list (f : String → String) (items : List Document) :
    (list items).mapTexts f = .list (items.map (mapTexts f)) := by
  rw [mapTexts, list.injEq]
  induction items with
  | nil => rfl
  | cons d rest ih => rw [mapTextsItems, ih, List.map_cons]

theorem mapTexts_map (f : String → String) (fields : List (String × Document)) :
    (map fields).mapTexts f = .map (Keyed.mapValues (mapTexts f) fields) := by
  rw [mapTexts, map.injEq, Keyed.mapValues]
  induction fields with
  | nil => rfl
  | cons e rest ih => rw [mapTextsFields, ih, List.map_cons]

/-- Exchanging texts twice is exchanging them once. -/
theorem mapTexts_mapTexts (f g : String → String) (d : Document) :
    (d.mapTexts f).mapTexts g = d.mapTexts fun s => g (f s) := by
  induction d using memberInduction with
  | list items ih =>
      rw [mapTexts_list, mapTexts_list, mapTexts_list, List.map_map]
      exact congrArg list (List.map_congr_left ih)
  | map fields ih =>
      rw [mapTexts_map, mapTexts_map, mapTexts_map, Keyed.mapValues, Keyed.mapValues, List.map_map]
      exact congrArg map (List.map_congr_left fun e he => congrArg (Prod.mk e.1) (ih e he))
  | _ => rfl

theorem shape_mapTexts (f : String → String) (d : Document) : (d.mapTexts f).shape = d.shape :=
  mapTexts_mapTexts f _ d

theorem Ordered.mapTexts (hd : d.Ordered) (f : String → String) : (d.mapTexts f).Ordered := by
  induction d using memberInduction with
  | list items ih =>
      rw [mapTexts_list]
      refine ordered_list_iff.mpr (List.forall_mem_map.mpr fun c hc => ?_)
      exact ih c hc (ordered_list_iff.mp hd c hc)
  | map fields ih =>
      obtain ⟨hs, hfields⟩ := ordered_map_iff.mp hd
      rw [mapTexts_map]
      refine ordered_map_iff.mpr ⟨?_, List.forall_mem_map.mpr fun e he => ih e he (hfields e he)⟩
      rw [Keyed.sorted_iff_keys, Keyed.keys_mapValues]
      exact Keyed.sorted_iff_keys.mp hs
  | _ => trivial

theorem child?_mapTexts (f : String → String) (d : Document) (step : Step) :
    (d.mapTexts f).child? step = (d.child? step).map (mapTexts f) := by
  cases d with
  | list items =>
      rw [mapTexts_list]
      cases step with
      | key name => rfl
      | index n => exact List.getElem?_map
  | map fields =>
      rw [mapTexts_map]
      cases step with
      | key name => exact Keyed.find?_mapValues ..
      | index n => rfl
  | _ => rfl

theorem child?_shape (d : Document) (step : Step) :
    d.shape.child? step = (d.child? step).map shape :=
  child?_mapTexts _ d step

theorem at?_mapTexts (f : String → String) (d : Document) (place : Place) :
    (d.mapTexts f).at? place = (d.at? place).map (mapTexts f) := by
  induction place generalizing d with
  | nil => simp
  | cons step rest ih =>
      rw [at?_cons, at?_cons, child?_mapTexts]
      cases d.child? step with
      | none => rfl
      | some c => exact ih c

theorem mapTexts_eq_str_iff : d.mapTexts f = .str t ↔ ∃ s, d = .str s ∧ f s = t := by
  cases d <;> simp [mapTexts]

/-- A text at a place of the new document stands for the one at the same place of the old one. -/
theorem at?_mapTexts_eq_str_iff :
    (d.mapTexts f).at? place = some (.str t) ↔ ∃ s, d.at? place = some (.str s) ∧ f s = t := by
  rw [at?_mapTexts, Option.map_eq_some_iff]
  constructor
  · rintro ⟨c, hc, htext⟩
    obtain ⟨s, rfl, hs⟩ := mapTexts_eq_str_iff.mp htext
    exact ⟨s, hc, hs⟩
  · rintro ⟨s, hs, rfl⟩
    exact ⟨.str s, hs, rfl⟩

/-- Documents of one shape are equal if their texts are and what lies one step into them is. -/
theorem eq_of_child?_eq (hd : d.Ordered) (hd' : d'.Ordered) (hshape : d.shape = d'.shape)
    (htext : ∀ s, d = .str s → d' = .str s) (h : ∀ step, d.child? step = d'.child? step) :
    d = d' := by
  cases d with
  | str s => exact (htext s rfl).symm
  | list items =>
      cases d' with
      | list items' => exact congrArg list (List.ext_getElem? fun n => h (.index n))
      | _ => simp [shape, mapTexts] at hshape
  | map fields =>
      cases d' with
      | map fields' =>
          exact congrArg map (Keyed.ext hd.sorted hd'.sorted fun name => h (.key name))
      | _ => simp [shape, mapTexts] at hshape
  | _ => cases d' <;> simp_all [shape, mapTexts]

/-- A document is determined by its shape and its texts. -/
theorem eq_of_shape_eq (hd : d.Ordered) (hd' : d'.Ordered) (hshape : d.shape = d'.shape)
    (h : ∀ place s, d.at? place = some (.str s) → d'.at? place = some (.str s)) : d = d' := by
  induction d using childInduction generalizing d' with
  | h d ih =>
      refine eq_of_child?_eq hd hd' hshape ?_ fun step => ?_
      · intro s hs
        have hroot := h [] s (by rw [at?_nil, hs])
        rwa [at?_nil, Option.some.injEq] at hroot
      · have hchild : (d.child? step).map shape = (d'.child? step).map shape := by
          rw [← child?_shape, ← child?_shape, hshape]
        cases hc : d.child? step with
        | none =>
            rw [hc, Option.map_none] at hchild
            exact (Option.map_eq_none_iff.mp hchild.symm).symm
        | some c =>
            rw [hc, Option.map_some] at hchild
            obtain ⟨c', hc', hshape'⟩ := Option.map_eq_some_iff.mp hchild.symm
            rw [hc', ih step c hc (hd.child? hc) (hd'.child? hc') hshape'.symm]
            intro place s hs
            have hbelow := h (step :: place) s (by rw [at?_cons, hc]; exact hs)
            rwa [at?_cons, hc'] at hbelow

/-- A child may make way for another one of the same shape. -/
theorem shape_withChild (hd : d.Ordered) (hc : d.child? step = some c) (h : c'.shape = c.shape) :
    (d.withChild step c').shape = d.shape := by
  have hshape : d.shape.Ordered := hd.mapTexts _
  cases d with
  | map fields =>
      cases step with
      | key name =>
          rw [shape, mapTexts_map] at hshape
          rw [withChild, shape, shape, mapTexts_map, mapTexts_map, Keyed.mapValues_insert]
          refine congrArg map (Keyed.insert_eq_self hshape.sorted ?_)
          have hfound : Keyed.find? name fields = some c := hc
          rw [Keyed.find?_mapValues, hfound]
          exact congrArg some h.symm
      | index n => cases hc
  | list items =>
      cases step with
      | key name => cases hc
      | index n =>
          rw [withChild, shape, shape, mapTexts_list, mapTexts_list, List.map_set]
          refine congrArg list ?_
          have hfound : items[n]? = some c := hc
          obtain ⟨hn, hget⟩ := List.getElem?_eq_some_iff.mp hfound
          have hmapped : n < (items.map (mapTexts fun _ => "")).length := by
            rwa [List.length_map]
          have hitem : c'.mapTexts (fun _ => "") = (items.map (mapTexts fun _ => ""))[n] := by
            rw [List.getElem_map, hget]
            exact h
          rw [hitem, List.set_getElem_self]
  | _ => cases hc

/-- Writing a text over a text keeps the shape. -/
theorem shape_putAt? (hd : d.Ordered) (hat : d.at? place = some (.str s))
    (hput : d.putAt? place (.str t) = some d') : d'.shape = d.shape := by
  induction place generalizing d d' with
  | nil =>
      rw [at?_nil, Option.some.injEq] at hat
      rw [putAt?, modifyAt?_nil, Option.some.injEq] at hput
      rw [hat, ← hput]
      rfl
  | cons step rest ih =>
      obtain ⟨c, c', hc, hc', rfl⟩ := modifyAt?_cons_eq_some.mp hput
      rw [at?_cons, hc] at hat
      exact shape_withChild hd hc (ih (hd.child? hc) hat hc')

end Document

end ExperimentSuite
