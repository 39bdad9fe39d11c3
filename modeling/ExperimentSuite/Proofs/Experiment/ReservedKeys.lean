import ExperimentSuite.Experiment.ReservedKeys
import ExperimentSuite.Proofs.Inclusion.Marker

/-!
# Keys that occur in a document

A key occurs in a document if some mapping in it has the key, however deep and
also inside lists. The check of a configuration passes exactly if no reserved
key occurs, and then there is no marker that inclusion would have to replace.
-/

namespace ExperimentSuite

namespace Document

/-- Some mapping in a document has a key. -/
inductive KeyIn (key : String) : Document → Prop where
  | here {fields : List (String × Document)} {d : Document} (h : (key, d) ∈ fields) :
      KeyIn key (.map fields)
  | field {fields : List (String × Document)} {e : String × Document} (he : e ∈ fields)
      (h : KeyIn key e.2) : KeyIn key (.map fields)
  | item {items : List Document} {d : Document} (hd : d ∈ items) (h : KeyIn key d) :
      KeyIn key (.list items)

variable {d v : Document} {key : String} {p path : KeyPath} {items : List Document}
  {fields : List (String × Document)}

theorem keyIn_map_iff :
    KeyIn key (.map fields) ↔ ∃ e ∈ fields, e.1 = key ∨ KeyIn key e.2 := by
  constructor
  · intro h
    cases h with
    | here h => exact ⟨_, h, .inl rfl⟩
    | field he h => exact ⟨_, he, .inr h⟩
  · rintro ⟨e, he, rfl | h⟩
    · exact .here he
    · exact .field he h

theorem keyIn_list_iff : KeyIn key (.list items) ↔ ∃ d ∈ items, KeyIn key d := by
  constructor
  · rintro ⟨⟩
    exact ⟨_, ‹_›, ‹_›⟩
  · rintro ⟨d, hd, h⟩
    exact .item hd h

/-- The keys of a path that exists occur, and so do those of the value there. -/
theorem keyIn_of_get? (hv : d.get? p = some v) (h : key ∈ p ∨ KeyIn key v) : KeyIn key d := by
  induction p generalizing d with
  | nil =>
      rw [get?_nil] at hv
      cases hv
      exact h.resolve_left List.not_mem_nil
  | cons first rest ih =>
      obtain ⟨fields, rfl⟩ := isMap_iff.mp (isMap_of_get?_cons hv)
      rw [get?_map_cons, Option.bind_eq_some_iff] at hv
      obtain ⟨child, hchild, hv⟩ := hv
      have hmem := Keyed.mem_of_find? hchild
      rcases h with hkey | hbelow
      · rcases List.mem_cons.mp hkey with rfl | hrest
        · exact .here hmem
        · exact .field hmem (ih hv (.inl hrest))
      · exact .field hmem (ih hv (.inr hbelow))

/-- A key that occurs stands on some path, or inside a value that is no mapping. -/
theorem exists_get?_of_keyIn (hd : d.Ordered) (h : KeyIn key d) :
    ∃ p v, d.get? p = some v ∧ (key ∈ p ∨ v.isMap = false ∧ KeyIn key v) := by
  induction h with
  | @here fields child h =>
      refine ⟨[key], child, ?_, .inl (List.mem_singleton_self key)⟩
      rw [get?_singleton]
      exact Keyed.find?_of_mem hd.sorted h
  | @field fields e he _ ih =>
      obtain ⟨p, v, hv, hkey⟩ := ih ((ordered_map_iff.mp hd).2 e he)
      refine ⟨e.1 :: p, v, ?_, hkey.imp_left (List.mem_cons_of_mem e.1)⟩
      rw [get?_map_cons, Keyed.find?_of_mem hd.sorted he]
      exact hv
  | item hd' h _ => exact ⟨[], _, get?_nil _, .inr ⟨rfl, .item hd' h⟩⟩

/-- A document without reserved keys. -/
def Unreserved (d : Document) : Prop :=
  ∀ key ∈ Vocabulary.reservedKeys, ¬ KeyIn key d

theorem unreserved_map_iff :
    Unreserved (.map fields) ↔
      ∀ e ∈ fields, e.1 ∉ Vocabulary.reservedKeys ∧ Unreserved e.2 := by
  simp only [Unreserved, keyIn_map_iff, not_exists, not_and, not_or]
  constructor
  · intro h e he
    exact ⟨fun hkey => (h _ hkey e he).1 rfl, fun key hkey => (h key hkey e he).2⟩
  · rintro h key hkey e he
    refine ⟨?_, (h e he).2 key hkey⟩
    rintro rfl
    exact (h e he).1 hkey

theorem unreserved_list_iff : Unreserved (.list items) ↔ ∀ d ∈ items, Unreserved d := by
  simp only [Unreserved, keyIn_list_iff, not_exists, not_and]
  exact ⟨fun h d hd key hkey => h key hkey d hd, fun h key hkey d hd => h d hd key hkey⟩

theorem reservedInFields_eq_nil_iff :
    reservedInFields path fields = [] ↔ ∀ e ∈ fields,
      e.1 ∉ Vocabulary.reservedKeys ∧ reservedPlaces (path ++ [e.1]) e.2 = [] := by
  induction fields with
  | nil => simp [reservedInFields]
  | cons e rest ih =>
      rw [reservedInFields, List.append_eq_nil_iff, List.append_eq_nil_iff, ih,
        List.forall_mem_cons]
      simp

theorem reservedInItems_eq_nil_iff {index : Nat}
    (h : ∀ d ∈ items, ∀ path, reservedPlaces path d = [] ↔ Unreserved d) :
    reservedInItems path index items = [] ↔ ∀ d ∈ items, Unreserved d := by
  induction items generalizing index with
  | nil => simp [reservedInItems]
  | cons d rest ih =>
      obtain ⟨hd, hrest⟩ := List.forall_mem_cons.mp h
      rw [reservedInItems, List.append_eq_nil_iff, hd, ih hrest, List.forall_mem_cons]

/-- The check of a configuration finds the reserved keys at any depth. -/
theorem reservedPlaces_eq_nil_iff : reservedPlaces path d = [] ↔ Unreserved d := by
  induction d using memberInduction generalizing path with
  | list items ih =>
      rw [reservedPlaces, reservedInItems_eq_nil_iff fun d hd _ => ih d hd, unreserved_list_iff]
  | map fields ih =>
      rw [reservedPlaces, reservedInFields_eq_nil_iff, unreserved_map_iff]
      exact forall₂_congr fun e he => and_congr_right fun _ => ih e he
  | _ => exact iff_of_true (by simp only [reservedPlaces]) (by rintro _ - ⟨⟩)

theorem checkReserved_eq_ok {name : String} : d.checkReserved name = .ok () ↔ Unreserved d := by
  have hplaces : reservedPlaces [] d = [] ↔ Unreserved d := reservedPlaces_eq_nil_iff
  rw [checkReserved, ← hplaces]
  cases reservedPlaces [] d <;> simp

end Document

namespace Inclusion

open Document

variable {d : Document} {path : KeyPath} {inList : Bool} {items : List Document}
  {fields : List (String × Document)}

theorem markerInFields?_eq_none (h : ∀ e ∈ fields, e.1 ≠ Vocabulary.inclusion ∧
      markerInList? inList (path ++ [e.1]) e.2 = none) :
    markerInFields? inList path fields = none := by
  induction fields with
  | nil => rfl
  | cons e rest ih =>
      obtain ⟨⟨hkey, he⟩, hrest⟩ := List.forall_mem_cons.mp h
      simp [markerInFields?, hkey, he, ih hrest]

theorem markerInItems?_eq_none {index : Nat}
    (h : ∀ d ∈ items, ∀ path, markerInList? true path d = none) :
    markerInItems? path index items = none := by
  induction items generalizing index with
  | nil => rfl
  | cons d rest ih =>
      obtain ⟨hd, hrest⟩ := List.forall_mem_cons.mp h
      simp only [markerInItems?, hd, ih hrest]

/-- No marker is found inside a list if there is none anywhere. -/
theorem markerInList?_eq_none (h : ¬ KeyIn Vocabulary.inclusion d) :
    markerInList? inList path d = none := by
  induction d using memberInduction generalizing inList path with
  | list items ih =>
      rw [markerInList?]
      exact markerInItems?_eq_none fun d hd _ => ih d hd fun hin => h (.item hd hin)
  | map fields ih =>
      rw [markerInList?]
      apply markerInFields?_eq_none
      intro e he
      refine ⟨?_, ih e he fun hin => h (.field he hin)⟩
      intro hkey
      exact h (keyIn_map_iff.mpr ⟨e, he, .inl hkey⟩)
  | _ => simp only [markerInList?]

/-- Where no key is a marker, there is nothing to replace. -/
theorem nextMarker_eq_none (hd : d.Ordered) (h : ¬ KeyIn Vocabulary.inclusion d) :
    nextMarker d = .ok none := by
  have hpaths : ∀ q ∈ d.leafPaths, Vocabulary.inclusion ∉ q := by
    intro q hq hmem
    obtain ⟨-, v, hv, -⟩ := (mem_leafPaths_iff hd).mp hq
    exact h (keyIn_of_get? hv (.inl hmem))
  refine nextMarker_eq_ok.mpr ⟨markerInList?_eq_none h, ?_, ?_⟩
  · refine List.find?_eq_none.mpr fun q hq => ?_
    simpa using fun hmem => hpaths q hq (List.mem_of_mem_dropLast hmem)
  · refine List.find?_eq_none.mpr fun q hq => ?_
    simpa using fun hlast => hpaths q hq (List.mem_of_getLast? hlast)

end Inclusion

end ExperimentSuite
