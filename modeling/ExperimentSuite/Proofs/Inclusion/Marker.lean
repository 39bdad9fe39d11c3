import ExperimentSuite.Inclusion.Marker
import ExperimentSuite.Proofs.Document.Leaves

/-!
# Where markers stand

A search for the next marker that succeeds has seen that nothing stands below
any marker. The marker that it finds is a leaf, and if it finds none, no path
of the document holds a marker. Files are named by values that are no mappings,
and which files a value names has nothing to do with where it stands.
-/

namespace ExperimentSuite

namespace Inclusion

open Document KeyPath

variable {d raw : Document} {p parent marker : KeyPath} {key : String} {rest : KeyPath}
  {files : List String} {next : Option KeyPath}

theorem nextMarker_eq_ok :
    nextMarker d = .ok next ↔ markerInList? false [] d = none ∧
      throughMarker? d.leafPaths = none ∧ marker? d.leafPaths = next := by
  rw [nextMarker]
  cases markerInList? false [] d with
  | some path => simp
  | none => cases h : throughMarker? d.leafPaths <;> simp [h]

/-- Nothing stands below a marker. -/
theorem get?_below_marker (hd : d.Ordered) (h : nextMarker d = .ok next) :
    d.get? (p ++ Vocabulary.inclusion :: key :: rest) = none := by
  obtain ⟨-, hthrough, -⟩ := nextMarker_eq_ok.mp h
  by_contra hne
  obtain ⟨q, hmem⟩ := exists_mem_leafPaths hd (by simp) (Option.isSome_iff_ne_none.mpr hne)
  have hpass := List.find?_eq_none.mp hthrough _ hmem
  simp at hpass

/-- Where no marker is found, no path holds one. -/
theorem not_mem_of_nextMarker_eq_none (hd : d.Ordered) (h : nextMarker d = .ok none)
    (hp : (d.get? p).isSome) : Vocabulary.inclusion ∉ p := by
  intro hmem
  obtain ⟨q, hleaf⟩ := exists_mem_leafPaths hd (List.ne_nil_of_mem hmem) hp
  obtain ⟨parent, rest, hpath⟩ := List.append_of_mem (List.mem_append_left q hmem)
  rw [hpath] at hleaf
  cases rest with
  | nil =>
      -- a leaf path that ends in a marker is the marker that the search would have found
      have hlast := List.find?_eq_none.mp (nextMarker_eq_ok.mp h).2.2 _ hleaf
      simp at hlast
  | cons key below =>
      obtain ⟨-, v, hv, -⟩ := (mem_leafPaths_iff hd).mp hleaf
      rw [get?_below_marker hd h] at hv
      cases hv

/-- The next marker stands in a mapping that no marker is above. -/
theorem exists_of_nextMarker (h : nextMarker d = .ok (some marker)) :
    ∃ parent, marker = parent ++ [Vocabulary.inclusion] ∧ Vocabulary.inclusion ∉ parent := by
  obtain ⟨-, hthrough, hfound⟩ := nextMarker_eq_ok.mp h
  have hlast := List.find?_some hfound
  rw [decide_eq_true_eq] at hlast
  have hpass := List.find?_eq_none.mp hthrough _ (List.mem_of_find?_eq_some hfound)
  refine ⟨marker.dropLast, (List.dropLast_append_getLast? _ hlast).symm, ?_⟩
  simpa using hpass

/-- The next marker is a path of the document. -/
theorem isSome_of_nextMarker (hd : d.Ordered) (h : nextMarker d = .ok (some marker)) :
    (d.get? marker).isSome := by
  obtain ⟨-, -, hfound⟩ := nextMarker_eq_ok.mp h
  obtain ⟨-, v, hv, -⟩ := (mem_leafPaths_iff hd).mp (List.mem_of_find?_eq_some hfound)
  rw [hv]
  rfl

/-- A marker names files by the text of one or by a list of texts. -/
theorem fileNames_eq_ok :
    fileNames marker raw = .ok files ↔
      (∃ file, raw = .str file ∧ files = [file]) ∨ raw = .list (files.map .str) := by
  cases raw with
  | str file => simp [fileNames, eq_comm]
  | list items =>
      have hitems : fileNames marker (.list items) = .ok files ↔ items = files.map .str := by
        rw [fileNames]
        induction items generalizing files with
        | nil => simp [pure, Except.pure, eq_comm]
        | cons item items ih =>
            rw [Outcome.mapM_cons_eq_ok]
            cases item with
            | str file => cases files <;> simp [ih, and_comm]
            | _ => cases files <;> simp
      rw [hitems]
      simp
  | _ => simp [fileNames]

theorem isMap_of_fileNames (h : fileNames marker raw = .ok files) : raw.isMap = false := by
  rcases fileNames_eq_ok.mp h with ⟨file, rfl, -⟩ | rfl <;> rfl

end Inclusion

end ExperimentSuite
