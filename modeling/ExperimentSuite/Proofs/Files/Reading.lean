import ExperimentSuite.Files.Storage
import ExperimentSuite.Proofs.Inclusion.Stages

/-!
# What is read from files

A mapping is put together from the entries of a text in the order of their
keys, so every document that is read is ordered, and so is what any file below
any directory has to offer for inclusion.
-/

namespace ExperimentSuite

namespace Document

/-- A mapping of ordered values is ordered, whatever the order of its entries was. -/
theorem ordered_ofFields {fields : List (String × Document)} (h : ∀ e ∈ fields, e.2.Ordered) :
    (ofFields fields).Ordered :=
  ordered_map_iff.mpr
    ⟨Keyed.sorted_ofList fields, fun e he => h e (Keyed.mem_of_mem_ofList he)⟩

end Document

namespace Yaml

open Document

mutual

theorem Value.ordered_of_document {d : Document} : ∀ {v : Value}, v.document = .ok d → d.Ordered
  | .sequence items, h => by
      obtain ⟨ds, hds, h⟩ := Outcome.bind_eq_ok.mp h
      cases h
      exact ordered_list_iff.mpr (Value.ordered_of_documentItems hds)
  | .mapping entries, h => by
      obtain ⟨fields, hfields, h⟩ := Outcome.bind_eq_ok.mp h
      cases h
      exact ordered_ofFields (Value.ordered_of_documentFields hfields)
  | .tagged tag value, h => by
      obtain ⟨inner, hinner, h⟩ := Outcome.bind_eq_ok.mp h
      cases h
      refine ordered_map_iff.mpr ⟨List.pairwise_singleton .., ?_⟩
      simpa using Value.ordered_of_document hinner
  | .float (.finite _), h | .float (.infinite _), h | .float .undefined, h => by cases h; trivial
  | .null, h | .bool _, h | .int _, h | .str _, h => by cases h; trivial

theorem Value.ordered_of_documentItems {ds : List Document} :
    ∀ {items : List Value}, Value.documentItems items = .ok ds → ∀ d ∈ ds, d.Ordered
  | [], h => by cases h; simp
  | v :: rest, h => by
      obtain ⟨d, hd, h⟩ := Outcome.bind_eq_ok.mp h
      obtain ⟨others, hothers, h⟩ := Outcome.bind_eq_ok.mp h
      cases h
      exact List.forall_mem_cons.mpr
        ⟨Value.ordered_of_document hd, Value.ordered_of_documentItems hothers⟩

theorem Value.ordered_of_documentFields {fields : List (String × Document)} :
    ∀ {entries : List (Value × Value)}, Value.documentFields entries = .ok fields →
      ∀ e ∈ fields, e.2.Ordered
  | [], h => by cases h; simp
  | (_, v) :: rest, h => by
      obtain ⟨key, -, h⟩ := Outcome.bind_eq_ok.mp h
      obtain ⟨d, hd, h⟩ := Outcome.bind_eq_ok.mp h
      obtain ⟨others, hothers, h⟩ := Outcome.bind_eq_ok.mp h
      cases h
      exact List.forall_mem_cons.mpr
        ⟨Value.ordered_of_document hd, Value.ordered_of_documentFields hothers⟩

end

theorem ordered_of_read {text : String} {d : Document} (h : read text = .ok d) : d.Ordered := by
  rw [read] at h
  split at h
  · cases h
  · exact Value.ordered_of_document (Outcome.mapError_eq_ok.mp h)

end Yaml

namespace Session

variable {s : Session}

theorem ordered_of_load {path : String} {d : Document} (h : s.load path = .ok d) : d.Ordered := by
  obtain ⟨text, -, h⟩ := Outcome.bind_eq_ok.mp h
  split at h
  · next hread => cases h; exact Yaml.ordered_of_read hread
  all_goals cases h

/-- Files of variables are ordered documents, whatever the files hold. -/
theorem loadsOrdered_loadVariables (s : Session) (directory : String) :
    Inclusion.LoadsOrdered (s.loadVariables directory) := by
  intro file content h
  rw [loadVariables] at h
  split at h
  · cases h
  obtain ⟨d, hd, h⟩ := Outcome.bind_eq_ok.mp h
  split at h
  · cases h
  · cases h
    exact ordered_of_load hd

end Session

end ExperimentSuite
