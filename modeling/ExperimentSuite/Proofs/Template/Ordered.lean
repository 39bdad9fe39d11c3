import ExperimentSuite.Proofs.Placeholder.Rounds
import ExperimentSuite.Template.Engine

/-!
# The documents of the values of templates

A source that is one expression evaluates to the document of its value. A value
becomes a document by collecting its entries under their keys, so every mapping
that an expression evaluates to has its keys in order, whatever the order and the
kinds of the keys of the value. What is known of orderly engines therefore holds
of the template engine.
-/

namespace ExperimentSuite

namespace Template

open Document

namespace Value

mutual

theorem ordered_of_document : ∀ {v : Value} {d : Document}, v.document = .ok d → d.Ordered
  | .undefined _, _, h => by cases h; trivial
  | .null, _, h => by cases h; trivial
  | .bool _, _, h => by cases h; trivial
  | .int n, _, h => by
      rw [document] at h
      split at h <;> cases h
      trivial
  | .float x, _, h => by
      rw [document] at h
      cases h
      cases FiniteFloat.ofFloat? x <;> trivial
  | .str _, _, h => by cases h; trivial
  | .list items, _, h => by
      rw [document] at h
      obtain ⟨ds, hds, h⟩ := Outcome.bind_eq_ok.mp h
      cases h
      exact ordered_list_iff.mpr (ordered_of_documentItems hds)
  | .map entries, _, h => by
      rw [document] at h
      obtain ⟨fields, hfields, h⟩ := Outcome.bind_eq_ok.mp h
      cases h
      refine ordered_map_iff.mpr ⟨Keyed.sorted_ofList fields, fun e he => ?_⟩
      exact ordered_of_documentFields hfields e (Keyed.mem_of_mem_ofList he)

theorem ordered_of_documentItems : ∀ {items : List Value} {ds : List Document},
    documentItems items = .ok ds → ∀ d ∈ ds, d.Ordered
  | [], _, h => by cases h; simp
  | v :: rest, _, h => by
      rw [documentItems] at h
      obtain ⟨d, hd, h⟩ := Outcome.bind_eq_ok.mp h
      obtain ⟨others, hothers, h⟩ := Outcome.bind_eq_ok.mp h
      cases h
      exact List.forall_mem_cons.mpr ⟨ordered_of_document hd, ordered_of_documentItems hothers⟩

theorem ordered_of_documentFields : ∀ {entries : List (Value × Value)}
    {fields : List (String × Document)}, documentFields entries = .ok fields →
      ∀ e ∈ fields, e.2.Ordered
  | [], _, h => by cases h; simp
  | (k, v) :: rest, _, h => by
      rw [documentFields] at h
      obtain ⟨key, -, h⟩ := Outcome.bind_eq_ok.mp h
      obtain ⟨d, hd, h⟩ := Outcome.bind_eq_ok.mp h
      obtain ⟨others, hothers, h⟩ := Outcome.bind_eq_ok.mp h
      cases h
      exact List.forall_mem_cons.mpr ⟨ordered_of_document hd, ordered_of_documentFields hothers⟩

end

end Value

/-- A source that is one expression evaluates to the document of the value of this expression. -/
theorem evaluate_of_expression {tolerant isKey : Bool} {vars : List (String × Document)}
    {place : Place} {source e : String} {x : Expression} {v : Value} {d : Document}
    (hsingle : Placeholder.singleExpression? source = some e)
    (hx : expression? (Token.ofExpression e) = .ok x)
    (hv : x.evaluate (.ofVariables tolerant vars) = .ok v) (hdefined : v.isUndefined = false)
    (hd : v.document = .ok d) :
    Resolution.evaluate (engine tolerant) vars ⟨place, source, isKey⟩ = .ok d := by
  have hevaluate : evaluate tolerant vars e = .ok (some d) := by
    refine Outcome.bind_eq_ok.mpr ⟨x, hx, Outcome.bind_eq_ok.mpr ⟨v, hv, ?_⟩⟩
    rw [hdefined, hd]
    rfl
  rw [Resolution.evaluate, hsingle]
  exact Outcome.bind_eq_ok.mpr ⟨some d, Outcome.mapError_eq_ok.mpr hevaluate, rfl⟩

/-- The template engine is orderly. -/
theorem orderly_engine (tolerant : Bool) : (engine tolerant).Orderly := by
  intro vars expression value h
  change evaluate tolerant vars expression = _ at h
  rw [evaluate] at h
  obtain ⟨e, -, h⟩ := Outcome.bind_eq_ok.mp h
  obtain ⟨v, -, h⟩ := Outcome.bind_eq_ok.mp h
  split at h
  · cases h
  · obtain ⟨d, hd, h⟩ := Outcome.bind_eq_ok.mp h
    cases h
    exact Value.ordered_of_document hd

end Template

end ExperimentSuite
