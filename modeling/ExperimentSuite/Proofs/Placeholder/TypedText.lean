import ExperimentSuite.Placeholder.Resolution
import ExperimentSuite.Proofs.Outcome
import ExperimentSuite.Proofs.Template.Standalone

/-!
# Values that keep their type

A source that is one expression is evaluated, so that its value keeps its type,
where a longer source is rendered. Any engine that reads the signs next to a
delimiter as whitespace control renders the expression between them. The text
that is compiled alone is this expression exactly if no sign sticks to it; then
a scalar value, written as the text of a template, is the rendered text up to
the blanks around it.
-/

namespace ExperimentSuite

open Text

/-- Whether a document is a text, a truth value, null or an integer within the bounds of
documents. -/
def Document.IsScalar : Document → Prop
  | .str _ => True
  | .bool _ => True
  | .null => True
  | .num (.int n) => Number.minInt ≤ n ∧ n ≤ Number.maxInt
  | _ => False

/-- What expressions mean to an engine: their values under variables, the text that a template
writes for a value, and the value that a document stands for. -/
structure Meaning where
  Value : Type
  value : List (String × Document) → String → Except EngineFault Value
  text : Value → String
  ofDocument : Document → Value

/-- What is documented of an engine about outputs. -/
structure Engine.Outputs (engine : Engine) (m : Meaning) : Prop where
  /-- A source that is one output renders to the text of the value of its expression, up to the
  blanks around it. A sign next to a delimiter is no part of the expression. -/
  renders : ∀ vars source inner text,
    Placeholder.between? (trim source.toList) = some inner →
    hasPiece Placeholder.expressionStart inner = false →
    hasPiece Placeholder.expressionEnd inner = false →
    engine.render vars source = .ok text →
      ∃ v, m.value vars (Placeholder.outputExpression inner) = .ok v ∧
        trim text.toList = trim (m.text v).toList
  /-- An expression that is compiled alone gives scalars back as documents. -/
  evaluates : ∀ vars e d, m.value vars e = .ok (m.ofDocument d) → d.IsScalar →
    engine.evaluate vars e = .ok (some d)

namespace Template

variable {r done : Rendering} {rest : List Statement} {tolerant : Bool}
  {vars : List (String × Document)} {source text : String} {inner : List Char}

namespace Statement

/-- Texts are written as they are. -/
theorem renderAll_texts {texts : List String} (hblank : ∀ s ∈ texts, Blank s.toList) :
    ∃ w, Blank w ∧ renderAll r (texts.map .text ++ rest) =
      renderAll { r with output := r.output ++ String.ofList w } rest := by
  induction texts generalizing r with
  | nil => exact ⟨[], blank_nil, by simp⟩
  | cons s texts ih =>
      obtain ⟨hs, htexts⟩ := List.forall_mem_cons.mp hblank
      obtain ⟨w, hw, hrest⟩ := @ih (r.write s) htexts
      refine ⟨s.toList ++ w, List.forall_mem_append.mpr ⟨hs, hw⟩, ?_⟩
      rw [List.map_cons, List.cons_append, renderAll, render]
      refine hrest.trans ?_
      simp [Rendering.write, String.append_assoc]

/-- What one output among blanks renders to. -/
theorem renderAll_output {x : Expression} {texts texts' : List String}
    (hblank : ∀ s ∈ texts ++ texts', Blank s.toList)
    (h : renderAll r (texts.map .text ++ .output x :: texts'.map .text) = .ok done) :
    ∃ v w w', x.evaluate r.setting = .ok v ∧ Blank w ∧ Blank w' ∧
      done.output.toList = r.output.toList ++ (w ++ (v.text.toList ++ w')) := by
  obtain ⟨hbefore, hafter⟩ := List.forall_mem_append.mp hblank
  obtain ⟨w, hw, hrest⟩ := @renderAll_texts r (.output x :: texts'.map .text) _ hbefore
  rw [hrest, renderAll] at h
  obtain ⟨next, hnext, h⟩ := Outcome.bind_eq_ok.mp h
  rw [render] at hnext
  obtain ⟨v, hv, hnext⟩ := Outcome.bind_eq_ok.mp hnext
  obtain ⟨-, -, hnext⟩ := Outcome.bind_eq_ok.mp hnext
  obtain rfl := Except.ok.inj hnext
  obtain ⟨w', hw', hrest'⟩ := @renderAll_texts
    ({ r with output := r.output ++ String.ofList w }.write v.text) [] _ hafter
  rw [List.append_nil] at hrest'
  rw [hrest', renderAll] at h
  obtain rfl := Except.ok.inj h
  exact ⟨v, w, w', hv, hw, hw', by simp [Rendering.write]⟩

end Statement

/-- What expressions mean to the template engine. -/
def meaning (tolerant : Bool) : Meaning where
  Value := Value
  value vars e := expression? (Token.ofExpression e) >>= (·.evaluate (.ofVariables tolerant vars))
  text := Value.text
  ofDocument := Value.ofDocument

/-- A source that is one output and renders is laid out around the tokens of its expression, and
renders to the text of the value of this expression. -/
theorem exists_layout_of_render (hinner : Placeholder.between? (trim source.toList) = some inner)
    (hend : hasPiece Placeholder.expressionEnd inner = false)
    (hrender : render tolerant vars source = .ok text) :
    ∃ (l : Layout) (x : Expression) (v : Value), l.inner = inner ∧
      Expression.read Statement.depthLimit l.tokens = .ok (x, []) ∧
      x.signs = Token.signsOf l.tokens ∧ x.evaluate (.ofVariables tolerant vars) = .ok v ∧
      trim text.toList = trim v.text.toList := by
  obtain ⟨before, after, hbefore, hafter, hsource⟩ := exists_eq_append_trim source.toList
  rw [Placeholder.between?_eq_some_iff.mp hinner] at hsource
  simp only [List.append_assoc] at hsource
  obtain ⟨statements, hstatements, h⟩ := Outcome.bind_eq_ok.mp hrender
  obtain ⟨done, hdone, h⟩ := Outcome.bind_eq_ok.mp h
  obtain rfl := Except.ok.inj h
  obtain ⟨l, x, texts, texts', hl, hread, hsigns, rfl, hblank⟩ :=
    Statement.exists_of_statements?_output hsource hbefore hend hafter hstatements
  obtain ⟨v, w, w', hv, hw, hw', houtput⟩ := Statement.renderAll_output hblank hdone
  refine ⟨l, x, v, hl, hread, hsigns, hv, ?_⟩
  rw [houtput]
  exact trim_append hw hw' _

/-- A scalar is given back as the document that it is the value of. -/
theorem evaluate_of_isScalar {e : String} {d : Document} (hd : d.IsScalar)
    (h : (meaning tolerant).value vars e = .ok (Value.ofDocument d)) :
    evaluate tolerant vars e = .ok (some d) := by
  obtain ⟨x, hx, hv⟩ := Outcome.bind_eq_ok.mp h
  refine Outcome.bind_eq_ok.mpr ⟨x, hx, Outcome.bind_eq_ok.mpr ⟨Value.ofDocument d, hv, ?_⟩⟩
  cases d with
  | num n =>
      cases n with
      | int n =>
          have hrange : Number.minInt ≤ n ∧ n ≤ Number.maxInt := hd
          simp only [Value.ofDocument, Value.isUndefined, Value.document, Number.ofInt?,
            if_pos hrange]
          rfl
      | float => cases hd
  | list => cases hd
  | map => cases hd
  | _ => rfl

/-- The template engine treats outputs as documented. -/
theorem outputs_engine (tolerant : Bool) : (engine tolerant).Outputs (meaning tolerant) where
  renders vars source inner text hinner _ hend hrender := by
    obtain ⟨l, x, v, rfl, hread, -, hv, htext⟩ := exists_layout_of_render hinner hend hrender
    refine ⟨v, ?_, htext⟩
    rw [l.outputExpression_inner]
    change expression? _ >>= _ = _
    rw [l.ofExpression_core, expression?, hread]
    exact hv
  evaluates _ _ _ h hd := evaluate_of_isScalar hd h

/-- For the template engine the expression of a source is read the same alone exactly if no sign
sticks to it: one that sticks is an operator more. -/
theorem expression?_single_iff {e : String}
    (hsingle : Placeholder.singleExpression? source = some e)
    (hrender : render tolerant vars source = .ok text) :
    ∃ (l : Layout) (x : Expression),
      Placeholder.between? (trim source.toList) = some l.inner ∧
      Expression.read Statement.depthLimit l.tokens = .ok (x, []) ∧
      (expression? (Token.ofExpression e) = .ok x ↔ Placeholder.signSticks source = false) := by
  obtain ⟨inner, hinner, -, hend, rfl⟩ := Placeholder.exists_of_singleExpression? hsingle
  obtain ⟨l, x, v, rfl, hread, hsigns, -, -⟩ := exists_layout_of_render hinner hend hrender
  refine ⟨l, x, hinner, hread, ?_⟩
  rw [Placeholder.signSticks_eq hinner]
  exact expression?_stripped_iff l hend hread hsigns

end Template

namespace Resolution

open Template

/-- A source that is one expression and renders means the same expression alone and in the text,
exactly if no sign of whitespace control sticks to it. Then a scalar value is what the source
evaluates to, and as a text it is what the source renders to, up to the blanks around it. -/
theorem evaluate_agrees_iff {engine : Engine} {m : Meaning} (hengine : engine.Outputs m)
    {vars : List (String × Document)} {item : Pending} {e text : String}
    (hsingle : Placeholder.singleExpression? item.source = some e)
    (hrender : engine.render vars item.source = .ok text) :
    ∃ inner v, Placeholder.between? (trim item.source.toList) = some inner ∧
      m.value vars (Placeholder.outputExpression inner) = .ok v ∧
      trim text.toList = trim (m.text v).toList ∧
      (e = Placeholder.outputExpression inner ↔ Placeholder.signSticks item.source = false) ∧
      (Placeholder.signSticks item.source = false → ∀ d : Document, d.IsScalar →
        v = m.ofDocument d → evaluate engine vars item = .ok d ∧
          trim (m.text (m.ofDocument d)).toList = trim text.toList) := by
  obtain ⟨inner, hinner, hstart, hend, he⟩ := Placeholder.exists_of_singleExpression? hsingle
  obtain ⟨v, hv, htext⟩ := hengine.renders vars item.source inner text hinner hstart hend hrender
  have hsame : e = Placeholder.outputExpression inner ↔
      Placeholder.signSticks item.source = false := by
    rw [he, Placeholder.signSticks_eq hinner]
    exact Placeholder.stripped_eq_outputExpression_iff inner
  refine ⟨inner, v, hinner, hv, htext, hsame, fun hnot d hd hvd => ⟨?_, by rw [htext, hvd]⟩⟩
  rw [hvd, ← hsame.mpr hnot] at hv
  have hevaluate := hengine.evaluates vars e d hv hd
  rw [evaluate, hsingle]
  exact Outcome.bind_eq_ok.mpr ⟨some d, Outcome.mapError_eq_ok.mpr hevaluate, rfl⟩

/-- A run with a text that looks like a truth value. -/
def flagged : Document := .map [("flag", .str "true")]

/-- A copy of that text, with signs that blanks keep apart from the expression. -/
def copied : Pending := ⟨[.key "copy"], " [%- my_run.flag -%]\n", false⟩

theorem render_copied :
    Template.render false (context flagged []) copied.source = .ok "true" := by
  decide +kernel

theorem value_copied : (meaning false).value (context flagged [])
    (Placeholder.outputExpression "- my_run.flag -".toList) = .ok (Value.str "true") := by
  have halone : expression? (Token.ofExpression "my_run.flag") =
      .ok (.field (.lookup "my_run") "flag") := by
    rfl
  have hinner : Placeholder.outputExpression "- my_run.flag -".toList = "my_run.flag" := by
    decide +kernel
  rw [hinner]
  change expression? _ >>= _ = _
  rw [halone]
  rfl

theorem agrees_copied :
    (Template.engine false).Outputs (meaning false) ∧
      Placeholder.singleExpression? copied.source = some "my_run.flag" ∧
      (Template.engine false).render (context flagged []) copied.source = .ok "true" ∧
      Placeholder.signSticks copied.source = false ∧
      evaluate (Template.engine false) (context flagged []) copied = .ok (.str "true") ∧
      trim (Value.ofDocument (.str "true")).text.toList = trim "true".toList := by
  have hsingle : Placeholder.singleExpression? copied.source = some "my_run.flag" := by
    decide +kernel
  have hnot : Placeholder.signSticks copied.source = false := by rfl
  obtain ⟨inner, v, hinner, hv, -, -, hagrees⟩ :=
    evaluate_agrees_iff (outputs_engine false) hsingle render_copied
  have hbetween : Placeholder.between? (trim copied.source.toList) =
      some "- my_run.flag -".toList := by
    rfl
  obtain rfl := Option.some.inj (hbetween.symm.trans hinner)
  obtain rfl := Except.ok.inj (value_copied.symm.trans hv)
  obtain ⟨hevaluate, htext⟩ := hagrees hnot (.str "true") trivial rfl
  exact ⟨outputs_engine false, hsingle, render_copied, hnot, hevaluate, htext⟩

theorem value_five : (meaning false).value [] (Placeholder.outputExpression "-5".toList) =
    .ok (Value.ofDocument (.num (.int 5))) := by
  have halone : expression? (Token.ofExpression "5") = .ok (.constant (.int 5)) := by
    rfl
  have hinner : Placeholder.outputExpression "-5".toList = "5" := by
    decide +kernel
  rw [hinner]
  change expression? _ >>= _ = _
  rw [halone]
  rfl

theorem evaluate_minusFive : evaluate (Template.engine false) [] ⟨[.key "a"], "[%-5%]", false⟩ =
    .ok (.num (.int (-5))) := by
  have hsingle : Placeholder.singleExpression? "[%-5%]" = some "-5" := by
    decide +kernel
  have hvalue : (meaning false).value [] "-5" = .ok (Value.ofDocument (.num (.int (-5)))) := by
    rfl
  have hscalar : Document.IsScalar (.num (.int (-5))) := by
    constructor <;> decide
  rw [evaluate, hsingle]
  exact Outcome.bind_eq_ok.mpr ⟨some (.num (.int (-5))),
    Outcome.mapError_eq_ok.mpr (evaluate_of_isScalar hscalar hvalue), rfl⟩

/-- A sign that sticks to an expression is read as an operator when the expression stands alone. -/
theorem not_agrees_of_stuckSign :
    (Template.engine false).Outputs (meaning false) ∧
      Placeholder.singleExpression? "[%-5%]" = some "-5" ∧
      (Template.engine false).render [] "[%-5%]" = .ok "5" ∧
      (meaning false).value [] (Placeholder.outputExpression "-5".toList) =
        .ok (Value.ofDocument (.num (.int 5))) ∧
      evaluate (Template.engine false) [] ⟨[.key "a"], "[%-5%]", false⟩ = .ok (.num (.int (-5))) ∧
      trim (Value.ofDocument (.num (.int (-5)))).text.toList ≠ trim "5".toList := by
  exact ⟨outputs_engine false, by decide +kernel, by decide +kernel, value_five, evaluate_minusFive,
    by decide +kernel⟩

end Resolution

end ExperimentSuite
