import ExperimentSuite.Proofs.Template.Output
import ExperimentSuite.Template.Engine

/-!
# Expressions that stand alone

What the engine reads when the expression of an output is compiled alone. Without
the controls at its ends it has the tokens that it has in the template. A sign
that sticks to it is read as an operator, while the template takes it for a
control; so the two read the same expression exactly if no sign sticks.
-/

namespace ExperimentSuite

open Text

variable {c : Char} {w chars rest : List Char} {source : String}

namespace Placeholder

/-- Whether a text consists of signs of whitespace control. -/
def Signs (w : List Char) : Prop :=
  ∀ s ∈ w, isTrimSign s = true

theorem Signs.trimmed (h : Signs w) : Trimmed w :=
  Template.Lexer.trimmed_of_solid fun s hs => isBlank_of_isTrimSign (h s hs)

/-- Signs behind a text have no say in whether a sign sticks to its front. -/
theorem sticks_cons_append (hc : isTrimSign c = true) (hw : Signs w) :
    sticks (c :: (chars ++ w)) = true ↔ ∀ d ∈ chars.head?, isBlank d = false := by
  rw [sticks_cons hc]
  cases chars with
  | nil => simpa using hw.trimmed.1
  | cons d chars => rfl

end Placeholder

namespace Template

open Placeholder

variable {n : Int} {fuel : Nat}

namespace Lexer

theorem Control.text_cases (k : Control) :
    k.text = [] ∧ k = .nothing ∨ ∃ c, k.text = [c] ∧ isTrimSign c = true := by
  cases k with
  | nothing => exact .inl ⟨rfl, rfl⟩
  | keep => exact .inr ⟨'+', rfl, rfl⟩
  | trim => exact .inr ⟨'-', rfl, rfl⟩

theorem Control.signs_text (k : Control) : Signs k.text := by
  cases k <;> simp [Signs, Control.text, isTrimSign]

theorem Control.reverse_text (k : Control) : k.text.reverse = k.text := by
  cases k <;> rfl

theorem Spaces.blank (h : Spaces w) : Blank w :=
  fun c hc => isBlank_of_isSpace (h c hc)

end Lexer

namespace Layout

open Lexer

/-- The sign at the front that sticks to the expression, if there is one. -/
def stuckFront (l : Layout) : List Char := if sticks l.inner then l.control.text else []

/-- The sign at the back that sticks to the expression, if there is one. -/
def stuckBack (l : Layout) : List Char := if sticks l.inner.reverse then l.endControl.text else []

/-- What stands between the controls, read from the back. -/
def backwards (l : Layout) : List Char := l.trail.reverse ++ (l.core.reverse ++ l.lead.reverse)

theorem signs_stuckFront (l : Layout) : Signs l.stuckFront := by
  unfold stuckFront
  split
  · exact l.control.signs_text
  · simp [Signs]

theorem signs_stuckBack (l : Layout) : Signs l.stuckBack := by
  unfold stuckBack
  split
  · exact l.endControl.signs_text
  · simp [Signs]

theorem reverse_body (l : Layout) : l.body.reverse = l.endControl.text ++ l.backwards := by
  simp only [body, backwards, List.reverse_append, Control.reverse_text, List.append_assoc]

theorem reverse_inner (l : Layout) :
    l.inner.reverse = l.endControl.text ++ (l.backwards ++ l.control.text) := by
  rw [inner, List.reverse_append, reverse_body, Control.reverse_text, List.append_assoc]

theorem reverse_stuckFront (l : Layout) : l.stuckFront.reverse = l.stuckFront := by
  unfold stuckFront
  split
  · exact l.control.reverse_text
  · rfl

theorem reverse_stuckBack (l : Layout) : l.stuckBack.reverse = l.stuckBack := by
  unfold stuckBack
  split
  · exact l.endControl.reverse_text
  · rfl

/-- Nothing between the controls ends with a sign unless a control does. -/
theorem isTrimSign_backwards (l : Layout) (h : l.endControl = .nothing) :
    ∀ s ∈ l.backwards.head?, isTrimSign s = false := by
  intro s hs
  rw [backwards, List.head?_append, List.head?_reverse, List.head?_append, List.head?_reverse,
    List.head?_reverse] at hs
  rcases Option.or_eq_some_iff.mp hs with hspace | ⟨htrail, hs⟩
  · have hblank := isBlank_of_isSpace (l.spaces_trail s (List.mem_of_getLast? hspace))
    rw [← Bool.not_eq_true]
    intro hsign
    rw [isBlank_of_isTrimSign hsign] at hblank
    cases hblank
  · rcases Option.or_eq_some_iff.mp hs with hcore | ⟨hcore, hlead⟩
    · exact l.back h (List.getLast?_eq_none_iff.mp htrail) s hcore
    · rw [l.lead_eq_nil (List.getLast?_eq_none_iff.mp hcore)] at hlead
      cases hlead

theorem dropControl_inner (l : Layout) : dropControl l.inner = l.body := by
  rw [inner]
  obtain ⟨hnil, hnothing⟩ | ⟨c, htext, hc⟩ := l.control.text_cases
  · rw [hnil, List.nil_append]
    exact dropControl_of_head? (l.front hnothing)
  · rw [htext, List.cons_append, List.nil_append, dropControl, hc, if_pos rfl]

theorem dropControl_reverse_body (l : Layout) : dropControl l.body.reverse = l.backwards := by
  rw [reverse_body]
  obtain ⟨hnil, hnothing⟩ | ⟨c, htext, hc⟩ := l.endControl.text_cases
  · rw [hnil, List.nil_append]
    exact dropControl_of_head? (l.isTrimSign_backwards hnothing)
  · rw [htext, List.cons_append, List.nil_append, dropControl, hc, if_pos rfl]

/-- The expression of an output is the text of its tokens. -/
theorem outputExpression_inner (l : Layout) : outputExpression l.inner = String.ofList l.core := by
  have hmiddle : l.backwards.reverse = l.lead ++ (l.core ++ l.trail) := by
    simp [backwards]
  rw [outputExpression, dropControl_inner, dropControl_reverse_body, hmiddle,
    trim_append l.spaces_lead.blank l.spaces_trail.blank, l.tagText.trimmed.trim_eq]

/-- The text of the tokens, compiled alone, has these tokens. -/
theorem ofExpression_core (l : Layout) : Token.ofExpression (String.ofList l.core) = l.tokens := by
  have hcore := l.tagText.cut [] [] List.nil_prefix (fun _ _ => tag_nil) l.core.length (by simp)
  rw [List.append_nil, List.append_nil] at hcore
  rw [Token.ofExpression, String.toList_ofList, hcore]

theorem dropSign_inner (l : Layout) : dropSign l.inner = l.stuckFront ++ l.body := by
  rw [dropSign_eq, dropControl_inner, stuckFront]
  split <;> rfl

theorem dropSign_backwards (l : Layout) :
    dropSign (l.stuckFront ++ l.body).reverse =
      l.stuckBack ++ (l.backwards ++ l.stuckFront) := by
  rw [List.reverse_append, reverse_body, reverse_stuckFront, List.append_assoc, stuckBack,
    reverse_inner]
  obtain ⟨hnil, hnothing⟩ | ⟨c, htext, hc⟩ := l.endControl.text_cases
  · rw [hnil, ite_self, List.nil_append]
    cases hback : l.backwards with
    | nil =>
        unfold stuckFront
        obtain ⟨hfront, -⟩ | ⟨s, hfront, -⟩ := l.control.text_cases
        · rw [hfront, ite_self]
          rfl
        · rw [hfront]
          split <;> rfl
    | cons d rest =>
        apply dropSign_of_head?
        rw [List.cons_append, List.head?_cons, ← @List.head?_cons _ d rest, ← hback]
        exact l.isTrimSign_backwards hnothing
  · simp only [htext, List.cons_append, List.nil_append]
    rw [dropSign_cons hc]
    have hsame : sticks (c :: (l.backwards ++ l.stuckFront)) =
        sticks (c :: (l.backwards ++ l.control.text)) := by
      rw [Bool.eq_iff_iff, sticks_cons_append hc l.signs_stuckFront,
        sticks_cons_append hc l.control.signs_text]
    rw [hsame]
    split <;> rfl

theorem text_ne_nil_of_sticks (l : Layout) (h : sticks l.inner = true) : l.control.text ≠ [] := by
  obtain ⟨hnil, hnothing⟩ | ⟨c, htext, -⟩ := l.control.text_cases
  · have hbody : sticks l.body = false := sticks_of_head? (l.front hnothing)
    rw [inner, hnil, List.nil_append, hbody] at h
    cases h
  · simp [htext]

/-- A sign at the back is a control, unless it is the only character. -/
theorem text_ne_nil_of_sticks_reverse (l : Layout) (h : sticks l.inner.reverse = true) :
    l.endControl.text ≠ [] ∨ sticks l.inner = true := by
  obtain ⟨hnil, hnothing⟩ | ⟨c, htext, -⟩ := l.endControl.text_cases
  · right
    rw [reverse_inner, hnil, List.nil_append] at h
    cases hback : l.backwards with
    | nil =>
        have hbody : l.body = [] := by
          rw [← List.reverse_eq_nil_iff, reverse_body, hnil, hback]
          rfl
        rw [inner, hbody, List.append_nil]
        rwa [hback] at h
    | cons d rest =>
        have hd := l.isTrimSign_backwards hnothing d (by rw [hback]; rfl)
        rw [hback, List.cons_append, sticks_of_head? (by simpa using hd)] at h
        cases h
  · left
    simp [htext]

theorem lead_eq_nil_of_sticks (l : Layout) (h : sticks l.inner = true) : l.lead = [] := by
  obtain ⟨hnil, -⟩ | ⟨c, htext, hc⟩ := l.control.text_cases
  · exact absurd hnil (l.text_ne_nil_of_sticks h)
  · rw [inner, htext, List.cons_append, List.nil_append, sticks_cons hc, body] at h
    cases hlead : l.lead with
    | nil => rfl
    | cons d lead =>
        have hblank := l.spaces_lead.blank d (by rw [hlead]; exact List.mem_cons_self)
        rw [h d (by rw [hlead]; rfl)] at hblank
        cases hblank

theorem trail_eq_nil_of_sticks (l : Layout) (h : sticks l.inner.reverse = true)
    (hsome : l.endControl.text ≠ []) : l.trail = [] := by
  obtain ⟨hnil, -⟩ | ⟨c, htext, hc⟩ := l.endControl.text_cases
  · exact absurd hnil hsome
  · rw [reverse_inner, htext, List.cons_append, List.nil_append,
      sticks_cons_append hc l.control.signs_text, backwards] at h
    cases htrail : l.trail.reverse with
    | nil => exact List.reverse_eq_nil_iff.mp htrail
    | cons d trail =>
        have hmem : d ∈ l.trail := by
          rw [← List.mem_reverse, htrail]
          exact List.mem_cons_self
        have hblank := l.spaces_trail.blank d hmem
        rw [h d (by rw [htrail]; rfl)] at hblank
        cases hblank

/-- The signs that stick stand right next to the text of the tokens. -/
theorem lead_or_stuckFront (l : Layout) : l.lead = [] ∨ l.stuckFront = [] := by
  unfold stuckFront
  split
  · next h => exact .inl (l.lead_eq_nil_of_sticks h)
  · exact .inr rfl

theorem trail_or_stuckBack (l : Layout) : l.trail = [] ∨ l.stuckBack = [] := by
  unfold stuckBack
  split
  · next h =>
      by_cases hsome : l.endControl.text = []
      · exact .inr hsome
      · exact .inl (l.trail_eq_nil_of_sticks h hsome)
  · exact .inr rfl

/-- What is left of an expression without the signs that blanks keep apart from it. -/
theorem trim_stripped (l : Layout) :
    trim (dropSign (dropSign l.inner).reverse).reverse =
      l.stuckFront ++ (l.core ++ l.stuckBack) := by
  have htrimmed : Trimmed (l.stuckFront ++ (l.core ++ l.stuckBack)) :=
    l.signs_stuckFront.trimmed.append (l.tagText.trimmed.append l.signs_stuckBack.trimmed)
  have hspaces : l.stuckFront ++ (l.lead ++ (l.core ++ (l.trail ++ l.stuckBack))) =
      l.lead ++ ((l.stuckFront ++ (l.core ++ l.stuckBack)) ++ l.trail) := by
    rcases l.lead_or_stuckFront with h | h <;> rcases l.trail_or_stuckBack with h' | h' <;>
      simp [h, h']
  calc trim (dropSign (dropSign l.inner).reverse).reverse
      = trim (l.stuckFront ++ (l.lead ++ (l.core ++ (l.trail ++ l.stuckBack)))) := by
        rw [dropSign_inner, dropSign_backwards, backwards]
        simp [reverse_stuckFront, reverse_stuckBack]
    _ = trim (l.stuckFront ++ (l.core ++ l.stuckBack)) := by
        rw [hspaces]
        exact trim_append l.spaces_lead.blank l.spaces_trail.blank _
    _ = l.stuckFront ++ (l.core ++ l.stuckBack) := htrimmed.trim_eq

/-- No sign is left at the text of the tokens exactly if none sticks to it. -/
theorem stuck_eq_nil_iff (l : Layout) :
    l.stuckFront ++ l.stuckBack = [] ↔ (sticks l.inner || sticks l.inner.reverse) = false := by
  rw [List.append_eq_nil_iff, Bool.or_eq_false_iff]
  constructor
  · rintro ⟨hfront, hback⟩
    have hinner : sticks l.inner = false := by
      rw [← Bool.not_eq_true]
      intro h
      rw [stuckFront, if_pos h] at hfront
      exact l.text_ne_nil_of_sticks h hfront
    refine ⟨hinner, ?_⟩
    rw [← Bool.not_eq_true]
    intro h
    rw [stuckBack, if_pos h] at hback
    rcases l.text_ne_nil_of_sticks_reverse h with hsome | hsticks
    · exact hsome hback
    · rw [hinner] at hsticks
      cases hsticks
  · rintro ⟨hfront, hback⟩
    rw [stuckFront, stuckBack, hfront, hback]
    exact ⟨rfl, rfl⟩

end Layout

namespace Lexer

/-- The token of a sign of whitespace control that is read as an operator. -/
def signToken (c : Char) : Token := .sign (if c = '-' then .minus else .plus)

theorem lexeme_sign (hc : isTrimSign c = true) : lexeme c rest = (signToken c, rest) := by
  rcases isTrimSign_iff.mp hc with rfl | rfl <;> cases rest <;> rfl

theorem signsOf_signTokens (w : List Char) : Token.signsOf (w.map signToken) = w.length := by
  induction w with
  | nil => rfl
  | cons c w ih =>
      have hc : (signToken c).signs = 1 := by
        unfold signToken
        split <;> rfl
      rw [Token.signsOf, List.map_cons, List.map_cons, List.sum_cons, hc, List.length_cons,
        Nat.add_comm, ← ih]
      rfl

/-- Signs in front of what does not begin with the closing delimiter are operators. -/
theorem tag_signs (hw : Signs w) (hclose : dropFront? expressionEnd chars = none) :
    tag expressionEnd (fuel + w.length) 0 (w ++ chars) =
      (w.map signToken ++ (tag expressionEnd fuel 0 chars).1,
        (tag expressionEnd fuel 0 chars).2) := by
  induction w with
  | nil => rfl
  | cons c w ih =>
      obtain ⟨hc, hw⟩ := List.forall_mem_cons.mp hw
      have hspace : isSpace c = false := by
        rcases isTrimSign_iff.mp hc with rfl | rfl <;> decide
      have hnesting : (signToken c).nesting = 0 := by
        unfold signToken
        split <;> rfl
      have hrest : dropFront? expressionEnd (w ++ chars) = none := by
        cases w with
        | nil => exact hclose
        | cons d w =>
            rcases isTrimSign_iff.mp (hw d List.mem_cons_self) with rfl | rfl <;> rfl
      have hopen : Open 0 (c :: (w ++ chars)) := by
        intro _
        rcases isTrimSign_iff.mp hc with rfl | rfl <;>
          simp only [tagEnd?, takeControl, hrest, Option.map_none]
      rw [List.cons_append, List.length_cons, ← Nat.add_assoc,
        tag_token hspace hopen (lexeme_sign hc), hnesting, Int.add_zero, ih hw]
      rfl

end Lexer

namespace Layout

open Lexer

theorem stuckBack_isPrefix (l : Layout) : l.stuckBack <+: l.trail ++ l.endControl.text := by
  rcases l.trail_or_stuckBack with htrail | hback
  · rw [htrail, List.nil_append, stuckBack]
    split
    · exact List.prefix_rfl
    · exact List.nil_prefix
  · rw [hback]
    exact List.nil_prefix

/-- The text of the tokens does not begin with the closing delimiter. -/
theorem dropFront?_core (l : Layout) (hpiece : hasPiece expressionEnd l.inner = false) :
    dropFront? expressionEnd (l.core ++ l.stuckBack) = none := by
  cases h : dropFront? expressionEnd (l.core ++ l.stuckBack) with
  | none => rfl
  | some rest =>
      obtain ⟨behind, hbehind⟩ := l.stuckBack_isPrefix
      have hinner : l.inner =
          (l.control.text ++ l.lead) ++ (expressionEnd ++ (rest ++ behind)) := by
        rw [inner, body, ← hbehind, ← List.append_assoc expressionEnd,
          ← dropFront?_eq_some_iff.mp h]
        simp only [List.append_assoc]
      rw [hasPiece_iff.mpr ⟨_, _, hinner⟩] at hpiece
      cases hpiece

/-- The tokens of an expression that stands alone are those of the output and the signs that stick
to it. -/
theorem ofExpression_eq (l : Layout) (hpiece : hasPiece expressionEnd l.inner = false) :
    Token.ofExpression (String.ofList (l.stuckFront ++ (l.core ++ l.stuckBack))) =
      l.stuckFront.map signToken ++ (l.tokens ++ l.stuckBack.map signToken) := by
  have hback : ∀ fuel, l.stuckBack.length ≤ fuel →
      tag expressionEnd fuel 0 l.stuckBack = (l.stuckBack.map signToken, none) := by
    intro fuel hfuel
    have htag := @tag_signs _ [] (fuel - l.stuckBack.length) l.signs_stuckBack rfl
    rwa [Nat.sub_add_cancel hfuel, List.append_nil, tag_nil, List.append_nil] at htag
  have hcore := l.tagText.cut _ _ l.stuckBack_isPrefix hback
    (l.core ++ l.stuckBack).length (Nat.le_refl _)
  have hfront := @tag_signs _ _ (l.core ++ l.stuckBack).length l.signs_stuckFront
    (l.dropFront?_core hpiece)
  rw [hcore, Nat.add_comm, ← List.length_append] at hfront
  rw [Token.ofExpression, String.toList_ofList, hfront]

end Layout

/-- The signs of an expression that stands alone are those of its tokens. -/
theorem Expression.signs_of_expression? {tokens : List Token} {x : Expression}
    (h : expression? tokens = .ok x) : x.signs = Token.signsOf tokens := by
  obtain ⟨⟨e, rest⟩, hread, h⟩ := Outcome.bind_eq_ok.mp h
  obtain ⟨_, hend, hx⟩ := Outcome.bind_eq_ok.mp h
  obtain rfl : e = x := Except.ok.inj hx
  obtain ⟨⟨read, rfl, -, hsigns⟩, -⟩ := faithful_read _ _ _ _ hread
  split at hend
  · next hempty =>
      rw [List.isEmpty_iff.mp hempty, List.append_nil, hsigns, Nat.zero_add]
  · exact absurd hend (Reader.fail_ne_ok _ _)

open Statement in
/-- The tokens of an output with the signs that stick to it make up its expression exactly if there
are none. -/
theorem expression?_stuck_iff (l : Layout) {x : Expression}
    (hread : Expression.read depthLimit l.tokens = .ok (x, []))
    (hsigns : x.signs = Token.signsOf l.tokens) :
    expression? (l.stuckFront.map Lexer.signToken ++
        (l.tokens ++ l.stuckBack.map Lexer.signToken)) = .ok x ↔
      l.stuckFront ++ l.stuckBack = [] := by
  constructor
  · intro h
    have hcount := Expression.signs_of_expression? h
    simp only [Token.signsOf_append, Lexer.signsOf_signTokens] at hcount
    rw [hsigns] at hcount
    apply List.length_eq_zero_iff.mp
    rw [List.length_append]
    omega
  · intro h
    obtain ⟨hfront, hback⟩ := List.append_eq_nil_iff.mp h
    rw [hfront, hback, List.map_nil, List.nil_append, List.append_nil, expression?, hread]
    rfl

open Statement in
/-- What is left of an expression is read as the expression of the output exactly if no sign sticks
to it. -/
theorem expression?_stripped_iff (l : Layout) {x : Expression}
    (hpiece : hasPiece expressionEnd l.inner = false)
    (hread : Expression.read depthLimit l.tokens = .ok (x, []))
    (hsigns : x.signs = Token.signsOf l.tokens) :
    expression? (Token.ofExpression (String.ofList
        (trim (dropSign (dropSign l.inner).reverse).reverse))) = .ok x ↔
      (sticks l.inner || sticks l.inner.reverse) = false := by
  rw [l.trim_stripped, l.ofExpression_eq hpiece, expression?_stuck_iff l hread hsigns]
  exact l.stuck_eq_nil_iff

end Template

end ExperimentSuite
