import ExperimentSuite.Proofs.Placeholder.Stripping
import ExperimentSuite.Proofs.Template.Reading
import ExperimentSuite.Proofs.Template.Tags

/-!
# Templates that are one output

A template that is one output among blanks, and that can be read, consists of
the blanks as texts and of the expression between the delimiters. What stands
between them is laid out as the controls, separators and the text of the tokens
that the expression is read from.
-/

namespace ExperimentSuite

namespace Template

open Text

variable {c : Char} {w before between after chars : List Char} {source : String}
  {tokens more : List Token} {x : Expression}

namespace Lexer

theorem dropFront?_of_isBlank {p : Char} {front : List Char} (hp : isBlank p = false)
    (hc : isBlank c = true) : dropFront? (p :: front) (c :: chars) = none := by
  rw [dropFront?, if_neg]
  rintro rfl
  rw [hp] at hc
  cases hc

theorem cutAtTag?_cons (hc : isBlank c = true) :
    cutAtTag? (c :: chars) =
      (cutAtTag? chars).map fun (before, kind, after) => (c :: before, kind, after) := by
  rw [cutAtTag?, Placeholder.expressionStart, Placeholder.statementStart, Placeholder.commentStart,
    dropFront?_of_isBlank (by decide) hc, dropFront?_of_isBlank (by decide) hc,
    dropFront?_of_isBlank (by decide) hc]

/-- Blanks hold no tag. -/
theorem cutAtTag?_of_blank (hw : Blank w) : cutAtTag? w = none := by
  induction w with
  | nil => rfl
  | cons c w ih =>
      obtain ⟨hc, hw⟩ := List.forall_mem_cons.mp hw
      rw [cutAtTag?_cons hc, ih hw]
      rfl

/-- An output behind blanks is the first tag. -/
theorem cutAtTag?_output (hw : Blank w) :
    cutAtTag? (w ++ (Placeholder.expressionStart ++ chars)) = some (w, .output, chars) := by
  induction w with
  | nil => rfl
  | cons c w ih =>
      obtain ⟨hc, hw⟩ := List.forall_mem_cons.mp hw
      rw [List.cons_append, cutAtTag?_cons hc, ih hw]
      rfl

/-- The texts of a piece of a template without tags. -/
def textsOf (chars : List Char) : List String :=
  if chars.isEmpty then [] else [String.ofList chars]

theorem textToken_eq (chars : List Char) : textToken chars = (textsOf chars).map .text := by
  unfold textToken textsOf
  split <;> rfl

theorem blank_of_mem_textsOf {s : String} (hw : Blank w) (hs : s ∈ textsOf w) :
    Blank s.toList := by
  unfold textsOf at hs
  split at hs
  · cases hs
  · obtain rfl := List.mem_singleton.mp hs
    rwa [String.toList_ofList]

theorem blank_trimEnd (hw : Blank w) : Blank (trimEnd w) := by
  intro c hc
  exact hw c (List.mem_reverse.mp ((List.dropWhile_sublist _).subset (List.mem_reverse.mp hc)))

theorem blank_trimStart (hw : Blank w) : Blank (trimStart w) :=
  fun c hc => hw c ((List.dropWhile_sublist _).subset hc)

/-- Blanks behind a tag are at most one text. -/
theorem exists_scan_eq (hw : Blank w) (fuel : Nat) (trimmed : Bool) :
    ∃ texts : List String, scan (fuel + 1) trimmed w = texts.map .text ∧
      ∀ s ∈ texts, Blank s.toList := by
  cases trimmed with
  | false =>
      refine ⟨textsOf w, ?_, fun s hs => blank_of_mem_textsOf hw hs⟩
      rw [scan, if_neg (by decide), cutAtTag?_of_blank hw]
      exact textToken_eq w
  | true =>
      have hw' := blank_trimStart hw
      refine ⟨textsOf (trimStart w), ?_, fun s hs => blank_of_mem_textsOf hw' hs⟩
      rw [scan, if_pos rfl, cutAtTag?_of_blank hw']
      exact textToken_eq _

/-- The tokens of an output whose tag reads so, and of the template behind it. -/
def outputTokens (fuel : Nat) : List Token × Option (Control × List Char) → List Token
  | (tokens, none) => tokens
  | (tokens, some (control, rest)) => tokens ++ .closeOutput :: scan fuel (control == .trim) rest

/-- The tokens of a template that begins with an output. -/
theorem exists_ofTemplate_eq
    (hsource : source.toList = before ++ (Placeholder.expressionStart ++ chars))
    (hbefore : Blank before) :
    ∃ texts : List String, (∀ s ∈ texts, Blank s.toList) ∧
      Token.ofTemplate source = texts.map .text ++ .openOutput :: outputTokens source.toList.length
        (tag Placeholder.expressionEnd (takeControl chars).2.length 0 (takeControl chars).2) := by
  refine ⟨textsOf (if (takeControl chars).1 = .trim then trimEnd before else before), ?_, ?_⟩
  · intro s hs
    refine blank_of_mem_textsOf ?_ hs
    split
    · exact blank_trimEnd hbefore
    · exact hbefore
  · rw [Token.ofTemplate, scan, if_neg (by decide), hsource, cutAtTag?_output hbefore]
    dsimp only
    rw [textToken_eq, List.cons_append]
    generalize tag Placeholder.expressionEnd (takeControl chars).2.length 0 (takeControl chars).2 =
      result
    obtain ⟨tokens, _ | ⟨control, rest⟩⟩ := result
    · rw [outputTokens, List.append_nil]
    · rw [outputTokens]

end Lexer

namespace Statement

open Token

variable {statement : Reader Statement} {expression : Reader Expression} {stops : List String}
  {read statements : List Statement} {fuel : Nat} {rest : List Token}

/-- Texts at the front of a body are taken over. -/
theorem bodyFrom_texts (texts : List String) :
    bodyFrom statement expression stops (fuel + texts.length) read (texts.map .text ++ rest) =
      bodyFrom statement expression stops fuel ((texts.map .text).reverse ++ read) rest := by
  induction texts generalizing read with
  | nil => rfl
  | cons s texts ih =>
      rw [List.map_cons, List.map_cons, List.cons_append, List.length_cons, ← Nat.add_assoc,
        bodyFrom, ih, List.reverse_cons, List.append_assoc]
      rfl

/-- An output in a body ends where its expression ends. -/
theorem of_bodyFrom_output
    (h : bodyFrom statement expression stops (fuel + 1) read (.openOutput :: rest) =
      .ok (statements, more)) :
    ∃ x rest', expression rest = .ok (x, .closeOutput :: rest') ∧
      bodyFrom statement expression stops fuel (.output x :: read) rest' =
        .ok (statements, more) := by
  rw [bodyFrom] at h
  obtain ⟨⟨x, tokens⟩, hx, h⟩ := Outcome.bind_eq_ok.mp h
  obtain ⟨⟨⟨⟩, rest'⟩, hend, h⟩ := Outcome.bind_eq_ok.mp h
  unfold endOfOutput at hend
  split at hend
  · cases hend
    exact ⟨x, _, hx, h⟩
  · exact absurd hend (Reader.fail_ne_ok _ _)

end Statement

namespace Expression

open Token

/-- An output whose expression can be read is closed, and the expression is read from the tokens
between the delimiters alone. -/
theorem of_read_outputTokens {depth fuel : Nat} {found : Option (Lexer.Control × List Char)}
    {rest : List Token} (hclosed : .closeOutput ∉ tokens)
    (h : read depth (Lexer.outputTokens fuel (tokens, found)) = .ok (x, .closeOutput :: rest)) :
    ∃ control after, found = some (control, after) ∧
      rest = Lexer.scan fuel (control == .trim) after ∧ read depth tokens = .ok (x, []) ∧
      (∀ t ∈ tokens, t.isInner = true) ∧ x.signs = signsOf tokens := by
  obtain ⟨⟨front, heq, hinner, hsigns⟩, halone⟩ := faithful_read depth _ x _ h
  obtain _ | ⟨control, after⟩ := found
  · rw [Lexer.outputTokens] at heq
    rw [heq] at hclosed
    simp at hclosed
  · rw [Lexer.outputTokens] at heq halone
    have hfront : tokens = front := by
      have hbefore := congrArg beforeEnd heq
      rw [beforeEnd_closed hclosed, beforeEnd_append hinner, beforeEnd, List.append_nil] at hbefore
      exact hbefore
    subst hfront
    rw [beforeEnd_closed hclosed, beforeEnd] at halone
    obtain ⟨-, rfl⟩ := List.cons.inj (List.append_cancel_left heq)
    exact ⟨control, after, rfl, rfl, halone, hinner, by rw [hsigns, Nat.zero_add]⟩

end Expression

namespace Lexer

/-- The delimiter that ends an output is the one in front of nothing but blanks. -/
theorem closing_unique {left rest : List Char}
    (hbetween : hasPiece Placeholder.expressionEnd between = false) (hafter : Blank after)
    (h : between ++ (Placeholder.expressionEnd ++ after) =
      left ++ (Placeholder.expressionEnd ++ rest)) :
    between = left ∧ after = rest := by
  have hpercent : ∀ {front}, after ≠ front ++ (Placeholder.expressionEnd ++ rest) := by
    rintro front rfl
    have := hafter '%' (by simp [Placeholder.expressionEnd])
    revert this
    decide
  have hpiece : ∀ {back}, between ≠ left ++ (Placeholder.expressionEnd ++ back) := by
    rintro back rfl
    rw [hasPiece_iff.mpr ⟨left, back, rfl⟩] at hbetween
    cases hbetween
  rcases List.append_eq_append_iff.mp h with ⟨mid, rfl, hmid⟩ | ⟨mid, rfl, hmid⟩
  · rcases mid with _ | ⟨c, _ | ⟨d, mid⟩⟩
    · exact ⟨(List.append_nil between).symm, List.append_cancel_left hmid⟩
    · simp [Placeholder.expressionEnd] at hmid
    · simp only [Placeholder.expressionEnd, List.cons_append, List.nil_append,
        List.cons.injEq] at hmid
      exact absurd hmid.2.2 hpercent
  · rcases mid with _ | ⟨c, _ | ⟨d, mid⟩⟩
    · exact ⟨List.append_nil left, (List.append_cancel_left hmid).symm⟩
    · simp [Placeholder.expressionEnd] at hmid
    · simp only [Placeholder.expressionEnd, List.cons_append, List.nil_append,
        List.cons.injEq] at hmid
      obtain ⟨rfl, rfl, -⟩ := hmid
      exact absurd rfl hpiece

end Lexer

/-- How the text between the delimiters of an output is laid out: a control at either end,
separators and the text of tokens. -/
structure Layout where
  control : Lexer.Control
  lead : List Char
  core : List Char
  trail : List Char
  endControl : Lexer.Control
  tokens : List Token
  spaces_lead : Lexer.Spaces lead
  spaces_trail : Lexer.Spaces trail
  lead_eq_nil : core = [] → lead = []
  /-- The tokens are those of the text alone, and of the text up to the closing delimiter. -/
  tagText : Lexer.TagText 0 tokens core (trail ++ endControl.text)
  /-- A text that begins with a sign has a control at its front. -/
  front : control = .nothing →
    ∀ s ∈ (lead ++ (core ++ (trail ++ endControl.text))).head?, Placeholder.isTrimSign s = false
  /-- A text that ends with a sign has a control at its back. -/
  back : endControl = .nothing → trail = [] →
    ∀ s ∈ core.getLast?, Placeholder.isTrimSign s = false

namespace Layout

/-- The text behind the control at the front. -/
def body (l : Layout) : List Char := l.lead ++ (l.core ++ (l.trail ++ l.endControl.text))

/-- The text between the delimiters. -/
def inner (l : Layout) : List Char := l.control.text ++ l.body

end Layout

namespace Lexer

theorem isTrimSign_of_takeControl (h : (takeControl chars).1 = .nothing) :
    ∀ s ∈ chars.head?, Placeholder.isTrimSign s = false := by
  unfold takeControl at h
  split at h
  · cases h
  · cases h
  · next hminus hplus =>
      intro s hs
      obtain ⟨rest, rfl⟩ := List.head?_eq_some_iff.mp hs
      rw [← Bool.not_eq_true, Placeholder.isTrimSign_iff, not_or]
      exact ⟨fun heq => hminus rest (heq ▸ rfl), fun heq => hplus rest (heq ▸ rfl)⟩

/-- A closed tag whose tokens hold no fault is laid out up to the end of the output. -/
theorem exists_layout {control : Control} {rest : List Char} {fuel : Nat}
    (h : tag Placeholder.expressionEnd fuel 0
        (takeControl (between ++ (Placeholder.expressionEnd ++ after))).2 =
      (tokens, some (control, rest)))
    (hbetween : hasPiece Placeholder.expressionEnd between = false) (hafter : Blank after)
    (htokens : ∀ t ∈ tokens, t.isInner = true) :
    ∃ l : Layout, l.inner = between ∧ l.tokens = tokens ∧ rest = after := by
  obtain ⟨lead, core, trail, hchars, hlead, htrail, hnone, htext, hsign⟩ := exists_tagText h
  have hspec := takeControl_spec (between ++ (Placeholder.expressionEnd ++ after))
  have hfront := @isTrimSign_of_takeControl (between ++ (Placeholder.expressionEnd ++ after))
  generalize takeControl (between ++ (Placeholder.expressionEnd ++ after)) = taken at *
  obtain ⟨first, chars⟩ := taken
  dsimp only at *
  obtain ⟨rfl, rfl⟩ : between = first.text ++ (lead ++ (core ++ (trail ++ control.text))) ∧
      after = rest := by
    apply closing_unique hbetween hafter
    rw [hspec, hchars, tail]
    simp only [List.append_assoc]
  refine ⟨⟨first, lead, core, trail, control, tokens, hlead, htrail, hnone, ?_, ?_, ?_⟩, rfl, rfl,
    rfl⟩
  · apply htext.mono
    rw [tail, ← List.append_assoc]
    exact List.prefix_append _ _
  · rintro rfl s hs
    apply hfront rfl
    rw [Control.text, List.nil_append, List.head?_append, hs]
    rfl
  · rintro rfl rfl s hs
    rw [← Bool.not_eq_true, Placeholder.isTrimSign_iff]
    intro hs'
    have hfault := htokens _ (hsign rfl rfl s hs' hs)
    cases hfault

end Lexer

namespace Statement

open Token

theorem bodyFrom_nil {statement : Reader Statement} {expression : Reader Expression}
    {stops : List String} {read : List Statement} {fuel : Nat} :
    bodyFrom statement expression stops fuel read [] = .ok (read.reverse, []) := by
  cases fuel <;> rfl

/-- A template that is one output among blanks and can be read is its expression among texts. -/
theorem exists_of_statements?_output {statements : List Statement}
    (hsource : source.toList = before ++
      (Placeholder.expressionStart ++ (between ++ (Placeholder.expressionEnd ++ after))))
    (hbefore : Blank before) (hbetween : hasPiece Placeholder.expressionEnd between = false)
    (hafter : Blank after) (h : statements? (ofTemplate source) = .ok statements) :
    ∃ (l : Layout) (x : Expression) (texts texts' : List String), l.inner = between ∧
      Expression.read depthLimit l.tokens = .ok (x, []) ∧ x.signs = signsOf l.tokens ∧
      statements = texts.map .text ++ .output x :: texts'.map .text ∧
      ∀ s ∈ texts ++ texts', Blank s.toList := by
  obtain ⟨texts, htexts, htemplate⟩ := Lexer.exists_ofTemplate_eq hsource hbefore
  obtain ⟨⟨body, left⟩, hbody, ⟨⟩⟩ := Outcome.bind_eq_ok.mp h
  generalize htag : Lexer.tag _ _ _ _ = result at htemplate
  obtain ⟨tokens, found⟩ := result
  have hclosed : .closeOutput ∉ tokens := by
    have hfst : _ = tokens := congrArg Prod.fst htag
    rw [← hfst]
    exact Lexer.closeOutput_not_mem_tag
  have hlength : (ofTemplate source).length + 1 =
      (Lexer.outputTokens source.toList.length (tokens, found)).length + 1 + 1 + texts.length := by
    rw [htemplate, List.length_append, List.length_map, List.length_cons]
    omega
  rw [hlength, htemplate, bodyFrom_texts] at hbody
  obtain ⟨x, rest, hx, hrest⟩ := of_bodyFrom_output hbody
  obtain ⟨control, behind, rfl, rfl, hread, hinner, hsigns⟩ :=
    Expression.of_read_outputTokens hclosed hx
  obtain ⟨l, hl, rfl, rfl⟩ := Lexer.exists_layout htag hbetween hafter hinner
  obtain ⟨more, hmore⟩ : ∃ more, source.toList.length = more + 1 := by
    apply Nat.exists_eq_add_one.mpr
    apply List.length_pos_of_ne_nil
    simp [hsource, Placeholder.expressionStart]
  obtain ⟨texts', htexts', hblank⟩ := Lexer.exists_scan_eq hafter more (control == .trim)
  refine ⟨l, x, texts, texts', hl, hread, hsigns, ?_, ?_⟩
  · have hfuel : (Lexer.outputTokens source.toList.length
        (l.tokens, some (control, behind))).length + 1 = l.tokens.length + 2 + texts'.length := by
      rw [Lexer.outputTokens, hmore, htexts']
      simp only [List.length_append, List.length_cons, List.length_map]
      omega
    rw [hfuel, hmore, htexts', ← List.append_nil (texts'.map Token.text), bodyFrom_texts,
      bodyFrom_nil] at hrest
    cases hrest
    simp
  · exact fun s hs => (List.mem_append.mp hs).elim (htexts s) (hblank s)

end Statement

end Template

end ExperimentSuite
