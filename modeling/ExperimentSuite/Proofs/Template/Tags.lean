import Mathlib.Algebra.BigOperators.Group.List.Basic
import Mathlib.Algebra.Ring.Int.Defs
import ExperimentSuite.Proofs.Template.Lexing

/-!
# The text of a tag

A tag that is closed consists of blanks, the text of its tokens, blanks, and the
closing delimiter with its control. The text of its tokens makes up the same
tokens when it stands alone. A plus or minus next to the closing delimiter is
always its control, never a token of the tag.
-/

namespace ExperimentSuite

namespace Template

namespace Lexer

open Text

variable {c : Char} {w chars cs rest front : List Char} {n : Int} {fuel : Nat}
  {control : Control} {token : Token} {tokens : List Token}

/-- Whether a text consists of separators. -/
def Spaces (w : List Char) : Prop :=
  ∀ c ∈ w, isSpace c = true

theorem isBlank_of_isSpace (h : isSpace c = true) : isBlank c = true := by
  simp only [isSpace, Bool.or_eq_true, beq_iff_eq] at h
  rcases h with (((rfl | rfl) | rfl) | rfl) | rfl <;> decide

theorem skipSpaces_append (hw : Spaces w) (chars : List Char) :
    skipSpaces (w ++ chars) = skipSpaces chars :=
  List.dropWhile_append_of_pos hw

theorem skipSpaces_cons (hc : isSpace c = false) : skipSpaces (c :: cs) = c :: cs :=
  List.dropWhile_cons_of_neg (by simp [hc])

/-- What follows the separators at the front of a text. -/
theorem exists_of_skipSpaces_eq_cons (h : skipSpaces chars = c :: cs) :
    ∃ w, Spaces w ∧ chars = w ++ c :: cs ∧ isSpace c = false := by
  refine ⟨chars.takeWhile isSpace, fun d hd => List.mem_takeWhile_imp hd, ?_, ?_⟩
  · rw [← h, skipSpaces, List.takeWhile_append_dropWhile]
  · have hstop := List.head?_dropWhile_not isSpace chars
    rw [← skipSpaces, h] at hstop
    exact hstop

/-- How a control is written. -/
def Control.text : Control → List Char
  | .nothing => []
  | .keep => ['+']
  | .trim => ['-']

theorem takeControl_spec (chars : List Char) :
    chars = (takeControl chars).1.text ++ (takeControl chars).2 := by
  unfold takeControl
  split <;> rfl

/-- A tag ends with its control and the closing delimiter. -/
theorem tagEnd?_eq_some_iff :
    tagEnd? Placeholder.expressionEnd chars = some (control, rest) ↔
      chars = control.text ++ (Placeholder.expressionEnd ++ rest) := by
  constructor
  · intro h
    obtain ⟨after, hafter, heq⟩ := Option.map_eq_some_iff.mp h
    cases heq
    rw [← dropFront?_eq_some_iff.mp hafter]
    exact takeControl_spec chars
  · rintro rfl
    cases control <;> rfl

/-- What does not end a tag does not end it either when the text is cut off. -/
theorem tagEnd?_eq_none_of_prefix (h : tagEnd? Placeholder.expressionEnd chars = none)
    (hfront : front <+: chars) : tagEnd? Placeholder.expressionEnd front = none := by
  obtain ⟨behind, rfl⟩ := hfront
  cases hend : tagEnd? Placeholder.expressionEnd front with
  | none => rfl
  | some found =>
      obtain ⟨control, rest⟩ := found
      rw [tagEnd?_eq_some_iff.mp hend, List.append_assoc, List.append_assoc,
        tagEnd?_eq_some_iff.mpr rfl] at h
      cases h

/-- Whether the lexer of a tag looks for a token at a place. -/
def Open (n : Int) (chars : List Char) : Prop :=
  n = 0 → tagEnd? Placeholder.expressionEnd chars = none

theorem tag_nil : tag Placeholder.expressionEnd fuel n [] = ([], none) := by
  cases fuel <;> rfl

theorem tag_append (hw : Spaces w) (chars : List Char) :
    tag Placeholder.expressionEnd fuel n (w ++ chars) =
      tag Placeholder.expressionEnd fuel n chars := by
  rw [tag.eq_def, skipSpaces_append hw, ← tag.eq_def]

/-- One token of a tag. -/
theorem tag_token (hc : isSpace c = false) (hopen : Open n (c :: cs))
    (hlexeme : lexeme c cs = (token, rest)) :
    tag Placeholder.expressionEnd (fuel + 1) n (c :: cs) =
      (token :: (tag Placeholder.expressionEnd fuel (n + token.nesting) rest).1,
        (tag Placeholder.expressionEnd fuel (n + token.nesting) rest).2) := by
  have hend : (if n = 0 then tagEnd? Placeholder.expressionEnd (c :: cs) else none) = none := by
    split
    · next hn => exact hopen hn
    · rfl
  rw [tag.eq_def, skipSpaces_cons hc]
  simp only [hend, hlexeme]

theorem numberToken_ne_closeOutput {base : Nat} {state : NumberState} :
    numberToken base state chars ≠ .closeOutput := by
  rw [numberToken]
  split
  · simp
  · split
    · split
      · split <;> simp
      · simp
    · split <;> simp

/-- No token of a tag ends an output. -/
theorem lexeme_ne_closeOutput : (lexeme c cs).1 ≠ .closeOutput := by
  rw [lexeme]
  split
  · simp
  · split
    · rw [quoted]
      split
      · simp
      · split <;> simp
    · split
      · unfold number
        split
        exact numberToken_ne_closeOutput
      · split <;> simp

theorem closeOutput_not_mem_tag :
    Token.closeOutput ∉ (tag Placeholder.expressionEnd fuel n chars).1 := by
  induction fuel generalizing n chars with
  | zero =>
      unfold tag
      split
      · simp
      · simp
      · next heq _ => cases heq
  | succ fuel ih =>
      rw [tag.eq_def]
      split
      · simp
      · simp
      · next left c cs heq _ =>
          obtain rfl := Nat.succ.inj heq
          split
          · simp
          · dsimp only
            rw [List.mem_cons, not_or]
            exact ⟨lexeme_ne_closeOutput.symm, ih⟩

/-- A tag that is closed either ends here or goes on with a token. -/
theorem tag_cases
    (h : tag Placeholder.expressionEnd fuel n chars = (tokens, some (control, rest))) :
    ∃ left w c cs, fuel = left + 1 ∧ Spaces w ∧ isSpace c = false ∧ chars = w ++ c :: cs ∧
      ((n = 0 ∧ tokens = [] ∧ c :: cs = control.text ++ (Placeholder.expressionEnd ++ rest)) ∨
        Open n (c :: cs) ∧ ∃ token after more, lexeme c cs = (token, after) ∧
          tag Placeholder.expressionEnd left (n + token.nesting) after =
            (more, some (control, rest)) ∧ tokens = token :: more) := by
  rw [tag.eq_def] at h
  split at h
  · cases h
  · cases h
  · next left c cs hskip =>
      obtain ⟨w, hw, rfl, hc⟩ := exists_of_skipSpaces_eq_cons hskip
      refine ⟨left, w, c, cs, rfl, hw, hc, rfl, ?_⟩
      split at h
      · next found hend =>
          cases h
          split at hend
          · next hn => exact .inl ⟨hn, rfl, tagEnd?_eq_some_iff.mp hend⟩
          · cases hend
      · next hend =>
          refine .inr ⟨fun hn => by rwa [if_pos hn] at hend, ?_⟩
          obtain ⟨htokens, hafter⟩ := Prod.mk.inj h
          exact ⟨_, _, _, rfl, Prod.ext rfl hafter, htokens.symm⟩

/-- How the tokens of a closed tag are written: their text neither begins nor ends with a blank, and
separators and what ends the tag do not belong to it. -/
structure TagText (n : Int) (tokens : List Token) (core behind : List Char) : Prop where
  trimmed : Trimmed core
  balanced : n + (tokens.map Token.nesting).sum = 0
  /-- The text makes up the same tokens in front of whatever begins like what stands behind it. -/
  cut : ∀ after more, after <+: behind →
    (∀ fuel, after.length ≤ fuel → tag Placeholder.expressionEnd fuel 0 after = (more, none)) →
    ∀ fuel, (core ++ after).length ≤ fuel →
      tag Placeholder.expressionEnd fuel n (core ++ after) = (tokens ++ more, none)

/-- What stands behind the tokens of a closed tag. -/
def tail (trail : List Char) (control : Control) (rest : List Char) : List Char :=
  trail ++ (control.text ++ (Placeholder.expressionEnd ++ rest))

theorem TagText.tokens_eq_nil {behind : List Char} (h : TagText n tokens [] behind) :
    tokens = [] := by
  have hcut := h.cut [] [] List.nil_prefix (fun _ _ => tag_nil) 0 (Nat.le_refl 0)
  rw [List.append_nil, tag_nil, List.append_nil] at hcut
  exact (Prod.mk.inj hcut).1.symm

theorem TagText.mono {behind : List Char} (h : TagText n tokens core behind)
    (hfront : front <+: behind) : TagText n tokens core front :=
  { h with cut := fun after more hafter => h.cut after more (hafter.trans hfront) }

/-- A plus or minus is a token that opens and closes no bracket. -/
theorem nesting_plus_minus (hc : c = '-' ∨ c = '+') : (lexeme c cs).1.nesting = 0 := by
  rcases hc with rfl | rfl <;> cases cs <;> rfl

/-- One token more in front of the text of tokens. -/
theorem TagText.cons {lead core behind read : List Char} {tokens : List Token}
    (h : TagText (n + token.nesting) tokens core behind) (hlead : Spaces lead)
    (hnone : core = [] → lead = []) (hc : isSpace c = false)
    (hopen : Open n (c :: (read ++ (lead ++ (core ++ behind)))))
    (hspells : Spells token (c :: read))
    (hcut : ∀ mid, mid <+: lead ++ (core ++ behind) → lexeme c (read ++ mid) = (token, mid)) :
    TagText n (token :: tokens) (c :: (read ++ (lead ++ core))) behind where
  trimmed := by
    refine ⟨hspells.trimmed.1, ?_⟩
    rw [← List.cons_append, List.getLast?_append]
    cases core with
    | nil =>
        rw [hnone rfl]
        exact hspells.trimmed.2
    | cons d core =>
        have hlast := List.getLast?_eq_some_getLast (List.cons_ne_nil d core)
        rw [List.getLast?_append, hlast]
        exact fun e he => h.trimmed.2 e (hlast.trans he)
  balanced := by
    have hbalanced := h.balanced
    rw [List.map_cons, List.sum_cons]
    omega
  cut := by
    intro after more hafter hmore fuel hfuel
    have hlength : (core ++ after).length + 1 ≤ fuel := by
      simp only [List.length_append, List.length_cons] at hfuel ⊢
      omega
    obtain ⟨left, rfl⟩ : ∃ left, fuel = left + 1 := ⟨fuel - 1, by omega⟩
    have hmid : lead ++ (core ++ after) <+: lead ++ (core ++ behind) :=
      (List.prefix_append_right_inj _).mpr ((List.prefix_append_right_inj _).mpr hafter)
    have hfront : c :: (read ++ (lead ++ (core ++ after))) <+:
        c :: (read ++ (lead ++ (core ++ behind))) :=
      List.cons_prefix_cons.mpr ⟨rfl, (List.prefix_append_right_inj _).mpr hmid⟩
    have hopen' : Open n (c :: (read ++ (lead ++ (core ++ after)))) :=
      fun hn => tagEnd?_eq_none_of_prefix (hopen hn) hfront
    have htoken := @tag_token _ _ _ _ left _ hc hopen' (hcut _ hmid)
    rw [tag_append hlead, h.cut after more hafter hmore left (by omega)] at htoken
    simpa only [List.cons_append, List.append_assoc] using htoken

/-- A closed tag is the text of its tokens among separators. A plus or minus right before the
closing delimiter is its control, unless it ends a fault. -/
theorem exists_tagText
    (h : tag Placeholder.expressionEnd fuel n chars = (tokens, some (control, rest))) :
    ∃ lead core trail, chars = lead ++ (core ++ tail trail control rest) ∧ Spaces lead ∧
      Spaces trail ∧ (core = [] → lead = []) ∧ TagText n tokens core (tail trail control rest) ∧
      (control = .nothing → trail = [] → ∀ s, (s = '-' ∨ s = '+') → core.getLast? = some s →
        Token.fault .badSyntax ∈ tokens) := by
  induction fuel generalizing n chars tokens with
  | zero =>
      obtain ⟨left, -, -, -, hfuel, -⟩ := tag_cases h
      cases hfuel
  | succ fuel ih =>
      obtain ⟨left, w, c, cs, hfuel, hw, hc, rfl, hend | hgo⟩ := tag_cases h
      · obtain ⟨rfl, rfl, heq⟩ := hend
        refine ⟨[], [], w, by rw [heq]; rfl, by simp [Spaces], hw, fun _ => rfl,
          ⟨trimmed_nil, by simp, ?_⟩, by simp⟩
        intro after more _ hmore fuel hfuel
        exact hmore fuel hfuel
      · obtain ⟨hopen, token, after, more, hlexeme, hmore, rfl⟩ := hgo
        obtain rfl := Nat.succ.inj hfuel
        have hafter : after ≠ [] := by
          rintro rfl
          rw [tag_nil] at hmore
          cases hmore
        obtain ⟨read, rfl, hspells, hcut⟩ := lexeme_spec hlexeme hafter
        obtain ⟨lead, core, trail, rfl, hlead, htrail, hnone, htext, hsign⟩ := ih hmore
        refine ⟨w, c :: (read ++ (lead ++ core)), trail, by simp, hw, htrail, by simp,
          htext.cons hlead hnone hc hopen hspells hcut, ?_⟩
        rintro rfl rfl s hs hlast
        rw [← List.cons_append, List.getLast?_append] at hlast
        cases core with
        | nil =>
            obtain rfl := hnone rfl
            rcases hspells.sign s hs hlast with hwhole | rfl
            · obtain ⟨rfl, rfl⟩ := List.cons.inj hwhole
              -- the tag would have ended at the sign instead
              have hnesting : token.nesting = 0 := by
                rw [← congrArg (fun p => p.1.nesting) hlexeme]
                exact nesting_plus_minus hs
              have hbalanced := htext.balanced
              rw [htext.tokens_eq_nil, hnesting] at hbalanced
              have hend : tagEnd? Placeholder.expressionEnd (c :: tail [] .nothing rest) = none :=
                hopen (by simpa using hbalanced)
              have hsome : ∃ control,
                  tagEnd? Placeholder.expressionEnd (c :: tail [] .nothing rest) =
                    some (control, rest) := by
                rcases hs with rfl | rfl
                · exact ⟨.trim, tagEnd?_eq_some_iff.mpr rfl⟩
                · exact ⟨.keep, tagEnd?_eq_some_iff.mpr rfl⟩
              obtain ⟨control, hsome⟩ := hsome
              rw [hend] at hsome
              cases hsome
            · exact List.mem_cons_self
        | cons d core =>
            have hcore := List.getLast?_eq_some_getLast (List.cons_ne_nil d core)
            rw [List.getLast?_append, hcore] at hlast
            exact List.mem_cons_of_mem _ (hsign rfl rfl s hs (hcore.trans hlast))

end Lexer

end Template

end ExperimentSuite
