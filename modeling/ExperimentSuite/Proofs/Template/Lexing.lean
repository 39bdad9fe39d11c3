import Mathlib.Data.List.TakeWhile
import ExperimentSuite.Proofs.Text.Pieces
import ExperimentSuite.Template.Token.Lexer

/-!
# Where the tokens of a tag end

A token ends at a place that does not depend on how much text follows it: what
has been read as a token is read as the same token when the text is cut off
anywhere behind it. No token begins or ends with a blank.
-/

namespace ExperimentSuite

namespace Decimal

variable {s : Char} {chars rest : List Char}

/-- Whether a text, unless it is empty, ends in a character. -/
def EndsIn (s : Char) (chars : List Char) : Prop :=
  chars = [] ∨ chars.getLast? = some s

theorem EndsIn.dropWhile {p : Char → Bool} (hs : p s = false) (h : EndsIn s chars) :
    EndsIn s (chars.dropWhile p) := by
  rcases h with rfl | h
  · exact .inl rfl
  · obtain ⟨front, rfl⟩ := List.getLast?_eq_some_iff.mp h
    rw [List.dropWhile_append, List.dropWhile_cons_of_neg (by simp [hs])]
    split <;> exact .inr (by simp)

theorem EndsIn.tail {c : Char} (h : EndsIn s (c :: chars)) : EndsIn s chars := by
  rcases h with h | h
  · cases h
  · cases chars with
    | nil => exact .inl rfl
    | cons d chars => exact .inr h

/-- No run of digits reaches up to a sign at the end of a text. -/
theorem EndsIn.dropWhile_ne_nil (hs : s = '-' ∨ s = '+') (h : EndsIn s chars)
    (hsome : (chars.takeWhile Char.isDigit).isEmpty = false) :
    chars.dropWhile Char.isDigit ≠ [] := by
  have hdigit : s.isDigit = false := by rcases hs with rfl | rfl <;> decide
  rcases h with rfl | h
  · cases hsome
  · intro hnil
    have hall := List.dropWhile_eq_nil_iff.mp hnil s (List.mem_of_getLast? h)
    rw [hdigit] at hall
    cases hall

/-- An exponent does not reach up to a sign at the end of a text. -/
theorem exponentPart_ne_nil {found : Option Int} (hs : s = '-' ∨ s = '+') (h : EndsIn s chars)
    (hread : exponentPart chars = some (found, rest)) : chars = [] ∨ rest ≠ [] := by
  unfold exponentPart at hread
  dsimp only at hread
  split at hread
  · right
    split at hread
    · split at hread
      · cases hread
      · next hsome =>
        cases hread
        exact h.tail.tail.dropWhile_ne_nil hs (by simpa using hsome)
    · split at hread
      · cases hread
      · next hsome =>
        cases hread
        exact h.tail.tail.dropWhile_ne_nil hs (by simpa using hsome)
    · split at hread
      · cases hread
      · next hsome =>
        cases hread
        exact h.tail.dropWhile_ne_nil hs (by simpa using hsome)
  · right
    split at hread
    · split at hread
      · cases hread
      · next hsome =>
        cases hread
        exact h.tail.tail.dropWhile_ne_nil hs (by simpa using hsome)
    · split at hread
      · cases hread
      · next hsome =>
        cases hread
        exact h.tail.tail.dropWhile_ne_nil hs (by simpa using hsome)
    · split at hread
      · cases hread
      · next hsome =>
        cases hread
        exact h.tail.dropWhile_ne_nil hs (by simpa using hsome)
  · cases hread
    cases chars with
    | nil => exact .inl rfl
    | cons c chars => exact .inr (by simp)

/-- A number with a sign at the end of its text is none. -/
theorem parse_behind (hs : s = '-' ∨ s = '+') (h : EndsIn s chars) {known : Bool}
    (hknown : chars = [] → known = true) (result : Option Int × List Char → Literal) :
    (if known = true then none else (exponentPart chars).bind fun p =>
      if (!p.2.isEmpty) = true then none else some (result p)) = none := by
  split
  · rfl
  · next hnot =>
      cases hread : exponentPart chars with
      | none => rfl
      | some p =>
          rcases exponentPart_ne_nil hs h hread with hnil | hne
          · exact absurd (hknown hnil) hnot
          · simp [hne]

/-- No decimal number ends in a sign. -/
theorem Literal.parse?_eq_none (hs : s = '-' ∨ s = '+') (h : EndsIn s chars) :
    Literal.parse? chars = none := by
  have hdigit : s.isDigit = false := by rcases hs with rfl | rfl <;> decide
  unfold Literal.parse?
  split
  next negative digits hsign =>
    have hdigits : EndsIn s digits := by
      split at hsign <;> cases hsign
      · exact h.tail
      · exact h.tail
      · exact h
    have hafter := hdigits.dropWhile hdigit
    dsimp only
    split
    · next behind heq =>
        -- a sign behind the point is no digit, and the point itself is no sign
        rw [heq] at hafter
        have hbehind : behind.dropWhile Char.isDigit ≠ [] := by
          rcases hafter with hnil | hlast
          · cases hnil
          · intro hnil
            rcases List.mem_cons.mp (List.mem_of_getLast? hlast) with rfl | hmem
            · revert hs
              decide
            · rw [List.dropWhile_eq_nil_iff.mp hnil s hmem] at hdigit
              cases hdigit
        exact parse_behind hs (hafter.tail.dropWhile hdigit) (fun hnil => absurd hnil hbehind)
          fun p => ⟨negative, digitsValue (digits.takeWhile Char.isDigit ++
            behind.takeWhile Char.isDigit), p.1.getD 0 - (behind.takeWhile Char.isDigit).length⟩
    · refine parse_behind hs hafter (fun hnil => ?_)
          fun p => ⟨negative, digitsValue (digits.takeWhile Char.isDigit ++ []), p.1.getD 0 - 0⟩
      rcases hdigits with rfl | hlast
      · rfl
      · rw [List.dropWhile_eq_nil_iff.mp hnil s (List.mem_of_getLast? hlast)] at hdigit
        cases hdigit
end Decimal

namespace Template

namespace Lexer

open Text

variable {c : Char} {chars rest cs : List Char}

/-- Whether a text holds no blanks. -/
def Solid (chars : List Char) : Prop :=
  ∀ c ∈ chars, isBlank c = false

theorem isBlank_of_ascii (hlow : 0x20 < c.toNat) (hhigh : c.toNat < 0x80) :
    isBlank c = false := by
  simp only [isBlank, Bool.or_eq_false_iff, Bool.and_eq_false_iff, decide_eq_false_iff_not,
    beq_eq_false_iff_ne]
  omega

theorem toNat_of_isDigit (h : c.isDigit = true) : 48 ≤ c.toNat ∧ c.toNat ≤ 57 := by
  simpa [Char.isDigit, UInt32.le_iff_toNat_le] using h

theorem toNat_of_isAlpha (h : c.isAlpha = true) : 65 ≤ c.toNat ∧ c.toNat ≤ 122 := by
  rcases (Bool.or_eq_true _ _).mp h with hupper | hlower
  · have hrange : 65 ≤ c.toNat ∧ c.toNat ≤ 90 := of_decide_eq_true hupper
    omega
  · obtain ⟨hlow, hhigh⟩ := (Bool.and_eq_true _ _).mp hlower
    have hfrom : 97 ≤ c.toNat := of_decide_eq_true hlow
    have hto : c.toNat ≤ 122 := of_decide_eq_true hhigh
    omega

theorem isBlank_of_isDigit (h : c.isDigit = true) : isBlank c = false := by
  have := toNat_of_isDigit h
  exact isBlank_of_ascii (by omega) (by omega)

theorem isBlank_of_isWordAscii (h : isWordAscii c = true) : isBlank c = false := by
  simp only [isWordAscii, Char.isAlphanum, Bool.or_eq_true, beq_iff_eq] at h
  rcases h with (halpha | hdigit) | rfl
  · have := toNat_of_isAlpha halpha
    exact isBlank_of_ascii (by omega) (by omega)
  · exact isBlank_of_isDigit hdigit
  · decide

theorem isBlank_of_hexValue? (h : (hexValue? c).isSome = true) : isBlank c = false := by
  have hrange : ∀ {low high : Char}, 0x20 < low.toNat → high.toNat < 0x80 → low ≤ c ∧ c ≤ high →
      isBlank c = false := by
    intro low high hlow hhigh hc
    have hfrom : low.toNat ≤ c.toNat := hc.1
    have hto : c.toNat ≤ high.toNat := hc.2
    exact isBlank_of_ascii (by omega) (by omega)
  rw [hexValue?] at h
  split at h
  · next hc => exact hrange (by decide) (by decide) hc
  · split at h
    · next hc => exact hrange (by decide) (by decide) hc
    · split at h
      · next hc => exact hrange (by decide) (by decide) hc
      · cases h

theorem isBlank_of_numberStep? {base : Nat} {state next : NumberState}
    (h : numberStep? base state c = some next) : isBlank c = false := by
  rw [numberStep?.eq_def] at h
  split at h
  · next hc =>
      rw [hc]
      decide
  · split at h
    · next hc => exact isBlank_of_isDigit hc
    · cases state with
      | based =>
          dsimp only at h
          split at h
          · next hc => exact isBlank_of_hexValue? hc.2
          · cases h
      | integer =>
          dsimp only at h
          split at h
          · next hc => rw [hc]; decide
          · split at h
            · next hc => rcases hc with rfl | rfl <;> decide
            · cases h
      | fraction =>
          dsimp only at h
          split at h
          · next hc => rcases hc with rfl | rfl <;> decide
          · cases h
      | exponent =>
          dsimp only at h
          split at h
          · next hc => rcases hc with rfl | rfl <;> decide
          · cases h
      | exponentDigits => cases h

/-- The characters of a number are no blanks, and they are the same wherever the text is cut off
behind them. -/
theorem numberRun_spec {base : Nat} {state last : NumberState} {digits : List Char}
    (h : numberRun base state chars = (digits, last, rest)) :
    chars = digits ++ rest ∧ Solid digits ∧
      ∀ mid, mid <+: rest → numberRun base state (digits ++ mid) = (digits, last, mid) := by
  induction chars generalizing state digits with
  | nil =>
      cases h
      refine ⟨rfl, by simp [Solid], fun mid hmid => ?_⟩
      rw [List.prefix_nil.mp hmid]
      rfl
  | cons c chars ih =>
      cases hstep : numberStep? base state c with
      | none =>
          simp only [numberRun, hstep] at h
          cases h
          refine ⟨rfl, by simp [Solid], fun mid hmid => ?_⟩
          cases mid with
          | nil => rfl
          | cons d mid =>
              obtain ⟨rfl, -⟩ := List.cons_prefix_cons.mp hmid
              simp only [List.nil_append, numberRun, hstep]
      | some next =>
          simp only [numberRun, hstep] at h
          cases h
          obtain ⟨heq, hsolid, hcut⟩ := ih rfl
          refine ⟨congrArg (c :: ·) heq,
            List.forall_mem_cons.mpr ⟨isBlank_of_numberStep? hstep, hsolid⟩, fun mid hmid => ?_⟩
          simp only [List.cons_append, numberRun, hstep, hcut mid hmid]

/-- A number whose base and first state are known. -/
def numberAfter (base : Nat) (state : NumberState) (body : List Char) : Token × List Char :=
  (numberToken base (numberRun base state body).2.1 (numberRun base state body).1,
    (numberRun base state body).2.2)

/-- A number begins with the mark of its base, or else is one to the base of ten however short the
text is cut. -/
theorem number_cases (chars : List Char) :
    (∃ mark base rest, chars = '0' :: mark :: rest ∧ mark ∈ ['b', 'B', 'o', 'O', 'x', 'X'] ∧
      ∀ rest, number ('0' :: mark :: rest) = numberAfter base .based rest) ∨
    ∀ front, front <+: chars → number front = numberAfter 10 .integer front := by
  by_cases hmark : ∃ mark rest, chars = '0' :: mark :: rest ∧
      mark ∈ ['b', 'B', 'o', 'O', 'x', 'X']
  · left
    obtain ⟨mark, rest, rfl, hmark⟩ := hmark
    simp only [List.mem_cons, List.not_mem_nil, or_false] at hmark
    rcases hmark with rfl | rfl | rfl | rfl | rfl | rfl
    · exact ⟨_, 2, rest, rfl, by simp, fun _ => rfl⟩
    · exact ⟨_, 2, rest, rfl, by simp, fun _ => rfl⟩
    · exact ⟨_, 8, rest, rfl, by simp, fun _ => rfl⟩
    · exact ⟨_, 8, rest, rfl, by simp, fun _ => rfl⟩
    · exact ⟨_, 16, rest, rfl, by simp, fun _ => rfl⟩
    · exact ⟨_, 16, rest, rfl, by simp, fun _ => rfl⟩
  · right
    rintro front ⟨behind, rfl⟩
    have hnone : ∀ mark rest, mark ∈ ['b', 'B', 'o', 'O', 'x', 'X'] →
        front ≠ '0' :: mark :: rest := by
      rintro mark rest hmem rfl
      exact hmark ⟨mark, rest ++ behind, rfl, hmem⟩
    unfold number
    split
    next heq =>
      split at heq
      case h_7 =>
        cases heq
        rfl
      all_goals exact absurd rfl (hnone _ _ (by simp))

/-- A number does not end in a sign. -/
theorem numberToken_of_sign {base : Nat} {state : NumberState} {s : Char}
    (hs : s = '-' ∨ s = '+') (h : chars.getLast? = some s) :
    numberToken base state chars = .fault .badSyntax := by
  have hne : s ≠ '_' := by rcases hs with rfl | rfl <;> decide
  obtain ⟨front, rfl⟩ := List.getLast?_eq_some_iff.mp h
  have hfilter : (front ++ [s]).filter (· != '_') = front.filter (· != '_') ++ [s] := by
    simp [hne]
  have hint : numberIn? base (front.filter (· != '_') ++ [s]) = none := by
    have hvalue : hexValue? s = none := by rcases hs with rfl | rfl <;> decide
    simp [numberIn?, List.foldl_append, hvalue]
  have hfloat : Decimal.Literal.parse? (front.filter (· != '_') ++ [s]) = none :=
    Decimal.Literal.parse?_eq_none hs (.inr (by simp))
  rw [numberToken, hfilter, hint, hfloat]
  simp

/-- The token of a number is the same wherever the text is cut off behind it, and it is none if it
ends in a sign. -/
theorem number_spec {token : Token} (hc : c.isDigit = true)
    (h : number (c :: cs) = (token, rest)) :
    ∃ read, cs = read ++ rest ∧ Solid read ∧
      (∀ s, (s = '-' ∨ s = '+') → read.getLast? = some s → token = .fault .badSyntax) ∧
      ∀ mid, mid <+: rest → number (c :: (read ++ mid)) = (token, mid) := by
  have hafter : ∀ {base state body}, numberAfter base state body = (token, rest) →
      ∃ digits, body = digits ++ rest ∧ digits = (numberRun base state body).1 ∧ Solid digits ∧
        (∀ s, (s = '-' ∨ s = '+') → digits.getLast? = some s → token = .fault .badSyntax) ∧
        ∀ mid, mid <+: rest → numberAfter base state (digits ++ mid) = (token, mid) := by
    intro base state body h
    obtain ⟨rfl, rfl⟩ := Prod.mk.inj h
    obtain ⟨hbody, hsolid, hcut⟩ := numberRun_spec (rfl : numberRun base state body = _)
    refine ⟨_, hbody, rfl, hsolid, fun s hs hlast => numberToken_of_sign hs hlast, ?_⟩
    intro mid hmid
    simp only [numberAfter, hcut mid hmid]
  rcases number_cases (c :: cs) with ⟨mark, base, body, heq, hmark, hnumber⟩ | hnumber
  · obtain ⟨rfl, rfl⟩ := List.cons.inj heq
    rw [hnumber] at h
    obtain ⟨digits, rfl, -, hsolid, hfault, hcut⟩ := hafter h
    have hmarks : ∀ m ∈ ['b', 'B', 'o', 'O', 'x', 'X'], isBlank m = false ∧ m ≠ '-' ∧ m ≠ '+' := by
      simp [isBlank]
    obtain ⟨hblank, hminus, hplus⟩ := hmarks mark hmark
    refine ⟨mark :: digits, rfl, List.forall_mem_cons.mpr ⟨hblank, hsolid⟩, ?_, ?_⟩
    · intro s hs hlast
      cases digits with
      | nil =>
          obtain rfl := Option.some.inj hlast
          exact hs.elim (fun heq => absurd heq hminus) fun heq => absurd heq hplus
      | cons d digits => exact hfault s hs hlast
    · intro mid hmid
      rw [List.cons_append, hnumber, hcut mid hmid]
  · rw [hnumber _ List.prefix_rfl] at h
    obtain ⟨digits, hdigits, hrun, hsolid, hfault, hcut⟩ := hafter h
    have hstep : numberStep? 10 .integer c = some .integer := by
      have hne : c ≠ '_' := by
        rintro rfl
        cases hc
      simp [numberStep?, hne, hc]
    cases digits with
    | nil => simp [numberRun, hstep] at hrun
    | cons d digits =>
        obtain ⟨rfl, rfl⟩ := List.cons.inj hdigits
        refine ⟨digits, rfl, (List.forall_mem_cons.mp hsolid).2, ?_, ?_⟩
        · intro s hs hlast
          apply hfault s hs
          rw [List.getLast?_cons, hlast]
          rfl
        · intro mid hmid
          have hfront : c :: (digits ++ mid) <+: c :: (digits ++ rest) :=
            List.cons_prefix_cons.mpr ⟨rfl, (List.prefix_append_right_inj digits).mpr hmid⟩
          rw [hnumber _ hfront]
          exact hcut mid hmid

theorem quotedBody_cons {quote : Char} (hc : c ≠ '\\') :
    quotedBody quote (c :: chars) =
      if c = quote then some ([], chars)
      else (quotedBody quote chars).map fun (body, after) => (c :: body, after) := by
  rw [quotedBody]
  · intro hnil
    exact absurd hnil hc
  · intro d rest hescape
    exact absurd hescape hc

/-- A quoted text ends at its closing quote, whatever follows. -/
theorem quotedBody_spec {quote : Char} {body : List Char} (hq : quote ≠ '\\')
    (h : quotedBody quote chars = some (body, rest)) :
    chars = body ++ quote :: rest ∧
      ∀ after, quotedBody quote (body ++ quote :: after) = some (body, after) := by
  induction chars using quotedBody.induct quote generalizing body with
  | case1 => cases h
  | case2 => cases h
  | case3 c chars ih =>
      obtain ⟨⟨inner, final⟩, hinner, heq⟩ := Option.map_eq_some_iff.mp h
      cases heq
      obtain ⟨hchars, hafter⟩ := ih hinner
      refine ⟨by rw [hchars]; rfl, fun after => ?_⟩
      simp only [List.cons_append, quotedBody, hafter after, Option.map_some]
  | case4 chars =>
      rw [quotedBody_cons hq, if_pos rfl] at h
      cases h
      refine ⟨rfl, fun after => ?_⟩
      rw [List.nil_append, quotedBody_cons hq, if_pos rfl]
  | case5 c chars hlast hescape hc ih =>
      have hslash : c ≠ '\\' := by
        intro hslash
        cases chars with
        | nil => exact hlast hslash rfl
        | cons d chars => exact hescape d chars hslash rfl
      rw [quotedBody_cons hslash, if_neg hc] at h
      obtain ⟨⟨inner, final⟩, hinner, heq⟩ := Option.map_eq_some_iff.mp h
      cases heq
      obtain ⟨hchars, hafter⟩ := ih hinner
      refine ⟨by rw [hchars]; rfl, fun after => ?_⟩
      rw [List.cons_append, quotedBody_cons hslash, if_neg hc, hafter after]
      rfl

theorem isBlank_of_shortSign? {s : Sign} (h : shortSign? c = some s) : isBlank c = false := by
  unfold shortSign? at h
  split at h
  case h_20 => cases h
  all_goals decide

theorem isBlank_of_longSign? {s : Sign} {d : Char} (h : longSign? c d = some s) :
    isBlank c = false ∧ isBlank d = false ∧ d ≠ '-' ∧ d ≠ '+' := by
  unfold longSign? at h
  split at h
  case h_7 => cases h
  all_goals decide

/-- A sign of one or two characters is the same wherever the text is cut off behind it. -/
theorem sign?_spec {s : Sign} (h : sign? (c :: cs) = some (s, rest)) :
    ∃ read, cs = read ++ rest ∧ isBlank c = false ∧ Solid read ∧
      (∀ d, read.getLast? = some d → d ≠ '-' ∧ d ≠ '+') ∧
      ∀ mid, mid <+: rest → sign? (c :: (read ++ mid)) = some (s, mid) := by
  cases cs with
  | nil =>
      obtain ⟨s', hshort, heq⟩ := Option.map_eq_some_iff.mp h
      cases heq
      refine ⟨[], rfl, isBlank_of_shortSign? hshort, by simp [Solid], by simp, fun mid hmid => ?_⟩
      rw [List.prefix_nil.mp hmid]
      exact h
  | cons d cs =>
      cases hlong : longSign? c d with
      | some s' =>
          simp only [sign?, hlong] at h
          cases h
          obtain ⟨hc, hd, hminus, hplus⟩ := isBlank_of_longSign? hlong
          refine ⟨[d], rfl, hc, by simpa [Solid] using hd, ?_, fun mid _ => ?_⟩
          · rintro _ ⟨⟩
            exact ⟨hminus, hplus⟩
          · simp only [List.cons_append, List.nil_append, sign?, hlong]
      | none =>
          simp only [sign?, hlong] at h
          obtain ⟨s', hshort, heq⟩ := Option.map_eq_some_iff.mp h
          cases heq
          refine ⟨[], rfl, isBlank_of_shortSign? hshort, by simp [Solid], by simp, ?_⟩
          intro mid hmid
          cases mid with
          | nil => simp only [List.append_nil, sign?, hshort, Option.map_some]
          | cons e mid =>
              obtain ⟨rfl, -⟩ := List.cons_prefix_cons.mp hmid
              simp only [List.nil_append, sign?, hlong, hshort, Option.map_some]

/-- What is no sign is none either when the text is cut off. -/
theorem sign?_eq_none_of_prefix {front : List Char} (h : sign? (c :: cs) = none)
    (hfront : front <+: cs) : sign? (c :: front) = none := by
  cases cs with
  | nil =>
      rw [List.prefix_nil.mp hfront]
      exact h
  | cons d cs =>
      cases hlong : longSign? c d with
      | some s => simp [sign?, hlong] at h
      | none =>
          simp only [sign?, hlong, Option.map_eq_none_iff] at h
          cases front with
          | nil => simp only [sign?, h, Option.map_none]
          | cons e front =>
              obtain ⟨rfl, -⟩ := List.cons_prefix_cons.mp hfront
              simp only [sign?, hlong, h, Option.map_none]

/-- The text of a token neither begins nor ends with a blank, and it only ends in a plus or minus
that is the whole of it, unless the token is a fault. -/
structure Spells (token : Token) (read : List Char) : Prop where
  trimmed : Trimmed read
  sign : ∀ s, (s = '-' ∨ s = '+') → read.getLast? = some s → read = [s] ∨ token = .fault .badSyntax

theorem trimmed_of_solid (h : Solid chars) : Trimmed chars :=
  ⟨fun c hc => h c (List.mem_of_head? hc), fun c hc => h c (List.mem_of_getLast? hc)⟩

theorem spells_of_solid {token : Token} (h : Solid chars)
    (hsign : ∀ s, (s = '-' ∨ s = '+') → chars.getLast? = some s →
      chars = [s] ∨ token = .fault .badSyntax) :
    Spells token chars :=
  ⟨trimmed_of_solid h, hsign⟩

/-- A token that is a sign is spelt without blanks. -/
theorem spells_sign {s : Sign} {read : List Char} (hc : isBlank c = false) (hsolid : Solid read)
    (hlast : ∀ d, read.getLast? = some d → d ≠ '-' ∧ d ≠ '+') :
    Spells (.sign s) (c :: read) := by
  refine spells_of_solid (List.forall_mem_cons.mpr ⟨hc, hsolid⟩) fun d hd hend => ?_
  cases read with
  | nil =>
      obtain rfl := Option.some.inj hend
      exact .inl rfl
  | cons e read =>
      obtain ⟨hminus, hplus⟩ := hlast d hend
      rcases hd with rfl | rfl <;> contradiction

/-- A name goes on to the first character that is none of its own. -/
theorem span_spec {p : Char → Bool} :
    cs = cs.takeWhile p ++ cs.dropWhile p ∧
      ∀ mid, mid <+: cs.dropWhile p → (cs.takeWhile p ++ mid).takeWhile p = cs.takeWhile p ∧
        (cs.takeWhile p ++ mid).dropWhile p = mid := by
  refine ⟨List.takeWhile_append_dropWhile.symm, fun mid hmid => ?_⟩
  have hall : ∀ c ∈ cs.takeWhile p, p c = true := fun c hc => List.mem_takeWhile_imp hc
  rw [List.takeWhile_append_of_pos hall, List.dropWhile_append_of_pos hall]
  cases mid with
  | nil => simp
  | cons d mid =>
      obtain ⟨behind, hbehind⟩ := hmid
      have hd : p d = false := by
        have hstop := List.head?_dropWhile_not p cs
        rw [← hbehind] at hstop
        exact hstop
      have hneg : ¬p d = true := by simp [hd]
      rw [List.takeWhile_cons_of_neg hneg, List.dropWhile_cons_of_neg hneg, List.append_nil]
      exact ⟨rfl, rfl⟩

theorem isWordAscii_of_isNameStart (h : isNameStart c = true) : isWordAscii c = true := by
  simp only [isNameStart, Bool.or_eq_true] at h
  simp only [isWordAscii, Char.isAlphanum, Bool.or_eq_true]
  rcases h with halpha | hunderscore
  · exact .inl (.inl halpha)
  · exact .inr hunderscore

/-- A string that is closed is spelt by its quotes and what stands between them. -/
theorem quoted_spec {token : Token} (hquote : c = '\'' ∨ c = '"') (h : quoted c cs = (token, rest))
    (hrest : rest ≠ []) :
    ∃ body, cs = body ++ c :: rest ∧ Spells token (c :: (body ++ [c])) ∧
      ∀ mid, quoted c (body ++ c :: mid) = (token, mid) := by
  have hslash : c ≠ '\\' := by rcases hquote with rfl | rfl <;> decide
  rw [quoted] at h
  split at h
  · cases h
    exact absurd rfl hrest
  · next body after hbody =>
      obtain ⟨rfl, hcut⟩ := quotedBody_spec hslash hbody
      split at h
      · next s hescape =>
          cases h
          have hlast : (c :: (body ++ [c])).getLast? = some c :=
            @List.getLast?_concat _ (c :: body) c
          refine ⟨body, rfl, ⟨⟨?_, ?_⟩, ?_⟩, fun mid => ?_⟩
          · rintro _ ⟨⟩
            rcases hquote with rfl | rfl <;> decide
          · intro d hd
            obtain rfl := Option.some.inj (hlast.symm.trans hd)
            rcases hquote with rfl | rfl <;> decide
          · intro s hs hend
            obtain rfl := Option.some.inj (hlast.symm.trans hend)
            rcases hquote with rfl | rfl <;> rcases hs with h | h <;> cases h
          · rw [quoted, hcut]
            simp only [hescape]
      · cases h
        exact absurd rfl hrest

/-- A token that something follows is the same wherever the text is cut off behind it. -/
theorem lexeme_spec {token : Token} (h : lexeme c cs = (token, rest)) (hrest : rest ≠ []) :
    ∃ read, cs = read ++ rest ∧ Spells token (c :: read) ∧
      ∀ mid, mid <+: rest → lexeme c (read ++ mid) = (token, mid) := by
  rw [lexeme] at h
  split at h
  · next s rest' hsign =>
      cases h
      obtain ⟨read, rfl, hc, hsolid, hlast, hcut⟩ := sign?_spec hsign
      exact ⟨read, rfl, spells_sign hc hsolid hlast, fun mid hmid => by rw [lexeme, hcut mid hmid]⟩
  · next hsign =>
      have hnone : ∀ read mid, cs = read ++ rest → mid <+: rest →
          sign? (c :: (read ++ mid)) = none := by
        rintro read mid rfl hmid
        exact sign?_eq_none_of_prefix hsign ((List.prefix_append_right_inj read).mpr hmid)
      split at h
      · next hquote =>
          obtain ⟨body, rfl, hspells, hcut⟩ := quoted_spec hquote h hrest
          refine ⟨body ++ [c], by simp, hspells, fun mid hmid => ?_⟩
          rw [lexeme, hnone (body ++ [c]) mid (by simp) hmid, List.append_assoc]
          simp only [hquote, if_true, List.singleton_append]
          exact hcut mid
      · next hquote =>
          split at h
          · next hdigit =>
              obtain ⟨read, rfl, hsolid, hfault, hcut⟩ := number_spec hdigit h
              have hall : Solid (c :: read) :=
                List.forall_mem_cons.mpr ⟨isBlank_of_isDigit hdigit, hsolid⟩
              refine ⟨read, rfl, spells_of_solid hall fun s hs hend => ?_, fun mid hmid => ?_⟩
              · cases read with
                | nil =>
                    obtain rfl := Option.some.inj hend
                    exact .inl rfl
                | cons d read => exact .inr (hfault s hs hend)
              · rw [lexeme, hnone read mid rfl hmid]
                simp only [hquote, hdigit, if_false, if_true]
                exact hcut mid hmid
          · next hdigit =>
              split at h
              · next hname =>
                  have hword := isWordAscii_of_isNameStart hname
                  obtain ⟨hcs, hcut⟩ := @span_spec cs isWordAscii
                  rw [List.takeWhile_cons_of_pos hword, List.dropWhile_cons_of_pos hword] at h
                  cases h
                  have hall : Solid (c :: cs.takeWhile isWordAscii) :=
                    List.forall_mem_cons.mpr ⟨isBlank_of_isWordAscii hword,
                      fun d hd => isBlank_of_isWordAscii (List.mem_takeWhile_imp hd)⟩
                  refine ⟨_, hcs, spells_of_solid hall fun s hs hend => ?_, fun mid hmid => ?_⟩
                  · have hall : ∀ d ∈ c :: cs.takeWhile isWordAscii, isWordAscii d = true :=
                      List.forall_mem_cons.mpr ⟨hword, fun d hd => List.mem_takeWhile_imp hd⟩
                    have hs' := hall s (List.mem_of_getLast? hend)
                    rcases hs with rfl | rfl <;> cases hs'
                  · obtain ⟨htake, hdrop⟩ := hcut mid hmid
                    rw [lexeme, hnone _ mid hcs hmid, List.takeWhile_cons_of_pos hword,
                      List.dropWhile_cons_of_pos hword, htake, hdrop]
                    simp only [hquote, hdigit, hname, if_false, if_true, Bool.false_eq_true]
              · cases h
                exact absurd rfl hrest

end Lexer

end Template

end ExperimentSuite
