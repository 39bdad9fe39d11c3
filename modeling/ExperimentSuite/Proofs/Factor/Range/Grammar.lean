import ExperimentSuite.Factor.Range
import ExperimentSuite.Proofs.Text.Pieces

/-!
# The grammar of range expressions

A range expression is the word `range`, an opening parenthesis, one to three
numerals with commas between them, and a closing parenthesis. Blanks may stand
everywhere but inside the word, before the parenthesis that opens and inside
the numerals, whose digits may be of any script. The reader of range
expressions finds the numerals of a text exactly when this grammar has them.
-/

namespace ExperimentSuite

namespace Range

open Text

/-- The text of a numeral: a minus for a negative one, then its digits. -/
def numeral (t : Bool × List Char) : List Char :=
  if t.1 then '-' :: t.2 else t.2

/-- Whether there are digits, and only digits, behind the sign. -/
def Proper (t : Bool × List Char) : Prop :=
  t.2 ≠ [] ∧ ∀ c ∈ t.2, isDigit c = true

/-- The texts that list further numerals, each behind a comma, and then close the parenthesis. -/
inductive Listed : List (Bool × List Char) → List Char → Prop
  | close {w : List Char} (hw : Blank w) : Listed [] (w ++ [')'])
  | comma {t : Bool × List Char} {others : List (Bool × List Char)} {w w' rest : List Char}
      (hw : Blank w) (hw' : Blank w') (ht : Proper t) (h : Listed others rest) :
      Listed (t :: others) (w ++ ',' :: (w' ++ (numeral t ++ rest)))

/-- The range expressions with the given one to three numerals. -/
inductive Written (expression : String) : List (Bool × List Char) → Prop
  | intro {t : Bool × List Char} {others : List (Bool × List Char)}
      {w w' rest w'' : List Char} (hw : Blank w) (hw' : Blank w') (ht : Proper t)
      (h : Listed others rest) (hfew : others.length ≤ 2) (hw'' : Blank w'')
      (heq : expression.toList =
        w ++ ("range(".toList ++ (w' ++ (numeral t ++ (rest ++ w''))))) :
      Written expression (t :: others)

variable {expression : String} {t : Bool × List Char} {texts others : List (Bool × List Char)}
  {chars rest after : List Char}

/-- The longest run of digits at the front of a text, for a numeral with a known sign. -/
def run (negative : Bool) (chars : List Char) : Option ((Bool × List Char) × List Char) :=
  let digits := chars.takeWhile isDigit
  if digits.isEmpty then none else some ((negative, digits), chars.dropWhile isDigit)

theorem signedDigits_minus : signedDigits ('-' :: chars) = run true chars := rfl

theorem signedDigits_of_head? (h : chars.head? ≠ some '-') :
    signedDigits chars = run false chars := by
  cases chars with
  | nil => rfl
  | cons c chars =>
      have hc : c ≠ '-' := by
        rintro rfl
        exact h rfl
      simp [signedDigits, run, hc]

/-- A run of digits ends before the first character that is no digit. -/
theorem run_eq_some_iff {negative : Bool} : run negative chars = some (t, rest) ↔
    t.1 = negative ∧ Proper t ∧ chars = t.2 ++ rest ∧ ∀ c ∈ rest.head?, isDigit c = false := by
  constructor
  · intro h
    rw [run] at h
    split at h
    · cases h
    · next hne =>
        cases h
        refine ⟨rfl, ⟨by simpa using hne, fun c hc => List.mem_takeWhile_imp hc⟩,
          List.takeWhile_append_dropWhile.symm, ?_⟩
        intro c hc
        have hstop := List.head?_dropWhile_not isDigit chars
        rw [Option.mem_def.mp hc] at hstop
        exact hstop
  · rintro ⟨rfl, ⟨hne, hdigits⟩, rfl, hstop⟩
    have hnone : rest.takeWhile isDigit = [] ∧ rest.dropWhile isDigit = rest := by
      cases rest with
      | nil => exact ⟨rfl, rfl⟩
      | cons c rest =>
          have hc : ¬isDigit c = true := by simp [hstop c rfl]
          exact ⟨List.takeWhile_cons_of_neg hc, List.dropWhile_cons_of_neg hc⟩
    rw [run, List.takeWhile_append_of_pos hdigits, List.dropWhile_append_of_pos hdigits, hnone.1,
      hnone.2, List.append_nil, if_neg (by simpa using hne)]

/-- A numeral begins with its minus or with a digit. -/
theorem head?_numeral (ht : Proper t) : ∃ c, (numeral t ++ rest).head? = some c ∧
    (t.1 = true ∧ c = '-' ∨ t.1 = false ∧ isDigit c = true) := by
  obtain ⟨negative, digits⟩ := t
  cases negative with
  | true => exact ⟨'-', rfl, .inl ⟨rfl, rfl⟩⟩
  | false =>
      cases digits with
      | nil => exact absurd rfl ht.1
      | cons d digits => exact ⟨d, rfl, .inr ⟨rfl, ht.2 d List.mem_cons_self⟩⟩

/-- What is read from the front of a text is a numeral that no further digit follows. -/
theorem signedDigits_eq_some_iff : signedDigits chars = some (t, rest) ↔
    Proper t ∧ chars = numeral t ++ rest ∧ ∀ c ∈ rest.head?, isDigit c = false := by
  by_cases hminus : chars.head? = some '-'
  · obtain ⟨chars, rfl⟩ := List.head?_eq_some_iff.mp hminus
    rw [signedDigits_minus, run_eq_some_iff]
    constructor
    · rintro ⟨hnegative, ht, rfl, hstop⟩
      exact ⟨ht, by rw [numeral, if_pos hnegative, List.cons_append], hstop⟩
    · rintro ⟨ht, heq, hstop⟩
      obtain ⟨c, hc, ⟨hnegative, -⟩ | ⟨-, hdigit⟩⟩ := @head?_numeral t rest ht
      · rw [numeral, if_pos hnegative, List.cons_append] at heq
        exact ⟨hnegative, ht, (List.cons.inj heq).2, hstop⟩
      · rw [← heq] at hc
        obtain rfl := Option.some.inj hc
        exact absurd hdigit (by decide)
  · rw [signedDigits_of_head? hminus, run_eq_some_iff]
    constructor
    · rintro ⟨hnegative, ht, rfl, hstop⟩
      exact ⟨ht, by rw [numeral, if_neg (by simp [hnegative])], hstop⟩
    · rintro ⟨ht, rfl, hstop⟩
      obtain ⟨c, hc, ⟨hnegative, rfl⟩ | ⟨hnegative, -⟩⟩ := @head?_numeral t rest ht
      · exact absurd hc hminus
      · exact ⟨hnegative, ht, by rw [numeral, if_neg (by simp [hnegative])], hstop⟩

/-- No blank begins a numeral. -/
theorem trimStart_numeral (ht : Proper t) : trimStart (numeral t ++ rest) = numeral t ++ rest := by
  obtain ⟨c, hc, hfirst⟩ := @head?_numeral t rest ht
  obtain ⟨rest', heq⟩ := List.head?_eq_some_iff.mp hc
  have hblank : isBlank c = false := by
    rcases hfirst with ⟨-, rfl⟩ | ⟨-, hdigit⟩
    · decide
    · by_contra hblank
      rw [isDigit_eq_false_of_isBlank (by simpa using hblank)] at hdigit
      cases hdigit
  rw [heq, trimStart_cons hblank]

/-- No digit begins the text behind a numeral. -/
theorem Listed.head_not_digit (h : Listed others rest) :
    ∀ c ∈ (rest ++ after).head?, isDigit c = false := by
  have hblank : ∀ {w : List Char} {d : Char} {more : List Char}, Blank w → isDigit d = false →
      ∀ c ∈ (w ++ d :: more).head?, isDigit c = false := by
    intro w d more hw hd c hc
    cases w with
    | nil =>
        obtain rfl := Option.some.inj hc
        exact hd
    | cons b w =>
        obtain rfl := Option.some.inj hc
        exact isDigit_eq_false_of_isBlank (hw _ List.mem_cons_self)
  cases h with
  | close hw =>
      rw [List.append_assoc]
      exact hblank hw (by decide)
  | comma hw hw' ht h =>
      rw [List.append_assoc]
      exact hblank hw (by decide)

theorem furtherBounds_of_close {left : Nat} (h : trimStart chars = ')' :: after) :
    furtherBounds left chars = some ([], after) := by
  unfold furtherBounds
  split
  · next rest heq =>
      rw [h] at heq
      cases heq
      rfl
  · next rest heq =>
      rw [h] at heq
      cases heq
  · next hclose _ => exact absurd h (hclose after)

theorem furtherBounds_of_comma {left : Nat} (h : trimStart chars = ',' :: rest) :
    furtherBounds (left + 1) chars = (signedDigits (trimStart rest)).bind fun (first, rest) =>
      (furtherBounds left rest).map fun (others, rest) => (first :: others, rest) := by
  rw [furtherBounds.eq_def (left + 1)]
  split
  · next heq =>
      rw [h] at heq
      cases heq
  · next left' rest' hleft heq =>
      obtain rfl := Nat.succ.inj hleft
      obtain rfl := (List.cons.inj (h.symm.trans heq)).2
      cases signedDigits (trimStart rest) with
      | none => rfl
      | some first =>
          simp only [Option.bind_eq_bind, Option.bind_some]
          cases furtherBounds left first.2 <;> rfl
  · next hcomma => exact absurd h (hcomma left rest rfl)

/-- Further bounds end with the parenthesis or go on with a comma, if one more is allowed. -/
theorem trimStart_of_furtherBounds {left : Nat} {result : List (Bool × List Char) × List Char}
    (h : furtherBounds left chars = some result) :
    (∃ rest, trimStart chars = ')' :: rest) ∨
      ∃ left' rest, left = left' + 1 ∧ trimStart chars = ',' :: rest := by
  unfold furtherBounds at h
  split at h
  · next rest heq => exact .inl ⟨rest, heq⟩
  · next left' rest heq => exact .inr ⟨left', rest, rfl, heq⟩
  · cases h

/-- Further bounds that are read are listed, in the number that is allowed. -/
theorem furtherBounds_sound {left : Nat} (h : furtherBounds left chars = some (others, after)) :
    others.length ≤ left ∧ ∃ rest, Listed others rest ∧ chars = rest ++ after := by
  induction left generalizing chars others after with
  | zero =>
      obtain ⟨w, hw, heq⟩ := exists_eq_append_trimStart chars
      obtain ⟨rest, hclose⟩ | ⟨left', rest, hleft, -⟩ := trimStart_of_furtherBounds h
      · rw [furtherBounds_of_close hclose] at h
        cases h
        exact ⟨Nat.le_refl _, w ++ [')'], .close hw, by simpa [hclose] using heq⟩
      · cases hleft
  | succ left ih =>
      obtain ⟨w, hw, heq⟩ := exists_eq_append_trimStart chars
      obtain ⟨rest, hclose⟩ | ⟨left', rest, hleft, hcomma⟩ := trimStart_of_furtherBounds h
      · rw [furtherBounds_of_close hclose] at h
        cases h
        exact ⟨Nat.zero_le _, w ++ [')'], .close hw, by simpa [hclose] using heq⟩
      · rw [furtherBounds_of_comma hcomma] at h
        obtain ⟨⟨t, behind⟩, hsigned, h⟩ := Option.bind_eq_some_iff.mp h
        obtain ⟨⟨more, final⟩, hmore, h⟩ := Option.map_eq_some_iff.mp h
        cases h
        obtain ⟨ht, hrest, -⟩ := signedDigits_eq_some_iff.mp hsigned
        obtain ⟨hfew, listed, hlisted, hbehind⟩ := ih hmore
        obtain ⟨w', hw', hfront⟩ := exists_eq_append_trimStart rest
        refine ⟨Nat.succ_le_succ hfew, _, .comma hw hw' ht hlisted, ?_⟩
        rw [heq, hcomma, hfront, hrest, hbehind]
        simp only [List.append_assoc, List.cons_append]

/-- Listed bounds are read when there are no more of them than allowed. -/
theorem furtherBounds_complete {left : Nat} (h : Listed others rest) (hfew : others.length ≤ left)
    (after : List Char) : furtherBounds left (rest ++ after) = some (others, after) := by
  induction h generalizing left with
  | close hw =>
      apply furtherBounds_of_close
      rw [List.append_assoc, trimStart_append hw, List.singleton_append, trimStart_cons (by decide)]
  | @comma t others w w' rest hw hw' ht h ih =>
      obtain ⟨left, rfl⟩ := Nat.exists_eq_add_one.mpr (Nat.lt_of_lt_of_le (Nat.succ_pos _) hfew)
      have hcomma : trimStart ((w ++ ',' :: (w' ++ (numeral t ++ rest))) ++ after) =
          ',' :: (w' ++ (numeral t ++ (rest ++ after))) := by
        rw [List.append_assoc, trimStart_append hw, List.cons_append, trimStart_cons (by decide)]
        simp only [List.append_assoc]
      rw [furtherBounds_of_comma hcomma, trimStart_append hw', trimStart_numeral ht,
        signedDigits_eq_some_iff.mpr ⟨ht, rfl, h.head_not_digit⟩, Option.bind_some]
      simp only [ih (Nat.le_of_succ_le_succ hfew), Option.map_some]

/-- The reader finds the numerals that the grammar has. -/
theorem boundTexts_eq_some_iff : boundTexts expression = some texts ↔ Written expression texts := by
  rw [boundTexts]
  constructor
  · intro h
    obtain ⟨inside, hfront, h⟩ := Option.bind_eq_some_iff.mp h
    obtain ⟨⟨t, behind⟩, hsigned, h⟩ := Option.bind_eq_some_iff.mp h
    obtain ⟨⟨others, after⟩, hothers, h⟩ := Option.bind_eq_some_iff.mp h
    obtain ⟨w, hw, hexpression⟩ := exists_eq_append_trimStart expression.toList
    obtain ⟨w', hw', hinside⟩ := exists_eq_append_trimStart inside
    obtain ⟨ht, htext, -⟩ := signedDigits_eq_some_iff.mp hsigned
    obtain ⟨hfew, rest, hlisted, hbehind⟩ := furtherBounds_sound hothers
    dsimp only at h
    split at h
    · next hend =>
        cases h
        have hafter : Blank after := trimStart_eq_nil_iff.mp (List.isEmpty_iff.mp hend)
        refine .intro hw hw' ht hlisted hfew hafter ?_
        rw [hexpression, dropFront?_eq_some_iff.mp hfront, hinside, htext, hbehind]
    · cases h
  · rintro ⟨hw, hw', ht, hlisted, hfew, hafter, hexpression⟩
    have hword : ∀ chars, trimStart ("range(".toList ++ chars) = "range(".toList ++ chars :=
      fun chars => trimStart_cons (by decide)
    rw [hexpression, trimStart_append hw, hword, dropFront?_eq_some_iff.mpr rfl]
    simp only [Option.bind_eq_bind, Option.bind_some]
    rw [trimStart_append hw', trimStart_numeral ht,
      signedDigits_eq_some_iff.mpr ⟨ht, rfl, hlisted.head_not_digit⟩]
    simp only [Option.bind_some, furtherBounds_complete hlisted hfew]
    rw [trimStart_eq_nil_iff.mpr hafter]
    rfl

end Range

end ExperimentSuite
