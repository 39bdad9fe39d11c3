import ExperimentSuite.Placeholder.Delimiters
import ExperimentSuite.Proofs.Text.Pieces

/-!
# Signs at the delimiters

A source that is one expression has a sign next to a delimiter stripped if a
blank keeps it apart from the expression, before the expression is read alone.
An engine takes every sign next to a delimiter for whitespace control. The two
texts have all characters but blanks in common, up to the signs that stick to
the expression; so they are the same text exactly if no sign sticks.
-/

namespace ExperimentSuite

open Text

namespace Placeholder

variable {c : Char} {w chars inner : List Char} {source : String}

theorem isTrimSign_iff : isTrimSign c = true ↔ c = '-' ∨ c = '+' := by
  rw [isTrimSign, Bool.or_eq_true, beq_iff_eq, beq_iff_eq]

theorem isBlank_of_isTrimSign (h : isTrimSign c = true) : isBlank c = false := by
  rcases isTrimSign_iff.mp h with rfl | rfl <;> decide

/-- Whether a text begins with a sign of whitespace control that no blank follows. -/
def sticks : List Char → Bool
  | [] => false
  | [c] => isTrimSign c
  | c :: d :: _ => isTrimSign c && !isBlank d

/-- Whether, in a source that is one expression, a sign at a delimiter sticks to the expression. -/
def signSticks (source : String) : Bool :=
  (between? (trim source.toList)).any fun inner => sticks inner || sticks inner.reverse

/-- Drops a sign of whitespace control, whatever follows it. -/
def dropControl : List Char → List Char
  | [] => []
  | c :: chars => if isTrimSign c then chars else c :: chars

/-- The expression of an output between its delimiters, as engines document it: a sign next to a
delimiter is whitespace control, and blanks around the expression do not count. -/
def outputExpression (inner : List Char) : String :=
  String.ofList (trim (dropControl (dropControl inner).reverse).reverse)

theorem between?_eq_some_iff :
    between? chars = some inner ↔ chars = expressionStart ++ (inner ++ expressionEnd) := by
  rw [between?, Option.bind_eq_bind, Option.bind_eq_some_iff]
  constructor
  · rintro ⟨rest, hrest, h⟩
    obtain ⟨reversed, hreversed, ⟨⟩⟩ := Option.bind_eq_some_iff.mp h
    have hback := congrArg List.reverse (dropFront?_eq_some_iff.mp hreversed)
    rw [List.reverse_append, List.reverse_reverse, List.reverse_reverse] at hback
    rw [dropFront?_eq_some_iff.mp hrest, hback]
  · rintro rfl
    refine ⟨inner ++ expressionEnd, dropFront?_append _ _, ?_⟩
    rw [List.reverse_append, dropFront?_append]
    exact congrArg some (List.reverse_reverse inner)

theorem signSticks_eq (h : between? (trim source.toList) = some inner) :
    signSticks source = (sticks inner || sticks inner.reverse) := by
  rw [signSticks, h]
  rfl

/-- How a source that is one expression is written. -/
theorem exists_of_singleExpression? {e : String} (h : singleExpression? source = some e) :
    ∃ inner, between? (trim source.toList) = some inner ∧
      hasPiece expressionStart inner = false ∧ hasPiece expressionEnd inner = false ∧
      e = String.ofList (trim (dropSign (dropSign inner).reverse).reverse) := by
  obtain ⟨inner, hinner, h⟩ := Option.bind_eq_some_iff.mp h
  refine ⟨inner, hinner, ?_⟩
  dsimp only at h
  split at h
  · cases h
  · next hpiece =>
      rw [Bool.or_eq_true, not_or, Bool.not_eq_true, Bool.not_eq_true] at hpiece
      split at h
      · cases h
      · exact ⟨hpiece.1, hpiece.2, (Option.some.inj h).symm⟩

theorem dropSign_of_head? (h : ∀ c ∈ chars.head?, isTrimSign c = false) :
    dropSign chars = chars := by
  match chars with
  | [] => rfl
  | [_] => rfl
  | c :: d :: rest =>
      rw [dropSign, h c rfl]
      rfl

theorem dropControl_of_head? (h : ∀ c ∈ chars.head?, isTrimSign c = false) :
    dropControl chars = chars := by
  cases chars with
  | nil => rfl
  | cons c chars => rw [dropControl, h c rfl, if_neg (by decide)]

theorem sticks_of_head? (h : ∀ c ∈ chars.head?, isTrimSign c = false) : sticks chars = false := by
  match chars with
  | [] => rfl
  | [c] => exact h c rfl
  | c :: d :: rest =>
      rw [sticks, h c rfl]
      rfl

theorem sticks_cons (hc : isTrimSign c = true) :
    sticks (c :: chars) = true ↔ ∀ d ∈ chars.head?, isBlank d = false := by
  cases chars with
  | nil => simp [sticks, hc]
  | cons d chars => simp [sticks, hc]

/-- A sign in front of a text is dropped exactly if it does not stick to the text. -/
theorem dropSign_cons (hc : isTrimSign c = true) :
    dropSign (c :: chars) = if sticks (c :: chars) then c :: chars else chars := by
  cases chars with
  | nil => simp [dropSign, sticks, hc]
  | cons d chars =>
      cases hd : isBlank d <;> simp [dropSign, sticks, hc, hd]

theorem dropSign_eq (chars : List Char) :
    dropSign chars = if sticks chars then chars else dropControl chars := by
  cases chars with
  | nil => rfl
  | cons c chars =>
      cases hc : isTrimSign c with
      | true => rw [dropSign_cons hc, dropControl, hc, if_pos rfl]
      | false =>
          have hhead : ∀ d ∈ (c :: chars).head?, isTrimSign d = false := by
            rintro d ⟨⟩
            exact hc
          rw [dropSign_of_head? hhead, dropControl_of_head? hhead, ite_self]

/-- A text is what is left of it behind at most one sign. -/
theorem eq_dropControl_or (chars : List Char) :
    (dropControl chars = chars ∧ ∀ c ∈ chars.head?, isTrimSign c = false) ∨
      ∃ c, isTrimSign c = true ∧ chars = c :: dropControl chars := by
  cases chars with
  | nil => exact .inl ⟨rfl, by simp⟩
  | cons c chars =>
      cases hc : isTrimSign c with
      | true => exact .inr ⟨c, hc, by rw [dropControl, hc, if_pos rfl]⟩
      | false =>
          have hhead : ∀ d ∈ (c :: chars).head?, isTrimSign d = false := by
            rintro d ⟨⟩
            exact hc
          exact .inl ⟨dropControl_of_head? hhead, hhead⟩

/-- The characters of a text that are no blanks, counted. -/
def solidCount (chars : List Char) : Nat :=
  chars.countP fun c => !isBlank c

theorem solidCount_of_blank (hw : Blank w) : solidCount w = 0 := by
  rw [solidCount, List.countP_eq_zero]
  intro c hc
  simp [hw c hc]

theorem solidCount_trim (chars : List Char) : solidCount (trim chars) = solidCount chars := by
  obtain ⟨w, w', hw, hw', heq⟩ := exists_eq_append_trim chars
  have happend : solidCount chars = solidCount w + (solidCount (trim chars) + solidCount w') := by
    rw [solidCount, solidCount, solidCount, solidCount, ← List.countP_append,
      ← List.countP_append, ← heq]
  rw [happend, solidCount_of_blank hw, solidCount_of_blank hw', Nat.zero_add, Nat.add_zero]

theorem solidCount_reverse (chars : List Char) : solidCount chars.reverse = solidCount chars :=
  List.countP_reverse ..

theorem solidCount_cons (hc : isTrimSign c = true) :
    solidCount (c :: chars) = solidCount chars + 1 :=
  List.countP_cons_of_pos (by simp [isBlank_of_isTrimSign hc])

/-- A sign that sticks is one character more than an engine leaves. -/
theorem solidCount_dropSign (chars : List Char) :
    solidCount (dropSign chars) =
      solidCount (dropControl chars) + if sticks chars then 1 else 0 := by
  rw [dropSign_eq]
  split
  · next h =>
      rcases eq_dropControl_or chars with ⟨-, hhead⟩ | ⟨c, hc, heq⟩
      · rw [sticks_of_head? hhead] at h
        cases h
      · calc solidCount chars
            = solidCount (c :: dropControl chars) := congrArg solidCount heq
          _ = solidCount (dropControl chars) + 1 := solidCount_cons hc
  · rfl

/-- A sign at the front that does not stick has no say in whether one sticks at the back. -/
theorem sticks_reverse_dropControl (h : sticks chars = false) :
    sticks (dropControl chars).reverse = sticks chars.reverse := by
  rcases eq_dropControl_or chars with ⟨heq, -⟩ | ⟨c, hc, heq⟩
  · rw [heq]
  · generalize dropControl chars = rest at heq ⊢
    subst heq
    have hne : rest.reverse ≠ [] := by
      rw [ne_eq, List.reverse_eq_nil_iff]
      rintro rfl
      rw [sticks, hc] at h
      cases h
    rw [List.reverse_cons]
    generalize rest.reverse = back at hne ⊢
    match back with
    | [] => exact absurd rfl hne
    | [d] =>
        change isTrimSign d = (isTrimSign d && !isBlank c)
        rw [isBlank_of_isTrimSign hc, Bool.not_false, Bool.and_true]
    | d :: e :: _ => rfl

/-- A sign that sticks at the front is left where an engine takes it away. -/
theorem solidCount_lt_of_sticks (h : sticks inner = true) :
    solidCount (dropControl (dropControl inner).reverse) < solidCount (dropSign inner.reverse) := by
  rw [solidCount_dropSign]
  rcases eq_dropControl_or inner with ⟨-, hhead⟩ | ⟨c, hc, heq⟩
  · rw [sticks_of_head? hhead] at h
    cases h
  · generalize dropControl inner = rest at heq ⊢
    subst heq
    rw [List.reverse_cons]
    generalize rest.reverse = back
    cases back with
    | nil =>
        rw [List.nil_append, sticks, hc, if_pos rfl]
        exact Nat.succ_pos _
    | cons d back =>
        have hmore : solidCount (dropControl (d :: back ++ [c])) =
            solidCount (dropControl (d :: back)) + 1 := by
          have happend : dropControl (d :: back ++ [c]) = dropControl (d :: back) ++ [c] := by
            rw [List.cons_append, dropControl, dropControl]
            split <;> rfl
          rw [happend, ← solidCount_reverse, List.reverse_append, List.reverse_singleton,
            List.singleton_append, solidCount_cons hc, solidCount_reverse]
        omega

/-- The text that is compiled alone is the expression of the output exactly if no sign sticks. -/
theorem stripped_eq_outputExpression_iff (inner : List Char) :
    String.ofList (trim (dropSign (dropSign inner).reverse).reverse) = outputExpression inner ↔
      (sticks inner || sticks inner.reverse) = false := by
  rw [outputExpression, String.ofList_inj, Bool.or_eq_false_iff]
  constructor
  · intro h
    have hcount := congrArg solidCount h
    simp only [solidCount_trim, solidCount_reverse] at hcount
    cases hfront : sticks inner with
    | true =>
        have hlt := solidCount_lt_of_sticks hfront
        rw [dropSign_eq inner, hfront, if_pos rfl] at hcount
        omega
    | false =>
        rw [dropSign_eq inner, hfront, if_neg (by decide), solidCount_dropSign,
          sticks_reverse_dropControl hfront] at hcount
        refine ⟨rfl, ?_⟩
        rw [← Bool.not_eq_true]
        intro hback
        rw [hback, if_pos rfl] at hcount
        omega
  · rintro ⟨hfront, hback⟩
    rw [dropSign_eq inner, hfront, if_neg (by decide), dropSign_eq,
      sticks_reverse_dropControl hfront, hback, if_neg (by decide)]

end Placeholder

end ExperimentSuite
