import Mathlib.Data.List.TakeWhile
import ExperimentSuite.Text.Blank
import ExperimentSuite.Text.Digit

/-!
# Blanks and pieces of texts

Trimming removes the longest runs of blanks, so what a reader trims may stand
among any blanks. A front, and a piece anywhere, is found exactly when the text
is what it is put together of. No blank is a digit of any script.
-/

namespace ExperimentSuite

namespace Text

variable {c : Char} {w chars rest front : List Char}

/-- Whether a text consists of blanks. -/
def Blank (w : List Char) : Prop :=
  ∀ c ∈ w, isBlank c = true

theorem blank_nil : Blank [] := by
  intro c hc
  cases hc

theorem trimStart_append (hw : Blank w) (chars : List Char) :
    trimStart (w ++ chars) = trimStart chars :=
  List.dropWhile_append_of_pos hw

theorem trimStart_cons (hc : isBlank c = false) : trimStart (c :: rest) = c :: rest :=
  List.dropWhile_cons_of_neg (by simp [hc])

theorem exists_eq_append_trimStart (chars : List Char) :
    ∃ w, Blank w ∧ chars = w ++ trimStart chars := by
  refine ⟨chars.takeWhile isBlank, fun c hc => List.mem_takeWhile_imp hc, ?_⟩
  rw [trimStart, List.takeWhile_append_dropWhile]

theorem trimStart_eq_nil_iff : trimStart chars = [] ↔ Blank chars :=
  List.dropWhile_eq_nil_iff

theorem trimEnd_append (hw : Blank w) (chars : List Char) :
    trimEnd (chars ++ w) = trimEnd chars := by
  rw [trimEnd, List.reverse_append]
  exact congrArg List.reverse (trimStart_append (fun c hc => hw c (List.mem_reverse.mp hc)) _)

/-- Blanks around a text are trimmed away. -/
theorem trim_append {w' : List Char} (hw : Blank w) (hw' : Blank w') (chars : List Char) :
    trim (w ++ (chars ++ w')) = trim chars := by
  rw [trim, trim, trimStart_append hw]
  by_cases hchars : Blank chars
  · have hall : Blank (chars ++ w') := List.forall_mem_append.mpr ⟨hchars, hw'⟩
    rw [trimStart_eq_nil_iff.mpr hall, trimStart_eq_nil_iff.mpr hchars]
  · have hne : (chars.dropWhile isBlank).isEmpty = false := by
      rw [List.isEmpty_eq_false_iff]
      exact mt trimStart_eq_nil_iff.mp hchars
    rw [trimStart, List.dropWhile_append, hne, if_neg (by decide)]
    exact trimEnd_append hw' _

/-- A text is its trimmed part among blanks. -/
theorem exists_eq_append_trim (chars : List Char) :
    ∃ w w', Blank w ∧ Blank w' ∧ chars = w ++ (trim chars ++ w') := by
  obtain ⟨w, hw, hstart⟩ := exists_eq_append_trimStart chars
  obtain ⟨w', hw', hend⟩ := exists_eq_append_trimStart (trimStart chars).reverse
  refine ⟨w, w'.reverse, hw, fun c hc => hw' c (List.mem_reverse.mp hc), ?_⟩
  rw [trim, trimEnd, ← trimStart, ← List.reverse_append, ← hend, List.reverse_reverse]
  exact hstart

/-- Whether a text neither begins nor ends with a blank. -/
def Trimmed (chars : List Char) : Prop :=
  (∀ c ∈ chars.head?, isBlank c = false) ∧ ∀ c ∈ chars.getLast?, isBlank c = false

theorem trimmed_nil : Trimmed [] :=
  ⟨by simp, by simp⟩

theorem Trimmed.append {chars' : List Char} (h : Trimmed chars) (h' : Trimmed chars') :
    Trimmed (chars ++ chars') := by
  constructor
  · intro c hc
    rw [List.head?_append] at hc
    exact (Option.or_eq_some_iff.mp hc).elim (h.1 c) fun hsecond => h'.1 c hsecond.2
  · intro c hc
    rw [List.getLast?_append] at hc
    exact (Option.or_eq_some_iff.mp hc).elim (h'.2 c) fun hsecond => h.2 c hsecond.2

theorem trimStart_of_head? (h : ∀ c ∈ chars.head?, isBlank c = false) :
    trimStart chars = chars := by
  cases chars with
  | nil => rfl
  | cons c chars => exact trimStart_cons (h c rfl)

theorem Trimmed.trim_eq (h : Trimmed chars) : trim chars = chars := by
  rw [trim, trimStart_of_head? h.1, trimEnd, ← trimStart, trimStart_of_head?, List.reverse_reverse]
  rw [List.head?_reverse]
  exact h.2

/-- What stands behind a front. -/
theorem dropFront?_eq_some_iff :
    dropFront? front chars = some rest ↔ chars = front ++ rest := by
  induction front generalizing chars with
  | nil => simp [dropFront?]
  | cons p front ih =>
      cases chars with
      | nil => simp [dropFront?]
      | cons c chars =>
          rw [dropFront?, List.cons_append, List.cons.injEq]
          split
          · next heq => rw [ih, eq_comm (a := c), and_iff_right heq]
          · next hne => simp [Ne.symm hne]

theorem dropFront?_append (front rest : List Char) :
    dropFront? front (front ++ rest) = some rest :=
  dropFront?_eq_some_iff.mpr rfl

/-- The parts around the first occurrence of a piece. -/
theorem eq_append_of_cutAt? {piece before after : List Char}
    (h : cutAt? piece chars = some (before, after)) : chars = before ++ (piece ++ after) := by
  induction chars generalizing before with
  | nil =>
      rw [cutAt?] at h
      split at h
      · next hnil =>
          cases h
          rw [List.isEmpty_iff.mp hnil]
          rfl
      · cases h
  | cons c chars ih =>
      rw [cutAt?] at h
      split at h
      · next rest hfront =>
          cases h
          rw [List.nil_append]
          exact dropFront?_eq_some_iff.mp hfront
      · obtain ⟨cut, hcut, heq⟩ := Option.map_eq_some_iff.mp h
        cases heq
        rw [ih hcut]
        rfl

theorem cutAt?_of_append {piece before after : List Char} :
    (cutAt? piece (before ++ (piece ++ after))).isSome = true := by
  induction before with
  | nil =>
      cases piece with
      | nil => cases after <;> rfl
      | cons p piece =>
          rw [List.nil_append, List.cons_append, cutAt?, ← List.cons_append, dropFront?_append]
          rfl
  | cons c before ih =>
      rw [List.cons_append, cutAt?]
      split
      · rfl
      · rw [Option.isSome_map]
        exact ih

/-- A piece occurs in a text exactly when the text is put together around it. -/
theorem hasPiece_iff {piece : List Char} :
    hasPiece piece chars = true ↔ ∃ before after, chars = before ++ (piece ++ after) := by
  constructor
  · intro h
    obtain ⟨⟨before, after⟩, hcut⟩ := Option.isSome_iff_exists.mp h
    exact ⟨before, after, eq_append_of_cutAt? hcut⟩
  · rintro ⟨before, after, rfl⟩
    exact cutAt?_of_append

/-- No range of digits holds a blank. -/
theorem isDigit_eq_false_of_isBlank (h : isBlank c = true) : isDigit c = false := by
  have hapart : ∀ r ∈ digitRanges, 0x20 < r.1 ∧ (r.2 < 0x85 ∨ 0xA0 < r.1) ∧
      (r.2 < 0x1680 ∨ 0x1680 < r.1) ∧ (r.2 < 0x2000 ∨ 0x3000 < r.1) := by
    decide
  rw [isDigit, List.any_eq_false]
  intro r hr hmem
  have := hapart r hr
  simp only [isBlank, Bool.or_eq_true, Bool.and_eq_true, decide_eq_true_eq, beq_iff_eq] at h hmem
  omega

end Text

end ExperimentSuite
