import ExperimentSuite.Text.Blank

/-!
# Delimiters of placeholders

A text holds a placeholder when an opening delimiter is followed, anywhere later,
by its closing one. A text that is exactly one expression between its delimiters
is evaluated instead of rendered, so that its value keeps its type.
-/

namespace ExperimentSuite

namespace Placeholder

/-- Opens an expression. -/
def expressionStart : List Char := ['[', '%']

/-- Closes an expression. -/
def expressionEnd : List Char := ['%', ']']

/-- Opens a statement. -/
def statementStart : List Char := ['<', '%']

/-- Closes a statement. -/
def statementEnd : List Char := ['%', '>']

/-- Opens a comment. -/
def commentStart : List Char := ['<', '#']

/-- Closes a comment. -/
def commentEnd : List Char := ['#', '>']

/-- Whether the first opening delimiter of a pair is followed by a closing one. -/
def hasPair (opening closing chars : List Char) : Bool :=
  match Text.cutAt? opening chars with
  | some (_, rest) => Text.hasPiece closing rest
  | none => false

/-- Whether a text holds a placeholder. -/
def occursIn (s : String) : Bool :=
  let chars := s.toList
  hasPair expressionStart expressionEnd chars || hasPair statementStart statementEnd chars
    || hasPair commentStart commentEnd chars

/-- Whether a character is a sign of whitespace control. -/
def isTrimSign (c : Char) : Bool := c == '-' || c == '+'

/-- Drops a sign of whitespace control that a blank follows. -/
def dropSign (chars : List Char) : List Char :=
  match chars with
  | c :: d :: rest => if isTrimSign c && Text.isBlank d then d :: rest else chars
  | _ => chars

/-- What stands between the delimiters of a text that has them at both ends. -/
def between? (chars : List Char) : Option (List Char) := do
  let rest ← Text.dropFront? expressionStart chars
  let inner ← Text.dropFront? expressionEnd.reverse rest.reverse
  return inner.reverse

/-- The expression of a text that is exactly one, without signs of whitespace control. -/
def singleExpression? (source : String) : Option String := do
  let inner ← between? (Text.trim source.toList)
  if Text.hasPiece expressionStart inner || Text.hasPiece expressionEnd inner then none
  let inner := Text.trim (dropSign (dropSign inner).reverse).reverse
  if inner.isEmpty then none else some (String.ofList inner)

end Placeholder

end ExperimentSuite
