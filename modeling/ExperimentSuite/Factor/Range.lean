import ExperimentSuite.Text.Blank
import ExperimentSuite.Text.Digit
import ExperimentSuite.Vocabulary
import ExperimentSuite.Number

/-!
# Range expressions

A range expression is one of `range(stop)`, `range(start, stop)` and
`range(start, stop, step)` with signed 64-bit bounds and stands for the levels
from the start up to, but without, the stop. Their number is known before any
of them is listed. Reading an expression has three outcomes: the text is no
range expression at all, it is one that yields no usable levels, or it yields a
list of levels.
-/

namespace ExperimentSuite

namespace Range

/-- Why the text of a bound is no signed 64-bit integer. -/
inductive BoundProblem where
  | invalidDigit
  | tooLarge
  | tooSmall
deriving DecidableEq

/-- The wording of a bad bound. -/
def BoundProblem.message : BoundProblem → String
  | .invalidDigit => "invalid digit found in string"
  | .tooLarge => "number too large to fit in target type"
  | .tooSmall => "number too small to fit in target type"

/-- Why a range expression yields no levels. -/
inductive Problem where
  | badBound (cause : BoundProblem)
  | zeroStep
  | tooManyLevels (count : Nat)
  | noLevels
deriving DecidableEq

/-- The wording of a problem with an expression. -/
def Problem.message (expression : String) : Problem → String
  | .badBound cause => "invalid range bound in '" ++ expression ++ "': " ++ cause.message
  | .zeroStep => "range step must not be zero in '" ++ expression ++ "'"
  | .tooManyLevels count =>
      "range '" ++ expression ++ "' yields " ++ toString count ++ " levels, more than the limit of "
        ++ toString Vocabulary.maxRangeLevels
  | .noLevels => "range '" ++ expression ++ "' yields no levels"

/-- The bounds of a range in exact arithmetic. -/
structure Bounds where
  start : Int
  stop : Int
  step : Int
deriving DecidableEq

namespace Bounds

/-- The number of levels: the distance over the step, rounded up, when they point the same way. -/
def count (b : Bounds) : Nat :=
  let span := b.stop - b.start
  if span.sign = b.step.sign then (span.natAbs + b.step.natAbs - 1) / b.step.natAbs else 0

/-- Whether the stop still lies ahead of a value. -/
def isAhead (b : Bounds) (value : Int) : Bool :=
  (decide (0 < b.step) && decide (value < b.stop))
    || (decide (b.step < 0) && decide (b.stop < value))

/-- The value one step further, unless it leaves the signed 64-bit range. -/
def next? (b : Bounds) (value : Int) : Option Int :=
  let next := value + b.step
  if Number.minInt ≤ next ∧ next ≤ Number.maxSigned then some next else none

/-- How far the stop lies ahead of a value. -/
def distance (b : Bounds) (value : Int) : Nat :=
  if 0 < b.step then (b.stop - value).toNat else (value - b.stop).toNat

theorem next?_eq_some {b : Bounds} {value next : Int} (h : b.next? value = some next) :
    next = value + b.step := by
  rw [next?] at h
  split at h
  · exact (Option.some.inj h).symm
  · cases h

theorem isAhead_iff {b : Bounds} {value : Int} :
    b.isAhead value = true ↔
      (0 < b.step ∧ value < b.stop) ∨ (b.step < 0 ∧ b.stop < value) := by
  simp [isAhead]

/-- A step towards the stop leaves less of the way. -/
theorem distance_lt {b : Bounds} {value next : Int} (ha : b.isAhead value = true)
    (hn : b.next? value = some next) : b.distance next < b.distance value := by
  obtain rfl := next?_eq_some hn
  rw [isAhead_iff] at ha
  simp only [distance]
  split <;> omega

/-- The levels from a value on, after those found before it, which come last first. They end at the
stop, or before it where the next value would leave the signed 64-bit range. -/
def collect (b : Bounds) (value : Int) (found : List Int) : List Int :=
  if _ : b.isAhead value then
    match _ : b.next? value with
    | some next => collect b next (value :: found)
    | none => (value :: found).reverse
  else found.reverse
termination_by b.distance value
decreasing_by exact distance_lt ‹_› ‹_›

/-- The levels from the start on. -/
def levels (b : Bounds) : List Int :=
  b.collect b.start []

/-- The levels, unless the step is zero or their number is out of bounds. -/
def levels? (b : Bounds) : Except Problem (List Int) :=
  if b.step = 0 then .error .zeroStep
  else if Vocabulary.maxRangeLevels < b.count then .error (.tooManyLevels b.count)
  else
    match b.levels with
    | [] => .error .noLevels
    | levels => .ok levels

end Bounds

/-- A signed run of digits: an optional minus and at least one digit of any script. -/
def signedDigits (chars : List Char) : Option ((Bool × List Char) × List Char) :=
  let (negative, rest) := match chars with
    | '-' :: rest => (true, rest)
    | _ => (false, chars)
  let digits := rest.takeWhile Text.isDigit
  if digits.isEmpty then none else some ((negative, digits), rest.dropWhile Text.isDigit)

/-- Reads digits from the left; the first digit that has no value or leaves the 64-bit range
decides. -/
def boundFrom (negative : Bool) (value : Int) : List Char → Except BoundProblem Int
  | [] => .ok value
  | c :: rest =>
      match Text.digitValue? c with
      | none => .error .invalidDigit
      | some digit =>
          let next := if negative then 10 * value - digit else 10 * value + digit
          if next < Number.minInt then .error .tooSmall
          else if Number.maxSigned < next then .error .tooLarge
          else boundFrom negative next rest

/-- The integer of a signed run of digits. -/
def bound (text : Bool × List Char) : Except BoundProblem Int :=
  boundFrom text.1 0 text.2

/-- The further bounds of an expression, each after a comma, up to the closing parenthesis; at
most `left` of them. -/
def furtherBounds (left : Nat) (chars : List Char) :
    Option (List (Bool × List Char) × List Char) :=
  match left, Text.trimStart chars with
  | _, ')' :: rest => some ([], rest)
  | left + 1, ',' :: rest => do
      let (first, rest) ← signedDigits (Text.trimStart rest)
      let (others, rest) ← furtherBounds left rest
      return (first :: others, rest)
  | _, _ => none

/-- The texts of the one to three bounds of a range expression. -/
def boundTexts (expression : String) : Option (List (Bool × List Char)) := do
  let rest ← Text.dropFront? "range(".toList (Text.trimStart expression.toList)
  let (first, rest) ← signedDigits (Text.trimStart rest)
  let (others, rest) ← furtherBounds 2 rest
  if (Text.trimStart rest).isEmpty then some (first :: others) else none

/-- The bounds that one to three integers stand for. -/
def boundsOf : List Int → Bounds
  | [start, stop, step] => ⟨start, stop, step⟩
  | [start, stop] => ⟨start, stop, 1⟩
  | [stop] => ⟨0, stop, 1⟩
  | _ => ⟨0, 0, 1⟩

/-- The levels of a text: nothing when it is no range expression. -/
def parse (expression : String) : Option (Except Problem (List Int)) :=
  (boundTexts expression).map fun texts =>
    match texts.mapM bound with
    | .error cause => .error (.badBound cause)
    | .ok bounds => (boundsOf bounds).levels?

end Range

end ExperimentSuite
