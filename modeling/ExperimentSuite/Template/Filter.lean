import ExperimentSuite.Decimal.Literal
import ExperimentSuite.Template.Operation
import ExperimentSuite.Text.Case
import ExperimentSuite.Text.Digit

/-!
# Filters, tests and functions

What the names of filters, tests and functions stand for. Arguments that are
missing or too many are faults; a filter that wants a text demands a defined
value, the others take an undefined one as they find it.
-/

namespace ExperimentSuite

namespace Template

namespace Filter

/-- No arguments. -/
def noArguments : List Value → Except EngineFault Unit
  | [] => .ok ()
  | _ => .error .tooManyArguments

/-- One optional argument. -/
def optionalArgument : List Value → Except EngineFault (Option Value)
  | [] => .ok none
  | [v] => .ok (some v)
  | _ => .error .tooManyArguments

/-- A value that is wanted as a text. -/
def wantedText (tolerant : Bool) (v : Value) : Except EngineFault String := do
  v.demandDefined tolerant
  return v.text

/-- The number of characters, items or entries. -/
def length : Value → Except EngineFault Value
  | .str s => .ok (.int s.length)
  | .list items => .ok (.int items.length)
  | .map entries => .ok (.int entries.length)
  | _ => .error .invalidOperation

/-- A text after others; the separator is left out as long as they are empty. -/
def joinStep (separator text next : String) : String :=
  if text.isEmpty then next else text ++ separator ++ next

/-- The texts of the contents of a value with a separator between them. -/
def join (tolerant : Bool) (v : Value) (separator : Option Value) : Except EngineFault Value := do
  let separator ← (match separator with
    | none => .ok ""
    | some .null => .ok ""
    | some (.undefined _) => .ok ""
    | some s => wantedText tolerant s : Except EngineFault String)
  match v.contents? with
  | some items => return .str ((items.map Value.text).foldl (joinStep separator) "")
  | none => throw .invalidOperation

/-- A value, or another one if it is undefined; with a second argument that is true also if the
value counts as false. -/
def default (v : Value) : List Value → Except EngineFault Value
  | [] => .ok (if v.isUndefined then .str "" else v)
  | [other] => .ok (if v.isUndefined then other else v)
  | [other, .bool lax] => .ok (if v.isUndefined || (lax && !v.isTrue) then other else v)
  | [_, _] => .error .invalidOperation
  | _ => .error .tooManyArguments

/-- The first character, item or key. -/
def first : Value → Except EngineFault Value
  | .str s => .ok ((Value.charAt? s 0).getD .missing)
  | .list items => .ok (items.head?.getD .missing)
  | .map entries => .ok ((entries.head?.map (·.1)).getD .missing)
  | _ => .error .invalidOperation

/-- The last character or item. -/
def last : Value → Except EngineFault Value
  | .str s => .ok ((Value.charAt? s (s.length - 1)).getD .missing)
  | .list items => .ok (items.getLast?.getD .missing)
  | _ => .error .invalidOperation

/-- The integer of digits with an optional sign, if it has 128 bits. -/
def integer? (chars : List Char) : Option Int := do
  let (sign, digits) := match chars with
    | '-' :: rest => ((-1 : Int), rest)
    | '+' :: rest => (1, rest)
    | _ => (1, chars)
  let n ← Text.numberIn? 10 digits
  let n := sign * n
  if Value.minInt ≤ n ∧ n ≤ Value.maxInt then some n else none

/-- A float as an integer without its digits after the point, moved into 128 bits. -/
def clamp (x : Float) : Int :=
  match Value.wholePart? x with
  | some n => max Value.minInt (min Value.maxInt n)
  | none => if x.isNaN then 0 else if x < 0 then Value.minInt else Value.maxInt

/-- The float of a text; the words for infinity and no number are read in any case. -/
def float? (chars : List Char) : Option Float :=
  let (negative, word) := match chars with
    | '-' :: rest => (true, rest)
    | '+' :: rest => (false, rest)
    | _ => (false, chars)
  let infinity : Float := if negative then -(1 / 0) else 1 / 0
  if ["inf", "infinity"].contains (String.ofList (word.map Text.lowerAscii)) then some infinity
  else if String.ofList (word.map Text.lowerAscii) = "nan" then some (0 / 0)
  else (Decimal.Literal.parse? chars).map fun l =>
    (l.nearest?.map FiniteFloat.toFloat).getD infinity

/-- A value as an integer. -/
def int : Value → Except EngineFault Value
  | .undefined _ => .ok (.int 0)
  | .null => .ok (.int 0)
  | .bool b => .ok (.int (if b then 1 else 0))
  | .int n => .ok (.int n)
  | .float x => .ok (.int (clamp x))
  | .str s =>
      match integer? s.toList, float? s.toList with
      | some n, _ => .ok (.int n)
      | none, some x => .ok (.int (clamp x))
      | none, none => .error .invalidOperation
  | _ => .error .invalidOperation

/-- What a filter makes of a value. -/
def apply (tolerant : Bool) (name : String) (v : Value) (arguments : List Value) :
    Except EngineFault Value := do
  match name with
  | "upper" =>
      noArguments arguments
      return .str (Text.upper (← wantedText tolerant v))
  | "lower" =>
      noArguments arguments
      return .str (Text.lower (← wantedText tolerant v))
  | "length" | "count" =>
      noArguments arguments
      length v
  | "join" => join tolerant v (← optionalArgument arguments)
  | "default" | "d" => default v arguments
  | "first" =>
      noArguments arguments
      first v
  | "last" =>
      noArguments arguments
      last v
  | "int" =>
      noArguments arguments
      int v
  | "string" =>
      noArguments arguments
      return .str v.text
  | _ => throw .unknownFilter

/-- Whether an integer that a value stands for has a given remainder by two. -/
def hasParity (rest : Int) (v : Value) : Bool :=
  match v.int? with
  | some n => n % 2 == rest
  | none => false

/-- Whether a value passes a test. -/
def test (name : String) (v : Value) (arguments : List Value) : Except EngineFault Bool := do
  match name with
  | "defined" =>
      noArguments arguments
      return !v.isUndefined
  | "undefined" =>
      noArguments arguments
      return v.isUndefined
  | "none" =>
      noArguments arguments
      return (v matches .null)
  | "odd" =>
      noArguments arguments
      return hasParity 1 v
  | "even" =>
      noArguments arguments
      return hasParity 0 v
  | _ => throw .unknownTest

/-- The most items that a range may have. -/
def rangeLimit : Nat := 100000

/-- A natural number of 32 bits. -/
def natural (tolerant : Bool) (v : Value) : Except EngineFault Nat := do
  v.demandDefined tolerant
  match v.int? with
  | some n => if 0 ≤ n ∧ n < 0x100000000 then return n.toNat else throw .invalidOperation
  | none => throw .invalidOperation

/-- A natural number of 32 bits that may be left out. -/
def optionalNatural (tolerant : Bool) : Value → Except EngineFault (Option Nat)
  | .undefined _ => .ok none
  | .null => .ok none
  | v => do return some (← natural tolerant v)

/-- The naturals from a start to before an end by a step. -/
def naturals (start stop step : Nat) : Except EngineFault Value :=
  if step = 0 then .error .invalidOperation
  else
    let length := (stop - start + (step - 1)) / step
    if rangeLimit < length then .error .invalidOperation
    else .ok (.list ((List.range length).map fun (i : Nat) => .int (start + step * i)))

/-- A range: its end, its start and end, or both with a step. -/
def range (tolerant : Bool) : List Value → Except EngineFault Value
  | [] => .error .missingArgument
  | first :: rest => do
      let first ← natural tolerant first
      let second ← optionalNatural tolerant (rest[0]?.getD .null)
      let step ← optionalNatural tolerant (rest[1]?.getD .null)
      if 2 < rest.length then throw .tooManyArguments
      match second with
      | some stop => naturals first stop (step.getD 1)
      | none => naturals 0 first (step.getD 1)

/-- What a function gives. -/
def call (tolerant : Bool) (name : String) (arguments : List Value) : Except EngineFault Value :=
  match name with
  | "range" => range tolerant arguments
  | "loop" | "super" => .error .invalidOperation
  | _ => .error .unknownFunction

end Filter

end Template

end ExperimentSuite
