import ExperimentSuite.Decimal.Binary
import ExperimentSuite.Json.Reader
import ExperimentSuite.Yaml.Value

/-!
# The types of plain scalars

A plain scalar is null, a truth value, an integer, a float or, failing all of
these, a text. Integers may be written in four bases. Digits after a leading
zero are a text, integers between 64 and 128 bits are an error, and longer ones
are floats.
-/

namespace ExperimentSuite

namespace Yaml

namespace Scalar

/-- Whether a text spells null. -/
def isNull (s : String) : Bool :=
  ["null", "Null", "NULL", "~"].contains s

/-- The truth value of a text. -/
def bool? (s : String) : Option Bool :=
  if ["true", "True", "TRUE"].contains s then some true
  else if ["false", "False", "FALSE"].contains s then some false
  else none

/-- Whether a text is digits after a leading zero, perhaps with a sign. -/
def isZeroPadded (chars : List Char) : Bool :=
  let body := match chars with
    | '-' :: rest => rest
    | '+' :: rest => rest
    | _ => chars
  match body with
  | '0' :: rest => !rest.isEmpty && rest.all Char.isDigit
  | _ => false

/-- The number after the letter of a base, if the text is one. -/
def based? : List Char → Option Nat
  | '0' :: 'x' :: rest => Text.numberIn? 16 rest
  | '0' :: 'o' :: rest => Text.numberIn? 8 rest
  | '0' :: 'b' :: rest => Text.numberIn? 2 rest
  | _ => none

/-- The integer of a text, of whatever size. -/
def integer? (chars : List Char) : Option Int :=
  match chars with
  | '-' :: rest =>
      match based? rest with
      | some n => some (-(n : Int))
      | none =>
        if isZeroPadded chars then none
        else (Text.numberIn? 10 rest).map fun n => -(n : Int)
  | _ =>
      let body := match chars with
        | '+' :: rest => rest
        | _ => chars
      match based? body with
      | some n => some n
      | none => if isZeroPadded chars then none else (Text.numberIn? 10 body).map Int.ofNat

/-- The float of a text. -/
def float? (chars : List Char) : Option Real :=
  let body := match chars with
    | '+' :: '+' :: _ => none
    | '+' :: '-' :: _ => none
    | '+' :: rest => some rest
    | _ => some chars
  match body with
  | none => none
  | some body =>
      let s := String.ofList body
      if [".inf", ".Inf", ".INF"].contains s then some (.infinite false)
      else if ["-.inf", "-.Inf", "-.INF"].contains s then some (.infinite true)
      else if [".nan", ".NaN", ".NAN"].contains (String.ofList chars) then some .undefined
      else ((Decimal.Literal.parse? body).bind Decimal.Literal.nearest?).map .finite

/-- Whether an integer is too long for 64 bits but not for 128. -/
def isOverlong (n : Int) : Bool :=
  (decide (Number.maxInt < n) && decide (n < 0x100000000000000000000000000000000))
    || (decide (n < Number.minInt) && decide (-0x80000000000000000000000000000000 ≤ n))

/-- The integer of a text that has 64 bits; an error when it has up to 128, and nothing when it is
no integer or longer still. -/
def shortInteger? (chars : List Char) : Option (Option Int) :=
  match integer? chars with
  | some n =>
      if isOverlong n then none
      else some (if Number.minInt ≤ n ∧ n ≤ Number.maxInt then some n else none)
  | none => some none

/-- The value of a plain scalar without a tag. -/
def plain (s : String) : Option Value := do
  let chars := s.toList
  if s.isEmpty || isNull s then return .null
  match bool? s with
  | some b => return .bool b
  | none =>
      match ← shortInteger? chars with
      | some n => return .int n
      | none =>
          if isZeroPadded chars then return .str s
          match float? chars with
          | some x => return .float x
          | none => return .str s

/-- The common front of the tags that name a type. -/
def typeTag (name : String) : String := "tag:yaml.org,2002:" ++ name

/-- The value of a scalar with a tag that does not begin with an exclamation mark. -/
def typed (tag s : String) : Option Value :=
  let chars := s.toList
  if tag = typeTag "bool" then (bool? s).map .bool
  else if tag = typeTag "int" then do
    match ← shortInteger? chars with
    | some n => return .int n
    | none => none
  else if tag = typeTag "float" then (float? chars).map .float
  else if tag = typeTag "null" then if isNull s then some .null else none
  else some (.str s)

end Scalar

end Yaml

end ExperimentSuite
