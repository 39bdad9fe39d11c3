import ExperimentSuite.Decimal.Binary
import ExperimentSuite.Document.Basic
import ExperimentSuite.Json.Printer
import ExperimentSuite.Placeholder.Engine

/-!
# Values of templates

What an expression of a template evaluates to. Beyond documents there are
undefined values, integers of 128 bits, floats that are infinite or no number,
and mappings with keys of any kind. A missing value is silent when an expression
left it out on purpose; it may then be rendered.
-/

namespace ExperimentSuite

namespace Template

/-- A value of a template. -/
inductive Value where
  | undefined (silent : Bool)
  | null
  | bool (value : Bool)
  | int (value : Int)
  | float (value : Float)
  | str (value : String)
  | list (items : List Value)
  | map (entries : List (Value × Value))
deriving Inhabited

namespace Value

/-- The least integer. -/
def minInt : Int := -0x80000000000000000000000000000000

/-- The greatest integer. -/
def maxInt : Int := 0x80000000000000000000000000000000 - 1

/-- The value of a missing name, field or item. -/
def missing : Value := .undefined false

/-- Whether a value is undefined. -/
def isUndefined : Value → Bool
  | .undefined _ => true
  | _ => false

mutual

/-- A document as a value. -/
def ofDocument : Document → Value
  | .null => .null
  | .bool b => .bool b
  | .num (.int n) => .int n
  | .num (.float x) => .float x.toFloat
  | .str s => .str s
  | .list items => .list (ofItems items)
  | .map fields => .map (ofFields fields)

/-- Items as values. -/
def ofItems : List Document → List Value
  | [] => []
  | d :: rest => ofDocument d :: ofItems rest

/-- Fields as entries. -/
def ofFields : List (String × Document) → List (Value × Value)
  | [] => []
  | (key, d) :: rest => (.str key, ofDocument d) :: ofFields rest

end

/-- The text of a key of a document. -/
def keyText : Value → Except EngineFault String
  | .str s => .ok s
  | .int n => .ok (toString n)
  | .bool b => .ok (if b then "true" else "false")
  | .float x =>
      match FiniteFloat.ofFloat? x with
      | some x => .ok (Json.floatLayout.text x)
      | none => .error .keyNotText
  | _ => .error .keyNotText

mutual

/-- A value as a document: what is no number becomes null. -/
def document : Value → Except EngineFault Document
  | .undefined _ => .ok .null
  | .null => .ok .null
  | .bool b => .ok (.bool b)
  | .int n =>
      match Number.ofInt? n with
      | some n => .ok (.num n)
      | none => .error .numberRange
  | .float x => .ok (((FiniteFloat.ofFloat? x).map fun x => Document.num (.float x)).getD .null)
  | .str s => .ok (.str s)
  | .list items => do return .list (← documentItems items)
  | .map entries => do return .ofFields (← documentFields entries)

/-- Items as documents. -/
def documentItems : List Value → Except EngineFault (List Document)
  | [] => .ok []
  | v :: rest => do
      let d ← document v
      return d :: (← documentItems rest)

/-- Entries as fields. -/
def documentFields : List (Value × Value) → Except EngineFault (List (String × Document))
  | [] => .ok []
  | (k, v) :: rest => do
      let key ← keyText k
      let d ← document v
      return (key, d) :: (← documentFields rest)

end

/-- Whether a value counts as true. -/
def isTrue : Value → Bool
  | .undefined _ => false
  | .null => false
  | .bool b => b
  | .int n => n != 0
  | .float x => x != 0
  | .str s => !s.isEmpty
  | .list items => !items.isEmpty
  | .map entries => !entries.isEmpty

/-- The float nearest to an integer. -/
def floatOfInt (n : Int) : Float :=
  match Decimal.nearestFloat? (n < 0) n.natAbs 0 with
  | some x => x.toFloat
  | none => if n < 0 then -(1 / 0) else 1 / 0

/-- The integer part of a finite float. -/
def wholePart? (x : Float) : Option Int :=
  (FiniteFloat.ofFloat? x).map fun x =>
    let magnitude : Int := x.significand * Nat.pow 2 x.scale.toNat / Nat.pow 2 (-x.scale).toNat
    if x.isNegative then -magnitude else magnitude

/-- The integer that equals a float, if there is one of 128 bits. -/
def exactInt? (x : Float) : Option Int := do
  let n ← wholePart? x
  if floatOfInt n == x && decide (minInt ≤ n) && decide (n ≤ maxInt) then some n else none

/-- The integer that a value stands for: truth values and whole floats stand for one. -/
def int? : Value → Option Int
  | .bool b => some (if b then 1 else 0)
  | .int n => if minInt ≤ n ∧ n ≤ maxInt then some n else none
  | .float x => exactInt? x
  | _ => none

/-- The float that a value stands for. -/
def float? : Value → Option Float
  | .bool b => some (if b then 1 else 0)
  | .int n => some (floatOfInt n)
  | .float x => some x
  | _ => none

end Value

end Template

end ExperimentSuite
