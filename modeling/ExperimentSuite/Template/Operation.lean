import ExperimentSuite.Template.Expression
import ExperimentSuite.Template.Value.Order
import ExperimentSuite.Template.Value.Text
import ExperimentSuite.Text.Blank

/-!
# Operations on values

Arithmetic is exact on integers of 128 bits and fails when a result leaves them.
Truth values count as zero and one. Quotients are floats; the whole quotient and
the remainder are those of Euclidean division. Texts and lists are added by
joining them and multiplied by repeating them. In a tolerant setting an undefined
value has only undefined fields and no items.
-/

namespace ExperimentSuite

namespace Template

namespace Value

/-- An integer that has 128 bits. -/
def bounded (n : Int) : Except EngineFault Value :=
  if minInt ≤ n ∧ n ≤ maxInt then .ok (.int n) else .error .invalidOperation

/-- A float without its digits after the point. -/
def truncate (x : Float) : Float := if x < 0 then x.ceil else x.floor

/-- The remainder of truncating division, with the sign of the dividend. -/
def floatRemainder (x y : Float) : Float :=
  match FiniteFloat.ofFloat? x, FiniteFloat.ofFloat? y with
  | some a, some b =>
      if b.isZero then 0 / 0
      else
        -- Both magnitudes are whole multiples of the finer of the two units.
        let unit := min a.scale b.scale
        let m := a.significand * Nat.pow 2 (a.scale - unit).toNat
        let n := b.significand * Nat.pow 2 (b.scale - unit).toNat
        let rest := m % n
        let (num, den) := Decimal.scaledBy rest 1 (-unit)
        let magnitude := ((Decimal.nearestMagnitude? num den).bind
          (FiniteFloat.ofMagnitude? a.isNegative)).map FiniteFloat.toFloat
        magnitude.getD (0 / 0)
  | some _, none => if y.isNaN then y else x
  | none, _ => 0 / 0

/-- The whole quotient of two floats, with which the remainder is not negative. -/
def floatQuotient (x y : Float) : Float :=
  let quotient := truncate (x / y)
  if floatRemainder x y < 0 then (if y > 0 then quotient - 1 else quotient + 1) else quotient

/-- The power of two integers; a negative exponent has none. -/
def intPower (base exponent : Int) : Except EngineFault Value :=
  if exponent < 0 ∨ 0x100000000 ≤ exponent then .error .invalidOperation
  else if base = 0 ∨ base = 1 then .ok (.int (if exponent = 0 then 1 else base))
  else if base = -1 then .ok (.int (if exponent % 2 = 0 then 1 else -1))
  else if 127 < exponent then .error .invalidOperation
  else bounded (Int.pow base exponent.toNat)

/-- How often to repeat something. -/
def count (v : Value) : Except EngineFault Nat :=
  match v.int? with
  | some n => if 0 ≤ n ∧ n < 0x10000000000000000 then .ok n.toNat else .error .invalidOperation
  | none => .error .invalidOperation

/-- An operation on two numbers of one kind. -/
def arithmetic (a b : Value) (onInts : Int → Int → Except EngineFault Value)
    (onFloats : Float → Float → Float) : Except EngineFault Value :=
  match numberPair? a b with
  | some (.ints m n) => onInts m n
  | some (.floats x y) => .ok (.float (onFloats x y))
  | none => .error .invalidOperation

/-- The sum of numbers, or two texts or lists joined. -/
def add : Value → Value → Except EngineFault Value
  | .list as, .list bs => .ok (.list (as ++ bs))
  | .str a, .str b => .ok (.str (a ++ b))
  | a, b => arithmetic a b (fun m n => bounded (m + n)) (· + ·)

/-- The product of numbers, or a text or list repeated. -/
def multiply : Value → Value → Except EngineFault Value
  | .str s, b => do return .str (String.join (List.replicate (← b.count) s))
  | a, .str s => do return .str (String.join (List.replicate (← a.count) s))
  | .list items, b => do return .list (List.replicate (← b.count) items).flatten
  | a, .list items => do return .list (List.replicate (← a.count) items).flatten
  | a, b => arithmetic a b (fun m n => bounded (m * n)) (· * ·)

/-- The quotient, which is a float. -/
def divide (a b : Value) : Except EngineFault Value :=
  match a.float?, b.float? with
  | some x, some y => .ok (.float (x / y))
  | _, _ => .error .invalidOperation

/-- Division that fails on zero. -/
def unlessZero (f : Int → Int → Int) (m n : Int) : Except EngineFault Value :=
  if n = 0 then .error .invalidOperation else bounded (f m n)

/-- The negative of a number. -/
def negate : Value → Except EngineFault Value
  | .int n => bounded (-n)
  | .float x => .ok (.float (-x))
  | _ => .error .invalidOperation

/-- The operation of an operator. -/
def operate : Operator → Value → Value → Except EngineFault Value
  | .add, a, b => add a b
  | .subtract, a, b => arithmetic a b (fun m n => bounded (m - n)) (· - ·)
  | .multiply, a, b => multiply a b
  | .divide, a, b => divide a b
  | .floorDivide, a, b => arithmetic a b (unlessZero (· / ·)) floatQuotient
  | .remainder, a, b => arithmetic a b (unlessZero (· % ·)) floatRemainder
  | .power, a, b => arithmetic a b intPower Float.pow
  | .concat, a, b => .ok (.str (a.text ++ b.text))

/-- The character at an index of a text, as a text. -/
def charAt? (s : String) (index : Nat) : Option Value :=
  s.toList[index]?.map fun c => .str (String.singleton c)

/-- An index that may count from the end. -/
def index? (key : Value) (length : Nat) : Option Nat := do
  let n ← key.int?
  if 0 ≤ n then some n.toNat
  else if -n ≤ length then some (length - (-n).toNat) else none

/-- The field or item under a key. -/
def at? (v key : Value) : Option Value :=
  match v with
  | .map entries => valueUnder? key entries
  | .list items => (key.index? items.length).bind (items[·]?)
  | .str s => (key.index? s.length).bind (charAt? s)
  | _ => none

/-- The fault of an undefined value where it is not tolerated. -/
def demandDefined (tolerant : Bool) : Value → Except EngineFault Unit
  | .undefined false => if tolerant then .ok () else .error .undefinedValue
  | _ => .ok ()

/-- The field of a name; one without fields has only missing ones. -/
def field (tolerant : Bool) (v : Value) (name : String) : Except EngineFault Value :=
  let found? := match v with
    | .map entries => valueUnder? (.str name) entries
    | _ => none
  match found? with
  | some found => .ok found
  | none => if v.isUndefined && !tolerant then .error .undefinedValue else .ok missing

/-- The field or item under a key, or a missing one. -/
def item (tolerant : Bool) (v key : Value) : Except EngineFault Value :=
  match v.at? key with
  | some found => .ok found
  | none => if v.isUndefined && !tolerant then .error .undefinedValue else .ok missing

/-- The truth of a value. -/
def truth (tolerant : Bool) (v : Value) : Except EngineFault Bool := do
  demandDefined tolerant v
  return v.isTrue

/-- The values that a value holds: items, keys or characters. -/
def contents? : Value → Option (List Value)
  | .undefined _ => some []
  | .null => some []
  | .str s => some (s.toList.map fun c => .str (String.singleton c))
  | .list items => some items
  | .map entries => some (entries.map (·.1))
  | _ => none

/-- The values that a loop goes through. -/
def iterate (tolerant : Bool) (v : Value) : Except EngineFault (List Value) := do
  demandDefined tolerant v
  match v.contents? with
  | some items => return items
  | none => throw .invalidOperation

/-- Whether a value is among those that another holds; a text holds its pieces. -/
def isAmong (tolerant : Bool) (v container : Value) : Except EngineFault Bool := do
  demandDefined tolerant container
  match container with
  | .undefined _ => return false
  | .str s => return Text.hasPiece v.text.toList s.toList
  | .list items => return items.any fun i => same i v
  | .map entries => return (valueUnder? v entries).isSome
  | _ => throw .invalidOperation

/-- The outcome of a comparison. -/
def compareBy (tolerant : Bool) : Comparison → Value → Value → Except EngineFault Bool
  | .equal, a, b => .ok (same a b)
  | .unequal, a, b => .ok !(same a b)
  | .less, a, b => .ok (order a b).isLT
  | .atMost, a, b => .ok (order a b).isLE
  | .greater, a, b => .ok (order a b).isGT
  | .atLeast, a, b => .ok (order a b).isGE
  | .among, a, b => isAmong tolerant a b
  | .notAmong, a, b => do return !(← isAmong tolerant a b)

end Value

end Template

end ExperimentSuite
