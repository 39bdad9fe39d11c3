/-!
# Numbers

A number is an integer or a finite 64-bit float. The two kinds never agree,
not even for one value. A float is held as its bit pattern together with the
proof that it is finite, so not-a-number and the infinities have no place here
and agreement is reflexive; the two zeros agree although their patterns differ.
-/

namespace ExperimentSuite

/-- A finite 64-bit float, held as its bit pattern. -/
structure FiniteFloat where
  bits : UInt64
  finite : (bits >>> 52) &&& 0x7FF ≠ 0x7FF := by decide
deriving DecidableEq

namespace FiniteFloat

/-- The float of a bit pattern, unless it is infinite or not a number. -/
def ofBits? (bits : UInt64) : Option FiniteFloat :=
  if h : (bits >>> 52) &&& 0x7FF ≠ 0x7FF then some ⟨bits, h⟩ else none

/-- A machine float, unless it is infinite or not a number. -/
def ofFloat? (x : Float) : Option FiniteFloat :=
  ofBits? x.toBits

/-- The machine float with the same pattern. -/
def toFloat (x : FiniteFloat) : Float :=
  Float.ofBits x.bits

/-- Either of the two zeros. -/
def isZero (x : FiniteFloat) : Bool :=
  x.bits <<< 1 == 0

/-- Whether the sign bit is set. -/
def isNegative (x : FiniteFloat) : Bool :=
  x.bits >>> 63 == 1

/-- Numeric equality: one pattern, or both zero. -/
def agrees (x y : FiniteFloat) : Bool :=
  x.bits == y.bits || (x.isZero && y.isZero)

/-- The positive zero. -/
def zero : FiniteFloat := ⟨0, by decide⟩

/-- The negative zero. -/
def negativeZero : FiniteFloat := ⟨0x8000000000000000, by decide⟩

end FiniteFloat

/-- An integer or a finite float. -/
inductive Number where
  | int (value : Int)
  | float (value : FiniteFloat)
deriving DecidableEq

namespace Number

/-- The least integer of 64 bits. -/
def minInt : Int := -0x8000000000000000

/-- The greatest signed integer of 64 bits. -/
def maxSigned : Int := 0x8000000000000000 - 1

/-- The greatest unsigned integer of 64 bits, which is also the greatest integer of a document. -/
def maxInt : Int := 0x10000000000000000 - 1

/-- An integer as a number, unless it leaves the range of documents. -/
def ofInt? (n : Int) : Option Number :=
  if minInt ≤ n ∧ n ≤ maxInt then some (.int n) else none

/-- Equality of documents on numbers: kinds differ, the two float zeros agree. -/
def agrees : Number → Number → Bool
  | .int a, .int b => a == b
  | .float x, .float y => x.agrees y
  | _, _ => false

end Number

end ExperimentSuite
