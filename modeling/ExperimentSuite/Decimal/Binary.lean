import ExperimentSuite.Number

/-!
# Floats as exact fractions

A finite float is `m · 2 ^ q` for a natural `m` and an integer `q`. This module
takes the pattern of a float apart into these two parts and, in the other
direction, rounds a fraction of naturals to the nearest float, a tie going to
the even significand. Everything is exact arithmetic on naturals.
-/

namespace ExperimentSuite

namespace FiniteFloat

/-- The eleven exponent bits. -/
def exponentField (x : FiniteFloat) : Nat :=
  ((x.bits >>> 52) &&& 0x7FF).toNat

/-- The fifty-two fraction bits. -/
def fractionField (x : FiniteFloat) : Nat :=
  (x.bits &&& 0xFFFFFFFFFFFFF).toNat

/-- The weight of the significand's leading bit, which a float with a full significand does not
store. -/
def leadingBit : Nat := 0x10000000000000

/-- The `m` of `m · 2 ^ q`. -/
def significand (x : FiniteFloat) : Nat :=
  if x.exponentField = 0 then x.fractionField else x.fractionField + leadingBit

/-- The `q` of `m · 2 ^ q`. -/
def scale (x : FiniteFloat) : Int :=
  if x.exponentField = 0 then -1074 else (x.exponentField : Int) - 1075

/-- Whether the value is a whole number: no bit of the significand stands for a fraction. -/
def isWhole (x : FiniteFloat) : Bool :=
  decide (0 ≤ x.scale) || x.significand % Nat.pow 2 (-x.scale).toNat == 0

/-- Whether the float below lies at half the distance of the float above. -/
def hasNarrowGapBelow (x : FiniteFloat) : Bool :=
  x.fractionField = 0 && 1 < x.exponentField

/-- The float of a sign and a magnitude pattern. -/
def ofMagnitude? (negative : Bool) (magnitude : Nat) : Option FiniteFloat :=
  ofBits? (UInt64.ofNat (if negative then magnitude + 0x8000000000000000 else magnitude))

end FiniteFloat

namespace Decimal

/-- The quotient rounded to the nearest natural, a tie going to the even one. -/
def divideRounded (num den : Nat) : Nat :=
  let quotient := num / den
  let rest := 2 * (num % den)
  if rest < den then quotient
  else if den < rest then quotient + 1
  else quotient + quotient % 2

/-- A fraction scaled by a power of two: `num / den · 2 ^ (-q)` as a fraction again. -/
def scaledBy (num den : Nat) (q : Int) : Nat × Nat :=
  if 0 ≤ q then (num, den * Nat.pow 2 q.toNat) else (num * Nat.pow 2 (-q).toNat, den)

/-- The scale at which a positive fraction has fifty-three significant bits, never below that of
the smallest floats. -/
def scaleOf (num den : Nat) : Int :=
  let guess : Int := (num.log2 : Int) - (den.log2 : Int) - 52
  let (n, d) := scaledBy num den guess
  let exact := if n / d < FiniteFloat.leadingBit then guess - 1 else guess
  max exact (-1074)

/-- The pattern of the float nearest to a fraction, or nothing on overflow. -/
def nearestMagnitude? (num den : Nat) : Option Nat :=
  if num = 0 then some 0
  else
    let q := scaleOf num den
    let (n, d) := scaledBy num den q
    let m := divideRounded n d
    -- A carry out of the significand adds one to the exponent field by itself.
    let full := FiniteFloat.leadingBit
    let magnitude := if m < full then m else (q + 1074).toNat * full + m
    if magnitude < 0x7FF * full then some magnitude else none

/-- The float nearest to `± digits · 10 ^ exponent`, or nothing when it would be infinite.
Exponents far outside the range of floats are decided without building the power. -/
def nearestFloat? (negative : Bool) (digits : Nat) (exponent : Int) : Option FiniteFloat :=
  let places : Int := (digits.log2 : Int) / 3 + exponent
  if digits = 0 ∨ places < -400 then FiniteFloat.ofMagnitude? negative 0
  else if 400 < exponent then none
  else
    let (num, den) :=
      if 0 ≤ exponent then (digits * Nat.pow 10 exponent.toNat, 1)
      else (digits, Nat.pow 10 (-exponent).toNat)
    (nearestMagnitude? num den).bind (FiniteFloat.ofMagnitude? negative)

end Decimal

end ExperimentSuite
