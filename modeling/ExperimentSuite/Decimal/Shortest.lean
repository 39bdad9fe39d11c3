import ExperimentSuite.Decimal.Binary

/-!
# Shortest decimal digits

The text of a float uses the fewest decimal digits that still read back as the
same float and, among texts of that length, the nearest one. The search walks
through the decimal grids of 1, 2, … 17 digits and looks at the two neighbours
of the value on each: the first grid with a neighbour inside the interval of
reals that round to the float decides.
-/

namespace ExperimentSuite

namespace Decimal

/-- The value `digits · 10 ^ exponent`. -/
structure Digits where
  digits : Nat
  exponent : Int
deriving DecidableEq

namespace Digits

/-- Moves trailing zeros into the exponent. -/
def trimmed (fuel : Nat) (d : Digits) : Digits :=
  match fuel with
  | 0 => d
  | fuel + 1 =>
      if d.digits ≠ 0 ∧ d.digits % 10 = 0 then trimmed fuel ⟨d.digits / 10, d.exponent + 1⟩ else d

end Digits

/-- The reals that round to one float, in units of `1 / den`: the float itself, its lower and upper
bound, and whether the bounds belong to it. -/
structure Interval where
  value : Nat
  low : Nat
  high : Nat
  den : Nat
  closed : Bool

/-- The rounding interval of a float; its bounds belong to it when the significand is even. -/
def intervalOf (x : FiniteFloat) : Interval :=
  let m := x.significand
  let q := x.scale - 2
  let num := Nat.pow 2 q.toNat
  { value := 4 * m * num
    low := (4 * m - (if x.hasNarrowGapBelow then 1 else 2)) * num
    high := (4 * m + 2) * num
    den := Nat.pow 2 (-q).toNat
    closed := m % 2 = 0 }

namespace Interval

/-- Whether `digits · 10 ^ exponent` lies in the interval. -/
def holds (i : Interval) (d : Digits) : Bool :=
  let up := Nat.pow 10 d.exponent.toNat
  let down := Nat.pow 10 (-d.exponent).toNat
  let point := d.digits * up * i.den
  if i.closed then i.low * down ≤ point && point ≤ i.high * down
  else i.low * down < point && point < i.high * down

/-- The exponent of the leading decimal digit. -/
def magnitude (i : Interval) : Int :=
  let whole := i.value / i.den
  if 0 < whole then ((Nat.toDigits 10 whole).length : Int) - 1
  else
    let places := (Nat.toDigits 10 (i.den / i.value)).length
    if i.value * Nat.pow 10 (places - 1) = i.den then 1 - (places : Int) else -(places : Int)

/-- The greatest point of a decimal grid that is not above the value. -/
def floorOn (i : Interval) (exponent : Int) : Nat :=
  (i.value * Nat.pow 10 (-exponent).toNat) / (i.den * Nat.pow 10 exponent.toNat)

/-- Whether the lower neighbour on a grid is at least as near as the upper one. -/
def lowerIsNearer (i : Interval) (exponent : Int) : Bool :=
  let below := i.floorOn exponent
  (2 * i.value) * Nat.pow 10 (-exponent).toNat ≤ (2 * below + 1) * i.den * Nat.pow 10 exponent.toNat

/-- The nearest point inside the interval of the grid with a given exponent, if there is one. -/
def onGrid? (i : Interval) (exponent : Int) : Option Digits :=
  let below : Digits := ⟨i.floorOn exponent, exponent⟩
  let above : Digits := ⟨i.floorOn exponent + 1, exponent⟩
  match i.holds below, i.holds above with
  | true, true => some (if i.lowerIsNearer exponent then below else above)
  | true, false => some below
  | false, true => some above
  | false, false => none

end Interval

/-- The shortest digits of a float other than zero. -/
def shortestDigits (x : FiniteFloat) : Digits :=
  let i := intervalOf x
  let lead := i.magnitude
  let found := (List.range 17).findSome? fun (n : Nat) => i.onGrid? (lead - n)
  (found.getD ⟨0, 0⟩).trimmed 20

end Decimal

/-- How the digits of a float are laid out as text. -/
structure FloatLayout where
  /-- The least exponent of the leading digit that is written without an exponent mark. -/
  leastPlain : Int
  /-- The greatest such exponent. -/
  greatestPlain : Int
  /-- Whether a positive exponent carries a plus sign. -/
  plusSign : Bool

namespace FloatLayout

/-- A run of zeros. -/
def zeros (n : Int) : String :=
  String.ofList (List.replicate n.toNat '0')

/-- Digits around the decimal point; there is always at least one digit on each side. -/
def plain (digits : String) (lead : Int) : String :=
  let count : Int := digits.length
  if lead < 0 then "0." ++ zeros (-lead - 1) ++ digits
  else if count ≤ lead + 1 then digits ++ zeros (lead + 1 - count) ++ ".0"
  else
    let whole := (lead + 1).toNat
    String.ofList (digits.toList.take whole) ++ "." ++ String.ofList (digits.toList.drop whole)

/-- One digit before the point, the rest after it, and the exponent. -/
def scientific (layout : FloatLayout) (digits : String) (lead : Int) : String :=
  let mantissa := match digits.toList with
    | [] => "0"
    | [d] => String.ofList [d]
    | d :: rest => String.ofList (d :: '.' :: rest)
  mantissa ++ "e" ++ (if layout.plusSign && decide (0 ≤ lead) then "+" else "") ++ toString lead

/-- The text of a float in a layout. -/
def text (layout : FloatLayout) (x : FiniteFloat) : String :=
  let sign := if x.isNegative then "-" else ""
  if x.isZero then sign ++ "0.0"
  else
    let d := Decimal.shortestDigits x
    let digits := toString d.digits
    let lead := d.exponent + (digits.length : Int) - 1
    sign ++ (if layout.leastPlain ≤ lead ∧ lead ≤ layout.greatestPlain
      then plain digits lead else layout.scientific digits lead)

end FloatLayout

end ExperimentSuite
