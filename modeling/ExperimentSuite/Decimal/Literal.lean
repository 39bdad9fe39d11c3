import ExperimentSuite.Decimal.Binary

/-!
# Decimal literals

The text of a decimal number: an optional sign, digits with an optional point,
and an optional exponent. At least one digit stands before or after the point.
-/

namespace ExperimentSuite

namespace Decimal

/-- The value of a run of decimal digits. -/
def digitsValue (digits : List Char) : Nat :=
  digits.foldl (fun n c => 10 * n + (c.toNat - 48)) 0

/-- The exponent at the front of a text, if there is one, and what follows it. An exponent mark
without digits is an error. -/
def exponentPart (chars : List Char) : Option (Option Int × List Char) :=
  let digitsOf (sign : Int) (rest : List Char) : Option (Option Int × List Char) :=
    let digits := rest.takeWhile Char.isDigit
    if digits.isEmpty then none
    else some (some (sign * digitsValue digits), rest.dropWhile Char.isDigit)
  let signed (rest : List Char) : Option (Option Int × List Char) :=
    match rest with
    | '+' :: rest => digitsOf 1 rest
    | '-' :: rest => digitsOf (-1) rest
    | _ => digitsOf 1 rest
  match chars with
  | 'e' :: rest => signed rest
  | 'E' :: rest => signed rest
  | _ => some (none, chars)

/-- The number `± digits · 10 ^ exponent`. -/
structure Literal where
  negative : Bool
  digits : Nat
  exponent : Int

namespace Literal

/-- The number of a text. -/
def parse? (chars : List Char) : Option Literal := do
  let (negative, rest) := match chars with
    | '-' :: rest => (true, rest)
    | '+' :: rest => (false, rest)
    | _ => (false, chars)
  let whole := rest.takeWhile Char.isDigit
  let rest := rest.dropWhile Char.isDigit
  let (fraction, rest) := match rest with
    | '.' :: rest => (rest.takeWhile Char.isDigit, rest.dropWhile Char.isDigit)
    | _ => ([], rest)
  if whole.isEmpty && fraction.isEmpty then none
  let (exponent, rest) ← exponentPart rest
  if !rest.isEmpty then none
  return ⟨negative, digitsValue (whole ++ fraction), exponent.getD 0 - fraction.length⟩

/-- The float nearest to a number, unless it is infinite. -/
def nearest? (l : Literal) : Option FiniteFloat :=
  nearestFloat? l.negative l.digits l.exponent

end Literal

end Decimal

end ExperimentSuite
