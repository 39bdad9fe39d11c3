import ExperimentSuite.Document.Basic
import ExperimentSuite.Decimal.Literal
import ExperimentSuite.Text.Digit

/-!
# Reading JSON text

The reader accepts exactly one JSON value with blanks around it. Integers that
fit 64 bits stay integers; every other number becomes a float, and a number
whose float would be infinite is refused. The digits of a float are collected
in 64 bits and scaled by one power of ten, so long digit strings may end one
unit away from the nearest float. Values nest less than 128 levels deep.
-/

namespace ExperimentSuite

namespace Json

/-- Drops the blanks of JSON: space, tab, line feed and carriage return. -/
def skipBlanks : List Char → List Char
  | ' ' :: rest => skipBlanks rest
  | '\t' :: rest => skipBlanks rest
  | '\n' :: rest => skipBlanks rest
  | '\r' :: rest => skipBlanks rest
  | rest => rest

/-- Four hexadecimal digits. -/
def hexUnit : List Char → Option (Nat × List Char)
  | a :: b :: c :: d :: rest => do
      let a ← Text.hexValue? a
      let b ← Text.hexValue? b
      let c ← Text.hexValue? c
      let d ← Text.hexValue? d
      return (((a * 16 + b) * 16 + c) * 16 + d, rest)
  | _ => none

/-- The rest of a numeric escape: one unit, or a pair of surrogates. -/
def unicodeEscape (chars : List Char) : Option (Char × List Char) := do
  let (high, rest) ← hexUnit chars
  if 0xD800 ≤ high ∧ high < 0xDC00 then
    match rest with
    | '\\' :: 'u' :: rest =>
        let (low, rest) ← hexUnit rest
        if 0xDC00 ≤ low ∧ low < 0xE000 then
          return (Char.ofNat (0x10000 + (high - 0xD800) * 0x400 + (low - 0xDC00)), rest)
        else none
    | _ => none
  else if 0xDC00 ≤ high ∧ high < 0xE000 then none
  else return (Char.ofNat high, rest)

/-- The rest of a string after its opening quote; `read` holds the characters so far, last first. -/
def stringTail (fuel : Nat) (read : List Char) (chars : List Char) : Option (String × List Char) :=
  match fuel, chars with
  | _ + 1, '"' :: rest => some (String.ofList read.reverse, rest)
  | fuel + 1, '\\' :: 'u' :: rest => do
      let (c, rest) ← unicodeEscape rest
      stringTail fuel (c :: read) rest
  | fuel + 1, '\\' :: c :: rest =>
      match c with
      | '"' => stringTail fuel ('"' :: read) rest
      | '\\' => stringTail fuel ('\\' :: read) rest
      | '/' => stringTail fuel ('/' :: read) rest
      | 'b' => stringTail fuel ('\x08' :: read) rest
      | 'f' => stringTail fuel ('\x0c' :: read) rest
      | 'n' => stringTail fuel ('\n' :: read) rest
      | 'r' => stringTail fuel ('\r' :: read) rest
      | 't' => stringTail fuel ('\t' :: read) rest
      | _ => none
  | fuel + 1, c :: rest =>
      if c.toNat < 32 ∨ c = '\\' then none else stringTail fuel (c :: read) rest
  | _, _ => none

/-- The parts of a number: its sign, the digits before and after the point, and the exponent. -/
structure NumberParts where
  negative : Bool
  whole : List Char
  fraction : Option (List Char)
  exponent : Option Int

/-- The digits before the point: a zero alone, or digits that do not start with zero. -/
def wholeDigits (chars : List Char) : Option (List Char × List Char) :=
  match chars with
  | '0' :: rest =>
      match rest with
      | c :: _ => if c.isDigit then none else some (['0'], rest)
      | [] => some (['0'], rest)
  | _ =>
      let digits := chars.takeWhile Char.isDigit
      if digits.isEmpty then none else some (digits, chars.dropWhile Char.isDigit)

/-- The digits after the point, if there is a point. -/
def fractionDigits (chars : List Char) : Option (Option (List Char) × List Char) :=
  match chars with
  | '.' :: rest =>
      let digits := rest.takeWhile Char.isDigit
      if digits.isEmpty then none else some (some digits, rest.dropWhile Char.isDigit)
  | _ => some (none, chars)

/-- Splits the text of a number into its parts. -/
def numberParts (chars : List Char) : Option (NumberParts × List Char) := do
  let (negative, rest) := match chars with
    | '-' :: rest => (true, rest)
    | _ => (false, chars)
  let (whole, rest) ← wholeDigits rest
  let (fraction, rest) ← fractionDigits rest
  let (exponent, rest) ← Decimal.exponentPart rest
  return ({ negative, whole, fraction, exponent }, rest)

/-- Collects digits in 64 bits; returns the value and how many digits were left out. -/
def collectDigits (limit : Nat) : List Char → Nat → Nat × Nat
  | [], n => (n, 0)
  | c :: rest, n =>
      let next := 10 * n + (c.toNat - 48)
      if limit < next then (n, rest.length + 1) else collectDigits limit rest next

/-- The power of ten nearest to `10 ^ n`. -/
def powerOfTen (n : Nat) : Float :=
  ((Decimal.nearestFloat? false 1 n).map FiniteFloat.toFloat).getD 0

/-- Scales collected digits by a power of ten in float arithmetic. -/
def scaleFloat (x : Float) (exponent : Int) : Float :=
  if 0 ≤ exponent then
    if 308 < exponent then (if x == 0 then x else x * powerOfTen 308 * powerOfTen 308)
    else x * powerOfTen exponent.toNat
  else
    let down := (-exponent).toNat
    if down ≤ 308 then x / powerOfTen down
    else if down ≤ 616 then x / powerOfTen 308 / powerOfTen (down - 308)
    else x / powerOfTen 308 / powerOfTen 308 / powerOfTen 308

/-- The float of a number's parts, unless it would be infinite. -/
def floatOf (parts : NumberParts) : Option FiniteFloat :=
  let limit := 0x10000000000000000 - 1
  let (wholeValue, wholeLeft) := collectDigits limit parts.whole 0
  let fraction := parts.fraction.getD []
  let (value, shift) :=
    if 0 < wholeLeft then (wholeValue, (wholeLeft : Int))
    else
      let (value, left) := collectDigits limit fraction wholeValue
      (value, (left : Int) - fraction.length)
  let magnitude := scaleFloat (UInt64.ofNat value).toFloat (shift + parts.exponent.getD 0)
  FiniteFloat.ofFloat? (if parts.negative then -magnitude else magnitude)

/-- The number of a number's parts. -/
def numberOf (parts : NumberParts) : Option Number :=
  let asFloat := (floatOf parts).map Number.float
  match parts.fraction, parts.exponent with
  | none, none =>
      let value : Int := Decimal.digitsValue parts.whole
      if parts.negative then
        if value = 0 ∨ Number.minInt > -value then asFloat else some (.int (-value))
      else if Number.maxInt < value then asFloat else some (.int value)
  | _, _ => asFloat

mutual

/-- One value; `depth` counts the levels that may still be entered. -/
def value (fuel depth : Nat) (chars : List Char) : Option (Document × List Char) :=
  match fuel with
  | 0 => none
  | fuel + 1 =>
      match skipBlanks chars with
      | 'n' :: 'u' :: 'l' :: 'l' :: rest => some (.null, rest)
      | 't' :: 'r' :: 'u' :: 'e' :: rest => some (.bool true, rest)
      | 'f' :: 'a' :: 'l' :: 's' :: 'e' :: rest => some (.bool false, rest)
      | '"' :: rest => (stringTail (rest.length + 1) [] rest).map fun (s, rest) => (.str s, rest)
      | '[' :: rest =>
          if depth ≤ 1 then none
          else
            match skipBlanks rest with
            | ']' :: rest => some (.list [], rest)
            | _ => (items fuel (depth - 1) [] rest).map fun (ds, rest) => (.list ds, rest)
      | '\x7b' :: rest =>
          if depth ≤ 1 then none
          else
            match skipBlanks rest with
            | '\x7d' :: rest => some (.empty, rest)
            | _ => (members fuel (depth - 1) [] rest).map fun (fs, rest) => (.ofFields fs, rest)
      | rest => do
          let (parts, rest) ← numberParts rest
          return (.num (← numberOf parts), rest)

/-- The items of a list up to its closing bracket; `read` holds the items so far, last first. -/
def items (fuel depth : Nat) (read : List Document) (chars : List Char) :
    Option (List Document × List Char) :=
  match fuel with
  | 0 => none
  | fuel + 1 => do
      let (d, rest) ← value fuel depth chars
      match skipBlanks rest with
      | ',' :: rest => items fuel depth (d :: read) rest
      | ']' :: rest => return ((d :: read).reverse, rest)
      | _ => none

/-- The members of a mapping up to its closing brace, in order of appearance. -/
def members (fuel depth : Nat) (read : List (String × Document)) (chars : List Char) :
    Option (List (String × Document) × List Char) :=
  match fuel with
  | 0 => none
  | fuel + 1 =>
      match skipBlanks chars with
      | '"' :: rest => do
          let (key, rest) ← stringTail (rest.length + 1) [] rest
          match skipBlanks rest with
          | ':' :: rest =>
              let (d, rest) ← value fuel depth rest
              match skipBlanks rest with
              | ',' :: rest => members fuel depth ((key, d) :: read) rest
              | '\x7d' :: rest => return (((key, d) :: read).reverse, rest)
              | _ => none
          | _ => none
      | _ => none

end

/-- The deepest nesting that the reader enters. -/
def depthLimit : Nat := 128

/-- The document of a JSON text, if it is one. -/
def parse? (text : String) : Option Document :=
  let chars := text.toList
  match value (2 * chars.length + 2) depthLimit chars with
  | some (d, rest) => if (skipBlanks rest).isEmpty then some d else none
  | none => none

end Json

end ExperimentSuite
