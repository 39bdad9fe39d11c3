import ExperimentSuite.Json.Reader
import ExperimentSuite.Pattern.Basic
import ExperimentSuite.Text.Digit

/-!
# Reading patterns

The grammar of patterns: alternatives between bars, each a row of pieces that
may repeat. A piece is a character, an escape, a set in brackets, an anchor or a
group. Each parser returns what it has read and what follows; a text that is no
pattern as a whole is refused.
-/

namespace ExperimentSuite

namespace Pattern

/-- The code points of the digits. -/
def digitRanges : List (Nat × Nat) := Text.digitRanges

/-- The code points of ASCII word characters. -/
def wordRanges : List (Nat × Nat) := [(48, 57), (65, 90), (95, 95), (97, 122)]

/-- The code points of blanks. -/
def blankRanges : List (Nat × Nat) :=
  [(0x09, 0x0D), (0x20, 0x20), (0x85, 0x85), (0xA0, 0xA0), (0x1680, 0x1680), (0x2000, 0x200A),
    (0x2028, 0x2029), (0x202F, 0x202F), (0x205F, 0x205F), (0x3000, 0x3000)]

/-- The set of a letter after a backslash. -/
def classOf? : Char → Option CharSet
  | 'd' => some ⟨false, digitRanges⟩
  | 'D' => some ⟨true, digitRanges⟩
  | 'w' => some ⟨false, wordRanges⟩
  | 'W' => some ⟨true, wordRanges⟩
  | 's' => some ⟨false, blankRanges⟩
  | 'S' => some ⟨true, blankRanges⟩
  | _ => none

/-- The character of an escape that is no set. -/
def escapeOf? : Char → Option Char
  | 'n' => some '\n'
  | 't' => some '\t'
  | 'r' => some '\r'
  | 'a' => some '\x07'
  | 'f' => some '\x0c'
  | 'v' => some '\x0b'
  | c => if c.toNat < 128 && !c.isAlphanum && c != '<' && c != '>' then some c else none

/-- The code points that a set leaves out, as ranges up to the last character. -/
def complement (ranges : List (Nat × Nat)) : List (Nat × Nat) :=
  let step (acc : List (Nat × Nat) × Nat) (r : Nat × Nat) : List (Nat × Nat) × Nat :=
    (if acc.2 < r.1 then acc.1 ++ [(acc.2, r.1 - 1)] else acc.1, max acc.2 (r.2 + 1))
  let (left, next) := ranges.foldl step ([], 0)
  left ++ [(next, 0x10FFFF)]

/-- The ranges of a set, without negation. -/
def plainRanges (s : CharSet) : List (Nat × Nat) :=
  if s.negated then complement s.ranges else s.ranges

/-- One character of a set in brackets. -/
def setChar : List Char → Option (Char × List Char)
  | '\\' :: c :: rest => (escapeOf? c).map fun d => (d, rest)
  | '\\' :: [] => none
  | '[' :: _ => none
  | c :: rest => some (c, rest)
  | [] => none

/-- The items of a set in brackets up to the closing one. -/
def setItems (fuel : Nat) (first : Bool) (chars : List Char) :
    Option (List (Nat × Nat) × List Char) :=
  match fuel with
  | 0 => none
  | fuel + 1 =>
      let single (c : Char) (rest : List Char) : Option (List (Nat × Nat) × List Char) :=
        match rest with
        | '-' :: ']' :: _ => do
            let (others, rest) ← setItems fuel false rest
            return ((c.toNat, c.toNat) :: others, rest)
        | '-' :: '-' :: _ => none
        | '-' :: more => do
            let (d, rest) ← setChar more
            if d.toNat < c.toNat then none
            let (others, rest) ← setItems fuel false rest
            return ((c.toNat, d.toNat) :: others, rest)
        | _ => do
            let (others, rest) ← setItems fuel false rest
            return ((c.toNat, c.toNat) :: others, rest)
      match chars with
      | ']' :: rest => if first then single ']' rest else some ([], rest)
      | '\\' :: c :: rest =>
          match classOf? c with
          | some set => do
              let (others, rest) ← setItems fuel false rest
              return (plainRanges set ++ others, rest)
          | none => do
              let (d, rest) ← setChar ('\\' :: c :: rest)
              single d rest
      | _ => do
          let (c, rest) ← setChar chars
          single c rest

/-- A set in brackets after the opening one. -/
def bracketSet (chars : List Char) : Option (Pattern × List Char) := do
  let (negated, rest) := match chars with
    | '^' :: rest => (true, rest)
    | _ => (false, chars)
  let (ranges, rest) ← setItems (rest.length + 1) true rest
  return (.oneOf ⟨negated, ranges⟩, rest)

/-- A number of repetitions. -/
def countDigits (chars : List Char) : Option (Nat × List Char) :=
  let digits := chars.takeWhile Char.isDigit
  if digits.isEmpty then none else some (Decimal.digitsValue digits, chars.drop digits.length)

/-- The bounds of a counted repetition after the opening brace; the second is missing when there
is none. -/
def bounds (chars : List Char) : Option ((Nat × Option Nat) × List Char) := do
  let (least, rest) ← countDigits chars
  match rest with
  | '\x7d' :: rest => return ((least, some least), rest)
  | ',' :: '\x7d' :: rest => return ((least, none), rest)
  | ',' :: rest => do
      let (most, rest) ← countDigits rest
      match rest with
      | '\x7d' :: rest => if most < least then none else return ((least, some most), rest)
      | _ => none
  | _ => none

/-- The greatest number of repetitions that is spelled out. -/
def maxTimes : Nat := 1000

/-- A pattern with a counted repetition. -/
def counted (p : Pattern) (least : Nat) (most : Option Nat) : Option Pattern :=
  if maxTimes < least ∨ maxTimes < most.getD 0 then none
  else
    match most with
    | some most => some (follow (times p least) (atMost p (most - least)))
    | none => some (follow (times p least) (.many p))

/-- Drops the mark of a repetition that prefers few characters. -/
def dropLazy : List Char → List Char
  | '?' :: rest => rest
  | rest => rest

/-- The repetitions after a piece. -/
def repetitions (fuel : Nat) (p : Pattern) (chars : List Char) : Option (Pattern × List Char) :=
  match fuel with
  | 0 => none
  | fuel + 1 =>
      match chars with
      | '*' :: rest => repetitions fuel (.many p) (dropLazy rest)
      | '+' :: rest => repetitions fuel (follow p (.many p)) (dropLazy rest)
      | '?' :: rest => repetitions fuel (choice .empty p) (dropLazy rest)
      | '\x7b' :: rest => do
          let ((least, most), rest) ← bounds rest
          let q ← counted p least most
          repetitions fuel q (dropLazy rest)
      | _ => some (p, chars)

mutual

/-- Alternatives up to a closing parenthesis or the end. -/
def alternatives (fuel : Nat) (chars : List Char) : Option (Pattern × List Char) :=
  match fuel with
  | 0 => none
  | fuel + 1 => do
      let (p, rest) ← row fuel chars
      match rest with
      | '|' :: rest => do
          let (q, rest) ← alternatives fuel rest
          return (choice p q, rest)
      | _ => return (p, rest)

/-- A row of pieces with their repetitions. -/
def row (fuel : Nat) (chars : List Char) : Option (Pattern × List Char) :=
  match fuel with
  | 0 => none
  | fuel + 1 =>
      match chars with
      | [] => some (.empty, [])
      | '|' :: _ => some (.empty, chars)
      | ')' :: _ => some (.empty, chars)
      | _ => do
          let (p, rest) ← piece fuel chars
          let (p, rest) ← repetitions (rest.length + 1) p rest
          let (q, rest) ← row fuel rest
          return (follow p q, rest)

/-- One piece. -/
def piece (fuel : Nat) (chars : List Char) : Option (Pattern × List Char) :=
  match fuel with
  | 0 => none
  | fuel + 1 =>
      match chars with
      | '(' :: '?' :: ':' :: rest => group fuel rest
      | '(' :: '?' :: _ => none
      | '(' :: rest => group fuel rest
      | '[' :: rest => bracketSet rest
      | '.' :: rest => some (anyChar, rest)
      | '^' :: rest => some (.atStart, rest)
      | '$' :: rest => some (.atEnd, rest)
      | '\\' :: 'A' :: rest => some (.atStart, rest)
      | '\\' :: 'z' :: rest => some (.atEnd, rest)
      | '\\' :: c :: rest =>
          match classOf? c with
          | some set => some (.oneOf set, rest)
          | none => (escapeOf? c).map fun d => (char d, rest)
      | '\\' :: [] => none
      | c :: rest => if "*+?\x7b".toList.contains c then none else some (char c, rest)
      | [] => none

/-- A group after its opening parenthesis. -/
def group (fuel : Nat) (chars : List Char) : Option (Pattern × List Char) :=
  match fuel with
  | 0 => none
  | fuel + 1 => do
      let (p, rest) ← alternatives fuel chars
      match rest with
      | ')' :: rest => return (p, rest)
      | _ => none

end

/-- The pattern of a text, if it is one. -/
def parse? (text : String) : Option Pattern :=
  let chars := text.toList
  match alternatives (4 * chars.length + 4) chars with
  | some (p, []) => some p
  | _ => none

end Pattern

end ExperimentSuite
