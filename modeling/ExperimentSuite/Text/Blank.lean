/-!
# Blanks and pieces of text

Blanks are the characters with the White_Space property. Texts are taken apart
as lists of characters; the functions of this module cut and search such lists
and are shared by every reader of the library.
-/

namespace ExperimentSuite

namespace Text

/-- Whether a character is a blank. -/
def isBlank (c : Char) : Bool :=
  let n := c.toNat
  (decide (0x09 ≤ n) && decide (n ≤ 0x0D)) || n == 0x20 || n == 0x85 || n == 0xA0 || n == 0x1680
    || (decide (0x2000 ≤ n) && decide (n ≤ 0x200A)) || n == 0x2028 || n == 0x2029 || n == 0x202F
    || n == 0x205F || n == 0x3000

/-- Drops blanks at the front. -/
def trimStart (chars : List Char) : List Char :=
  chars.dropWhile isBlank

/-- Drops blanks at the back. -/
def trimEnd (chars : List Char) : List Char :=
  (chars.reverse.dropWhile isBlank).reverse

/-- Drops blanks at both ends. -/
def trim (chars : List Char) : List Char :=
  trimEnd (trimStart chars)

/-- What follows a given front. -/
def dropFront? : List Char → List Char → Option (List Char)
  | [], chars => some chars
  | p :: front, c :: chars => if p = c then dropFront? front chars else none
  | _ :: _, [] => none

/-- The parts before and after the first occurrence of a piece. -/
def cutAt? (piece : List Char) : List Char → Option (List Char × List Char)
  | [] => if piece.isEmpty then some ([], []) else none
  | c :: chars =>
      match dropFront? piece (c :: chars) with
      | some rest => some ([], rest)
      | none => (cutAt? piece chars).map fun (before, after) => (c :: before, after)

/-- Whether a piece occurs in a text. -/
def hasPiece (piece chars : List Char) : Bool :=
  (cutAt? piece chars).isSome

/-- The pieces of a text between the occurrences of one character. -/
def splitAt (mark : Char) : List Char → List (List Char)
  | [] => [[]]
  | c :: chars =>
      if c = mark then [] :: splitAt mark chars
      else
        match splitAt mark chars with
        | first :: rest => (c :: first) :: rest
        | [] => [[c]]

/-- An ASCII upper-case letter as its lower-case one. -/
def lowerAscii (c : Char) : Char :=
  if 'A' ≤ c ∧ c ≤ 'Z' then Char.ofNat (c.toNat + 32) else c

/-- Whether a character is an ASCII letter, an ASCII digit or an underscore. -/
def isWordAscii (c : Char) : Bool :=
  c.isAlphanum || c == '_'

end Text

end ExperimentSuite
