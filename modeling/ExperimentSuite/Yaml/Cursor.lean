/-!
# Cursors

A cursor is a place in a YAML text: the characters ahead together with the line
and the column reached. Columns and the index count characters. A line ends
with a line feed, a carriage return, both in a row, or one of three Unicode line
ends; the last two of these stand for themselves and all others for a line feed.
-/

namespace ExperimentSuite

namespace Yaml

/-- A place in a text. -/
structure Cursor where
  ahead : List Char
  index : Nat
  line : Nat
  column : Nat

/-- Whether a YAML text may hold a character. -/
def isAllowed (c : Char) : Bool :=
  let n := c.toNat
  n == 0x09 || n == 0x0A || n == 0x0D || (decide (0x20 ≤ n) && decide (n ≤ 0x7E)) || n == 0x85
    || (decide (0xA0 ≤ n) && decide (n ≤ 0xD7FF)) || (decide (0xE000 ≤ n) && decide (n ≤ 0xFFFD))
    || decide (0x10000 ≤ n)

/-- Whether a character is a space or a tab. -/
def isSpace (c : Char) : Bool := c == ' ' || c == '\t'

/-- Whether a character ends a line. -/
def isBreak (c : Char) : Bool :=
  c == '\n' || c == '\r' || c == '\x85' || c == '\u2028' || c == '\u2029'

/-- Whether a character may stand in a name: an ASCII letter or digit, an underscore or a hyphen. -/
def isNameChar (c : Char) : Bool :=
  c.isAlphanum || c == '_' || c == '-'

namespace Cursor

/-- The start of a text. -/
def start (chars : List Char) : Cursor := ⟨chars, 0, 0, 0⟩

/-- The next character. -/
def next? (c : Cursor) : Option Char := c.ahead.head?

/-- Whether the next character satisfies a test. -/
def nextIs (test : Char → Bool) (c : Cursor) : Bool := c.next?.any test

/-- Whether the text is at its end. -/
def atEnd (c : Cursor) : Bool := c.ahead.isEmpty

/-- Whether the character `n` places ahead is a space, a tab, a line end or missing. -/
def gapAt (n : Nat) (c : Cursor) : Bool :=
  match c.ahead.drop n with
  | [] => true
  | d :: _ => isSpace d || isBreak d

/-- Whether the next character is a line end or missing. -/
def atLineEnd (c : Cursor) : Bool :=
  match c.ahead with
  | [] => true
  | d :: _ => isBreak d

/-- Passes characters of the same line. -/
def skip (n : Nat) (c : Cursor) : Cursor :=
  ⟨c.ahead.drop n, c.index + n, c.line, c.column + n⟩

/-- Passes one line end and returns what it stands for; passes nothing elsewhere. -/
def takeBreak (c : Cursor) : List Char × Cursor :=
  match c.ahead with
  | '\r' :: '\n' :: rest => (['\n'], ⟨rest, c.index + 2, c.line + 1, 0⟩)
  | d :: rest =>
      if isBreak d then
        ([if d = '\u2028' ∨ d = '\u2029' then d else '\n'], ⟨rest, c.index + 1, c.line + 1, 0⟩)
      else ([], c)
  | [] => ([], c)

/-- Passes one line end. -/
def skipBreak (c : Cursor) : Cursor := c.takeBreak.2

/-- The longest run of characters that satisfy a test, and what follows; the test holds of no line
end. -/
def span (test : Char → Bool) (c : Cursor) : List Char × Cursor :=
  let run := c.ahead.takeWhile test
  (run, c.skip run.length)

/-- Passes spaces and tabs. -/
def skipSpaces (c : Cursor) : Cursor := (c.span isSpace).2

/-- Passes the rest of the line. -/
def skipToLineEnd (c : Cursor) : Cursor := (c.span fun d => !isBreak d).2

/-- Passes spaces and a comment and then one line end; fails on anything else in the line. -/
def finishLine (c : Cursor) : Option Cursor :=
  let c := c.skipSpaces
  let c := if c.nextIs (· == '#') then c.skipToLineEnd else c
  if c.atLineEnd then some c.skipBreak else none

/-- Whether a document marker made of three equal characters stands at the start of this line. -/
def atMarker (mark : Char) (c : Cursor) : Bool :=
  c.column == 0 && c.ahead.take 3 == [mark, mark, mark] && c.gapAt 3

/-- Whether either document marker stands here. -/
def atAnyMarker (c : Cursor) : Bool := c.atMarker '-' || c.atMarker '.'

end Cursor

end Yaml

end ExperimentSuite
