import ExperimentSuite.Yaml.Cursor
import ExperimentSuite.Yaml.Value.Scalar

/-!
# Styles of written scalars

How a text may be written depends on its characters and on what a reader would
take it for. A text that reads as another type is quoted, a text with line feeds
becomes a block scalar, and any other is plain if its characters allow. Where a
style is impossible the next more robust one is taken; double quotes always
work.
-/

namespace ExperimentSuite

namespace Yaml

/-- The ways to write a scalar. -/
inductive Style where
  | plain
  | singleQuoted
  | doubleQuoted
  | literal
deriving DecidableEq

/-- Whether a character is written as it is. -/
def isPrintable (c : Char) : Bool :=
  let n := c.toNat
  n == 0x0A || (decide (0x20 ≤ n) && decide (n ≤ 0x7E))
    || (decide (0xA0 ≤ n) && decide (n ≤ 0xFFFD) && n != 0xFEFF) || decide (0x10000 ≤ n)

/-- What the characters of a text rule out. -/
structure Traits where
  indicator : Bool
  special : Bool
  lineBreak : Bool
  leadingGap : Bool
  trailingGap : Bool
  trailingSpace : Bool
  /-- A space follows a line end. -/
  breakSpace : Bool
  /-- A line end follows a space. -/
  spaceBreak : Bool

/-- The characters that give a meaning to the start of a plain scalar. -/
def startIndicators : List Char :=
  ['#', ',', '[', ']', '\x7b', '\x7d', '&', '*', '!', '|', '>', '\'', '"', '%', '@', '`']

/-- Whether a list of characters starts with a gap or is at its end. -/
def startsWithGap : List Char → Bool
  | [] => true
  | c :: _ => isSpace c || isBreak c

/-- Whether the first character gives a text a meaning of its own. -/
def hasStartIndicator : List Char → Bool
  | [] => false
  | '-' :: '-' :: '-' :: _ => true
  | '.' :: '.' :: '.' :: _ => true
  | c :: rest =>
      startIndicators.contains c || ((c == '?' || c == ':' || c == '-') && startsWithGap rest)

/-- Whether a later character does: a colon before a gap, or a hash after one. -/
def hasInnerIndicator : Bool → List Char → Bool
  | _, [] => false
  | afterGap, c :: rest =>
      (c == ':' && startsWithGap rest) || (c == '#' && afterGap)
        || hasInnerIndicator (isSpace c || isBreak c) rest

/-- Whether a character of one kind is followed by one of another. -/
def hasPair (first second : Char → Bool) : List Char → Bool
  | a :: b :: rest => (first a && second b) || hasPair first second (b :: rest)
  | _ => false

/-- The traits of a text that is not empty. -/
def traits (chars : List Char) : Traits :=
  let space (c : Char) := c == ' '
  let gap (c : Char) := space c || isBreak c
  { indicator := hasStartIndicator chars
      || hasInnerIndicator (startsWithGap (chars.take 1)) (chars.drop 1)
    special := chars.any fun c => !isPrintable c
    lineBreak := chars.any isBreak
    leadingGap := chars.head?.any gap
    trailingGap := chars.getLast?.any gap
    trailingSpace := chars.getLast?.any space
    breakSpace := hasPair isBreak space chars
    spaceBreak := hasPair space isBreak chars }

/-- Whether a reader would take a plain text for something else. -/
def misreads (s : String) : Bool :=
  match Scalar.plain s with
  | some (.str _) => Scalar.isZeroPadded s.toList
  | _ => true

/-- The style that suits what a text says. -/
def preferredStyle (s : String) : Style :=
  if s.toList.contains '\n' then .literal else if misreads s then .singleQuoted else .plain

/-- The style of a text; keys on the line of their values are not block scalars. -/
def styleOf (simpleKey : Bool) (s : String) : Style :=
  if s.isEmpty then .singleQuoted
  else
    let t := traits s.toList
    let unquotable := t.spaceBreak || t.special
    let style := if simpleKey && t.lineBreak then .doubleQuoted else preferredStyle s
    match style with
    | .literal => if unquotable || t.trailingSpace || simpleKey then .doubleQuoted else .literal
    | .doubleQuoted => .doubleQuoted
    | style =>
        let quoted := style == .singleQuoted || unquotable || t.indicator || t.leadingGap
          || t.trailingGap || t.breakSpace || t.lineBreak
        if !quoted then .plain
        else if unquotable || t.breakSpace then .doubleQuoted
        else .singleQuoted

/-- The greatest length in bytes of a key on the line of its value. -/
def maxSimpleKey : Nat := 128

/-- Whether a key stands on the line of its value. -/
def isSimpleKey (s : String) : Bool :=
  !s.toList.any isBreak && decide (s.utf8ByteSize ≤ maxSimpleKey)

end Yaml

end ExperimentSuite
