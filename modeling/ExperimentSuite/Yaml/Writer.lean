import ExperimentSuite.Decimal.Shortest
import ExperimentSuite.Yaml.Style

/-!
# Writing YAML texts

Documents are written in block style, two columns a level; a list that is the
value of a key stands at the column of the key. The page keeps the column and
whether the line so far is indentation, which decides where lines start.
-/

namespace ExperimentSuite

namespace Yaml

/-- A text under construction. -/
structure Page where
  /-- The characters so far, last first. -/
  written : List Char
  column : Nat
  /-- Whether the last character separates. -/
  spaced : Bool
  /-- Whether the line holds nothing but indentation and marks of collections. -/
  indented : Bool

namespace Page

/-- The empty page. -/
def empty : Page := ⟨[], 0, true, true⟩

/-- Adds a character of the current line. -/
def put (c : Char) (p : Page) : Page :=
  { p with written := c :: p.written, column := p.column + 1 }

/-- Adds characters of the current line. -/
def putAll (cs : List Char) (p : Page) : Page :=
  cs.foldl (fun p c => p.put c) p

/-- Adds a line end. -/
def putBreak (c : Char) (p : Page) : Page :=
  { p with written := c :: p.written, column := 0 }

/-- Goes to a column, on a new line if the current one is in use. -/
def toColumn (column : Nat) (p : Page) : Page :=
  let p :=
    if !p.indented || decide (column < p.column) || (p.column == column && !p.spaced) then
      p.putBreak '\n'
    else p
  let p := p.putAll (List.replicate (column - p.column) ' ')
  { p with spaced := true, indented := true }

/-- Adds a mark, apart from what precedes it if asked. -/
def mark (text : String) (apart spaces indents : Bool) (p : Page) : Page :=
  let p := if apart && !p.spaced then p.put ' ' else p
  let p := p.putAll text.toList
  { p with spaced := spaces, indented := p.indented && indents }

/-- Adds characters after which the line is in use. -/
def word (text : List Char) (p : Page) : Page :=
  let p := if p.spaced then p else p.put ' '
  { p.putAll text with spaced := false, indented := false }

end Page

/-- Upper-case hexadecimal digits. -/
def hexDigits (width n : Nat) : List Char :=
  (List.range width).map fun (i : Nat) =>
    let digit := n / Nat.pow 16 (width - 1 - i) % 16
    Char.ofNat (if digit < 10 then 48 + digit else 55 + digit)

/-- A character between double quotes. -/
def escaped (c : Char) : List Char :=
  if isPrintable c && !isBreak c && c != '"' && c != '\\' then [c]
  else
    match c with
    | '\x00' => ['\\', '0']
    | '\x07' => ['\\', 'a']
    | '\x08' => ['\\', 'b']
    | '\t' => ['\\', 't']
    | '\n' => ['\\', 'n']
    | '\x0b' => ['\\', 'v']
    | '\x0c' => ['\\', 'f']
    | '\r' => ['\\', 'r']
    | '\x1b' => ['\\', 'e']
    | '"' => ['\\', '"']
    | '\\' => ['\\', '\\']
    | '\x85' => ['\\', 'N']
    | '\u2028' => ['\\', 'L']
    | '\u2029' => ['\\', 'P']
    | c =>
        if c.toNat ≤ 0xFF then '\\' :: 'x' :: hexDigits 2 c.toNat
        else if c.toNat ≤ 0xFFFF then '\\' :: 'u' :: hexDigits 4 c.toNat
        else '\\' :: 'U' :: hexDigits 8 c.toNat

/-- A text between double quotes. -/
def putDoubleQuoted (chars : List Char) (p : Page) : Page :=
  let p := (p.mark "\"" true false false).putAll (chars.flatMap escaped)
  p.mark "\"" false false false

/-- The characters of a text between single quotes; lines after the first are indented. -/
def putSingleChars (column : Nat) : Bool → List Char → Page → Page
  | broken, [], p => if broken then p.toColumn column else p
  | broken, c :: rest, p =>
      if c = ' ' then putSingleChars column broken rest (p.put c)
      else if isBreak c then
        let p := if !broken && c == '\n' then p.putBreak '\n' else p
        putSingleChars column true rest { p.putBreak c with indented := true }
      else
        let p := if broken then p.toColumn column else p
        let p := if c = '\'' then p.put c else p
        putSingleChars column false rest { p.put c with indented := false }

/-- A text between single quotes. -/
def putSingleQuoted (column : Nat) (chars : List Char) (p : Page) : Page :=
  (putSingleChars column false chars (p.mark "'" true false false)).mark "'" false false false

/-- The lines of a block scalar. -/
def putLines (column : Nat) : Bool → List Char → Page → Page
  | _, [], p => p
  | broken, c :: rest, p =>
      if isBreak c then putLines column true rest { p.putBreak c with indented := true }
      else
        let p := if broken then p.toColumn column else p
        putLines column false rest { p.put c with indented := false }

/-- The sign that tells what happens to the line ends at the end of a block scalar. -/
def chompingSign (chars : List Char) : String :=
  match chars.reverse with
  | [] => "-"
  | [c] => if isBreak c then "+" else "-"
  | c :: d :: _ => if !isBreak c then "-" else if isBreak d then "+" else ""

/-- A block scalar that keeps its lines. -/
def putLiteral (column : Nat) (chars : List Char) (p : Page) : Page :=
  let p := p.mark "|" true false false
  let indented := chars.head?.any fun c => c == ' ' || isBreak c
  let p := if indented then p.mark "2" false false false else p
  let sign := chompingSign chars
  let p := if sign.isEmpty then p else p.mark sign false false false
  putLines column true chars { p.putBreak '\n' with indented := true, spaced := true }

/-- A text in the style that suits it; further lines of it start at a column. -/
def putText (column : Nat) (simpleKey : Bool) (s : String) (p : Page) : Page :=
  match styleOf simpleKey s with
  | .plain => p.word s.toList
  | .singleQuoted => putSingleQuoted column s.toList p
  | .doubleQuoted => putDoubleQuoted s.toList p
  | .literal => putLiteral column s.toList p

/-- Floats are positional for leading exponents from -5 to 15. -/
def floatLayout : FloatLayout := ⟨-5, 15, false⟩

/-- The text of a number. -/
def number : Number → String
  | .int n => toString n
  | .float x => floatLayout.text x

/-- The column of a collection or a further line inside one at a column. -/
def inner : Option Nat → Nat
  | none => 0
  | some column => column + 2

/-- The column of the further lines of a scalar. -/
def scalarColumn : Option Nat → Nat
  | none => 2
  | some column => column + 2

mutual

/-- A document inside a collection at a column, or outside of all. A list that is the value of a key
keeps the column of the key. -/
def putDocument (column : Option Nat) (ofKey : Bool) (d : Document) (p : Page) : Page :=
  match d with
  | .null => p.word "null".toList
  | .bool true => p.word "true".toList
  | .bool false => p.word "false".toList
  | .num n => p.word (number n).toList
  | .str s => putText (scalarColumn column) false s p
  | .list [] => (p.mark "[" true true false).mark "]" false false false
  | .list (d :: rest) =>
      let here := match column with
        | some c => if ofKey && !p.indented then c else c + 2
        | none => 0
      putItems here (d :: rest) p
  | .map [] => (p.mark "\x7b" true true false).mark "\x7d" false false false
  | .map (field :: rest) => putFields (inner column) (field :: rest) p

/-- Items, each after a hyphen. -/
def putItems (column : Nat) (items : List Document) (p : Page) : Page :=
  match items with
  | [] => p
  | d :: rest =>
      putItems column rest
        (putDocument (some column) false d ((p.toColumn column).mark "-" true false true))

/-- Fields, each a key with its value. -/
def putFields (column : Nat) (fields : List (String × Document)) (p : Page) : Page :=
  match fields with
  | [] => p
  | (key, d) :: rest =>
      let p := p.toColumn column
      let p :=
        if isSimpleKey key then (putText (column + 2) true key p).mark ":" false false false
        else
          let p := putText (column + 2) false key (p.mark "?" true false true)
          (p.toColumn column).mark ":" true false true
      putFields column rest (putDocument (some column) true d p)

end

/-- The YAML text of a document. -/
def write (d : Document) : String :=
  String.ofList (((putDocument none false d .empty).toColumn 0).written.reverse)

end Yaml

end ExperimentSuite
