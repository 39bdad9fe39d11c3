import ExperimentSuite.Yaml.Token.Scalar
import ExperimentSuite.Yaml.Token.Tag

/-!
# From text to tokens

Tokens are read one after the other. A token that may turn out to be a key is
remembered until a colon confirms it; the tokens for the key and for the mapping
it opens are then put in front of it. Such a key has to end on its line within
1024 characters. In block style, columns open and close collections.
-/

namespace ExperimentSuite

namespace Yaml

/-- A place that may turn out to be a key. -/
structure KeyPlace where
  /-- How many tokens precede it. -/
  position : Nat
  index : Nat
  line : Nat
  column : Nat
  /-- Whether nothing but a key may stand there. -/
  required : Bool

/-- The state between two tokens. -/
structure Scan where
  cursor : Cursor
  tokens : Array Token
  /-- The column of the innermost block collection, -1 outside of all. -/
  indent : Int
  /-- The columns of the collections around it. -/
  outer : List Int
  /-- The place that may be a key in the innermost flow collection or outside of all. -/
  place : Option KeyPlace
  /-- The same for the flow collections around it. -/
  outerPlaces : List (Option KeyPlace)
  /-- Whether a key may start here. -/
  keyAllowed : Bool

namespace Scan

/-- The state at the start of a text. -/
def start (chars : List Char) : Scan :=
  { cursor := .start chars, tokens := #[], indent := -1, outer := [], place := none,
    outerPlaces := [], keyAllowed := true }

/-- Whether the state is inside a flow collection. -/
def inFlow (s : Scan) : Bool := !s.outerPlaces.isEmpty

/-- Adds a token. -/
def push (t : Token) (s : Scan) : Scan := { s with tokens := s.tokens.push t }

/-- Passes characters. -/
def skip (n : Nat) (s : Scan) : Scan := { s with cursor := s.cursor.skip n }

/-- Passes spaces, comments and line ends up to the next token. A mark of byte order may start a
line. Tabs do not count as spaces where a key may start in block style. -/
def skipBlank (fuel : Nat) (s : Scan) : Scan :=
  match fuel with
  | 0 => s
  | fuel + 1 =>
      let s := if s.cursor.column = 0 ∧ s.cursor.nextIs (· == '\ufeff') then s.skip 1 else s
      let tabs := s.inFlow || !s.keyAllowed
      let c := (s.cursor.span fun d => d == ' ' || (tabs && d == '\t')).2
      let c := if c.nextIs (· == '#') then c.skipToLineEnd else c
      if c.nextIs isBreak then
        skipBlank fuel { s with cursor := c.skipBreak, keyAllowed := s.keyAllowed || !s.inFlow }
      else { s with cursor := c }

/-- Forgets a place that can no longer be a key; fails if it had to be one. -/
def dropStale (here : Cursor) : Option KeyPlace → Option (Option KeyPlace)
  | none => some none
  | some p =>
      if p.line < here.line ∨ p.index + 1024 < here.index then
        if p.required then none else some none
      else some (some p)

/-- Forgets all places that can no longer be keys. -/
def dropAllStale (s : Scan) : Option Scan := do
  let place ← dropStale s.cursor s.place
  let outerPlaces ← s.outerPlaces.mapM (dropStale s.cursor)
  return { s with place, outerPlaces }

/-- Gives up on the innermost place; fails if it had to be a key. -/
def dropPlace (s : Scan) : Option Scan :=
  match s.place with
  | some p => if p.required then none else some { s with place := none }
  | none => some s

/-- Remembers this place as a possible key. -/
def savePlace (s : Scan) : Option Scan :=
  if !s.keyAllowed then some s
  else do
    let required := !s.inFlow && decide (s.indent = (s.cursor.column : Int))
    let s ← s.dropPlace
    return { s with place := some ⟨s.tokens.size, s.cursor.index, s.cursor.line, s.cursor.column,
      required⟩ }

/-- Closes the block collections right of a column. -/
def closeTo (column : Int) : List Int → Scan → Scan
  | [], s => s
  | below :: rest, s =>
      if s.inFlow || decide (s.indent ≤ column) then s
      else closeTo column rest { s.push .blockEnd with indent := below, outer := rest }

/-- Closes the block collections right of a column. -/
def unroll (column : Int) (s : Scan) : Scan := closeTo column s.outer s

/-- Opens a block collection at a column unless one is open there; its token goes to a position. -/
def roll (column : Nat) (position : Nat) (t : Token) (s : Scan) : Scan :=
  if s.inFlow || decide ((column : Int) ≤ s.indent) then s
  else
    { s with
      indent := column
      outer := s.indent :: s.outer
      tokens := s.tokens.insertIdxIfInBounds position t }

/-- Ends all block collections and gives up on a possible key, as the end of a document does. -/
def endDocument (s : Scan) : Option Scan := do
  let s ← (s.unroll (-1)).dropPlace
  return { s with keyAllowed := false }

/-- A document marker. -/
def marker (t : Token) (s : Scan) : Option Scan := do
  return (← s.endDocument).skip 3 |>.push t

/-- The start of a flow collection. -/
def openFlow (t : Token) (s : Scan) : Option Scan := do
  let s ← s.savePlace
  return { (s.skip 1).push t with
    place := none, outerPlaces := s.place :: s.outerPlaces, keyAllowed := true }

/-- The end of a flow collection. -/
def closeFlow (t : Token) (s : Scan) : Option Scan := do
  let s ← s.dropPlace
  let s := { (s.skip 1).push t with keyAllowed := false }
  match s.outerPlaces with
  | [] => return s
  | place :: outerPlaces => return { s with place, outerPlaces }

/-- A comma between the items of a flow collection. -/
def flowEntry (s : Scan) : Option Scan := do
  let s ← s.dropPlace
  return { (s.skip 1).push .flowEntry with keyAllowed := true }

/-- The hyphen of an item of a block sequence. -/
def blockEntry (s : Scan) : Option Scan := do
  if !s.inFlow && !s.keyAllowed then none
  let s := s.roll s.cursor.column s.tokens.size .blockSequenceStart
  let s ← s.dropPlace
  return { (s.skip 1).push .blockEntry with keyAllowed := true }

/-- The question mark of a key. -/
def keyMark (s : Scan) : Option Scan := do
  if !s.inFlow && !s.keyAllowed then none
  let s := s.roll s.cursor.column s.tokens.size .blockMappingStart
  let s ← s.dropPlace
  return { (s.skip 1).push .key with keyAllowed := !s.inFlow }

/-- The colon of a value. -/
def valueMark (s : Scan) : Option Scan :=
  match s.place with
  | some p =>
      let s := { s with tokens := s.tokens.insertIdxIfInBounds p.position .key }
      let s := s.roll p.column p.position .blockMappingStart
      some { (s.skip 1).push .value with place := none, keyAllowed := false }
  | none =>
      if !s.inFlow && !s.keyAllowed then none
      else
        let s := s.roll s.cursor.column s.tokens.size .blockMappingStart
        some { (s.skip 1).push .value with keyAllowed := !s.inFlow }

/-- A token that may start a key and after which no key may start. -/
def content (read : Cursor → Option (Token × Cursor)) (s : Scan) : Option Scan := do
  let s ← s.savePlace
  let (t, cursor) ← read s.cursor
  return { s.push t with cursor, keyAllowed := false }

/-- A block scalar. -/
def block (literal : Bool) (s : Scan) : Option Scan := do
  let s ← s.dropPlace
  let (text, cursor) ← blockScalar literal s.indent s.cursor
  return { s.push (.scalar false text) with cursor, keyAllowed := true }

/-- A plain scalar; a key may start after it once a line has ended. -/
def plain (s : Scan) : Option Scan := do
  let s ← s.savePlace
  let (text, broken, cursor) ← plainScalar s.inFlow s.indent s.cursor
  return { s.push (.scalar true text) with cursor, keyAllowed := broken }

/-- Whether a plain scalar may start with a character that is followed by a gap or not. -/
def startsPlain (flow : Bool) (d : Char) (gapAfter spaceAfter : Bool) : Bool :=
  if d == '-' then !spaceAfter
  else if d == '?' || d == ':' then !flow && !gapAfter
  else !(isFlowIndicator d || "#&*!|>'\"%@`".toList.contains d)

/-- The next token. -/
def token (s : Scan) (d : Char) : Option Scan :=
  let c := s.cursor
  let gap := c.gapAt 1
  let read {α : Type} (f : α → Token) (r : Option (α × Cursor)) : Option (Token × Cursor) :=
    r.map fun (a, c) => (f a, c)
  if c.column = 0 ∧ d = '%' then do
    let s ← s.endDocument
    let (t, cursor) ← directive s.cursor
    return { s.push t with cursor }
  else if c.atMarker '-' then s.marker .documentStart
  else if c.atMarker '.' then s.marker .documentEnd
  else if d = '[' then s.openFlow .flowSequenceStart
  else if d = '\x7b' then s.openFlow .flowMappingStart
  else if d = ']' then s.closeFlow .flowSequenceEnd
  else if d = '\x7d' then s.closeFlow .flowMappingEnd
  else if d = ',' then s.flowEntry
  else if d = '-' ∧ gap then s.blockEntry
  else if d = '?' ∧ (s.inFlow ∨ gap) then s.keyMark
  else if d = ':' ∧ (s.inFlow ∨ gap) then s.valueMark
  else if d = '*' then s.content fun c => read Token.alias (anchorName c)
  else if d = '&' then s.content fun c => read Token.anchor (anchorName c)
  else if d = '!' then s.content fun c => read Token.tag (tagToken s.inFlow c)
  else if d = '|' ∧ !s.inFlow then s.block true
  else if d = '>' ∧ !s.inFlow then s.block false
  else if d = '\'' then s.content fun c => read (Token.scalar false) (quotedScalar true c)
  else if d = '"' then s.content fun c => read (Token.scalar false) (quotedScalar false c)
  else if isSpace d then none
  else if startsPlain s.inFlow d gap ((c.skip 1).nextIs isSpace) then s.plain
  else none

/-- The end of the text. -/
def finish (s : Scan) : Option (List Token) := do
  let s ← s.endDocument
  return s.tokens.toList

/-- The tokens from a state to the end of the text. -/
def run (fuel : Nat) (s : Scan) : Option (List Token) :=
  match fuel with
  | 0 => none
  | fuel + 1 => do
      -- Every token passes a character, so the fuel left exceeds the characters ahead.
      let s ← (s.skipBlank fuel).dropAllStale
      let s := s.unroll s.cursor.column
      match s.cursor.next? with
      | none => s.finish
      | some d => run fuel (← s.token d)

end Scan

/-- The tokens of a text. -/
def tokens? (text : String) : Option (List Token) :=
  let chars := text.toList
  if chars.all isAllowed then Scan.run (chars.length + 2) (.start chars) else none

end Yaml

end ExperimentSuite
