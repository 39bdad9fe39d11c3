import ExperimentSuite.Json.Reader
import ExperimentSuite.Yaml.Cursor

/-!
# Scalars in YAML texts

Three ways to write a scalar. Plain scalars end where an indicator or too little
indentation ends them; quoted ones end at their quote; block scalars keep their
lines, or fold them into one another. Inside plain and quoted scalars a single
line end folds into a space and further ones are kept.
-/

namespace ExperimentSuite

namespace Yaml

/-- A space between two pieces, or the line ends between them. -/
structure Gap where
  /-- Spaces before the first line end. -/
  spaces : List Char
  /-- Whether a line end was passed. -/
  broken : Bool
  /-- The first line end. -/
  first : List Char
  /-- The further line ends. -/
  further : List Char

namespace Gap

/-- No gap. -/
def none : Gap := ⟨[], false, [], []⟩

/-- What a gap turns into: one line feed folds, into a space if nothing follows it. -/
def text (g : Gap) : List Char :=
  if !g.broken then g.spaces
  else
    match g.first with
    | '\n' :: _ => if g.further.isEmpty then [' '] else g.further
    | _ => g.first ++ g.further

end Gap

/-- Passes spaces and line ends. In a plain scalar, a tab left of the given column is an error once
a line end has been passed. -/
def takeGap (fuel : Nat) (tabLimit : Int) (g : Gap) (c : Cursor) : Option (Gap × Cursor) :=
  match fuel with
  | 0 => some (g, c)
  | fuel + 1 =>
      match c.next? with
      | some d =>
          if isSpace d then
            if g.broken then
              if d = '\t' ∧ (c.column : Int) < tabLimit then Option.none
              else takeGap fuel tabLimit g (c.skip 1)
            else takeGap fuel tabLimit { g with spaces := g.spaces ++ [d] } (c.skip 1)
          else if isBreak d then
            let (text, c) := c.takeBreak
            if g.broken then takeGap fuel tabLimit { g with further := g.further ++ text } c
            else takeGap fuel tabLimit { g with spaces := [], broken := true, first := text } c
          else some (g, c)
      | none => some (g, c)

/-- Whether a character separates the items of flow collections. -/
def isFlowIndicator (d : Char) : Bool :=
  d == ',' || d == '[' || d == ']' || d == '\x7b' || d == '\x7d'

/-- One run of a plain scalar without spaces; fails on a colon that flow collections forbid. -/
def plainRun (flow : Bool) (fuel : Nat) (read : List Char) (c : Cursor) :
    Option (List Char × Cursor) :=
  match fuel with
  | 0 => some (read.reverse, c)
  | fuel + 1 =>
      match c.next? with
      | none => some (read.reverse, c)
      | some d =>
          if isSpace d || isBreak d then some (read.reverse, c)
          else if flow && d == ':'
              && ((c.skip 1).nextIs fun e => isFlowIndicator e || e == '?') then
            none
          else if (d == ':' && c.gapAt 1) || (flow && isFlowIndicator d) then
            some (read.reverse, c)
          else plainRun flow fuel (d :: read) (c.skip 1)

/-- The rest of a plain scalar: its text so far, and whether a line end was passed last. -/
def plainRest (fuel : Nat) (flow : Bool) (indent : Int) (read : List Char) (gap : Gap)
    (c : Cursor) : Option (List Char × Bool × Cursor) :=
  match fuel with
  | 0 => none
  | fuel + 1 =>
      if c.atAnyMarker || c.nextIs (· == '#') then some (read, gap.broken, c)
      else do
        let (run, c) ← plainRun flow (c.ahead.length + 1) [] c
        let (read, gap) := if run.isEmpty then (read, gap) else (read ++ gap.text ++ run, Gap.none)
        if !c.nextIs (fun d => isSpace d || isBreak d) then return (read, gap.broken, c)
        let (gap, c) ← takeGap (c.ahead.length + 1) indent gap c
        if !flow && decide ((c.column : Int) < indent) then return (read, gap.broken, c)
        plainRest fuel flow indent read gap c

/-- A plain scalar, whether a line end was passed after it, and what follows. -/
def plainScalar (flow : Bool) (indent : Int) (c : Cursor) : Option (String × Bool × Cursor) := do
  let (text, broken, c) ← plainRest (c.ahead.length + 1) flow (indent + 1) [] Gap.none c
  return (String.ofList text, broken, c)

/-- The character of a one-letter escape. -/
def simpleEscape? : Char → Option Char
  | '0' => some '\x00'
  | 'a' => some '\x07'
  | 'b' => some '\x08'
  | 't' => some '\t'
  | '\t' => some '\t'
  | 'n' => some '\n'
  | 'v' => some '\x0b'
  | 'f' => some '\x0c'
  | 'r' => some '\r'
  | 'e' => some '\x1b'
  | ' ' => some ' '
  | '"' => some '"'
  | '/' => some '/'
  | '\\' => some '\\'
  | 'N' => some '\x85'
  | '_' => some '\xa0'
  | 'L' => some '\u2028'
  | 'P' => some '\u2029'
  | _ => none

/-- The number of hexadecimal digits of a numeric escape. -/
def escapeLength? : Char → Option Nat
  | 'x' => some 2
  | 'u' => some 4
  | 'U' => some 8
  | _ => none

/-- The value of hexadecimal digits, if all of them are. -/
def hexNumber? (digits : List Char) : Option Nat :=
  digits.foldl (fun n? d => do return (← n?) * 16 + (← Text.hexValue? d)) (some 0)

/-- The character of an escape after its backslash, and what follows. -/
def escape (c : Cursor) : Option (Char × Cursor) := do
  let letter ← c.next?
  match simpleEscape? letter with
  | some d => return (d, c.skip 1)
  | none =>
      let count ← escapeLength? letter
      let digits := (c.ahead.drop 1).take count
      if digits.length < count then none
      let value ← hexNumber? digits
      if (0xD800 ≤ value ∧ value ≤ 0xDFFF) ∨ 0x10FFFF < value then none
      return (Char.ofNat value, c.skip (count + 1))

/-- One run of a quoted scalar without spaces; tells whether it ended in an escaped line end. -/
def quotedRun (single : Bool) (fuel : Nat) (read : List Char) (c : Cursor) :
    Option (List Char × Bool × Cursor) :=
  match fuel with
  | 0 => some (read.reverse, false, c)
  | fuel + 1 =>
      match c.ahead with
      | [] => some (read.reverse, false, c)
      | d :: rest =>
          if isSpace d || isBreak d then some (read.reverse, false, c)
          else if single && d == '\'' then
            if rest.head? = some '\'' then quotedRun single fuel ('\'' :: read) (c.skip 2)
            else some (read.reverse, false, c)
          else if !single && d == '"' then some (read.reverse, false, c)
          else if !single && d == '\\' then
            if rest.head?.any isBreak then some (read.reverse, true, (c.skip 1).skipBreak)
            else do
              let (e, c) ← escape (c.skip 1)
              quotedRun single fuel (e :: read) c
          else quotedRun single fuel (d :: read) (c.skip 1)

/-- The rest of a quoted scalar after its opening quote. -/
def quotedRest (fuel : Nat) (single : Bool) (read : List Char) (c : Cursor) :
    Option (List Char × Cursor) :=
  match fuel with
  | 0 => none
  | fuel + 1 => do
      if c.atAnyMarker || c.atEnd then none
      let (run, escapedBreak, c) ← quotedRun single (c.ahead.length + 1) [] c
      let read := read ++ run
      if c.nextIs (· == (if single then '\'' else '"')) then return (read, c.skip 1)
      let start : Gap := if escapedBreak then ⟨[], true, [], []⟩ else Gap.none
      let (gap, c) ← takeGap (c.ahead.length + 1) 0 start c
      quotedRest fuel single (read ++ gap.text) c

/-- A quoted scalar that starts at its opening quote. -/
def quotedScalar (single : Bool) (c : Cursor) : Option (String × Cursor) := do
  let (text, c) ← quotedRest (c.ahead.length + 2) single [] (c.skip 1)
  return (String.ofList text, c)

/-- What happens to the line ends at the end of a block scalar. -/
inductive Chomping where
  | strip
  | clip
  | keep

/-- The chomping of a sign. -/
def chomping? : Char → Option Chomping
  | '+' => some .keep
  | '-' => some .strip
  | _ => none

/-- The indentation of a digit; zero is an error. -/
def indentDigit (c : Cursor) : Option (Nat × Cursor) :=
  match c.next? with
  | some d =>
      if d.isDigit then if d = '0' then none else some (d.toNat - 48, c.skip 1)
      else some (0, c)
  | none => some (0, c)

/-- The sign and the digit after the indicator of a block scalar, in either order. -/
def blockHeader (c : Cursor) : Option (Chomping × Nat × Cursor) := do
  match c.next?.bind chomping? with
  | some chomping =>
      let (increment, c) ← indentDigit (c.skip 1)
      return (chomping, increment, c)
  | none =>
      let (increment, c) ← indentDigit c
      match (if 0 < increment then c.next?.bind chomping? else none) with
      | some chomping => return (chomping, increment, c.skip 1)
      | none => return (.clip, increment, c)

/-- Passes empty lines and the indentation after them; `indent` is zero while it is unknown. Returns
the line ends, the greatest column reached, and what follows. -/
def blockBreaks (fuel : Nat) (indent : Int) (greatest : Nat) (breaks : List Char) (c : Cursor) :
    Option (List Char × Nat × Cursor) :=
  match fuel with
  | 0 => some (breaks, greatest, c)
  | fuel + 1 =>
      let spaces := (c.ahead.takeWhile (· == ' ')).length
      let passed := if indent = 0 then spaces else min spaces (indent - c.column).toNat
      let c := c.skip passed
      let greatest := max greatest c.column
      if (indent = 0 ∨ (c.column : Int) < indent) ∧ c.nextIs (· == '\t') then none
      else if c.nextIs isBreak then
        let (text, c) := c.takeBreak
        blockBreaks fuel indent greatest (breaks ++ text) c
      else some (breaks, greatest, c)

/-- What a block scalar has read so far. -/
structure BlockText where
  text : List Char
  /-- The line end after the last line. -/
  lineEnd : List Char
  /-- The empty lines after it. -/
  further : List Char
  /-- Whether the last line starts with a space. -/
  spaced : Bool

/-- The lines of a block scalar at a known indentation. -/
def blockLines (fuel : Nat) (literal : Bool) (indent : Int) (b : BlockText) (c : Cursor) :
    Option (BlockText × Cursor) :=
  match fuel with
  | 0 => some (b, c)
  | fuel + 1 =>
      if (c.column : Int) ≠ indent ∨ c.atEnd then some (b, c)
      else do
        let spaced := c.nextIs isSpace
        let folds := !literal && b.lineEnd.head? == some '\n' && !b.spaced && !spaced
        let joint :=
          if folds then (if b.further.isEmpty then [' '] else b.further)
          else b.lineEnd ++ b.further
        let (line, c) := c.span fun d => !isBreak d
        let (lineEnd, c) := c.takeBreak
        let (further, _, c) ← blockBreaks (c.ahead.length + 1) indent 0 [] c
        blockLines fuel literal indent ⟨b.text ++ joint ++ line, lineEnd, further, spaced⟩ c

/-- A block scalar that starts at its indicator; `parent` is the indentation around it. -/
def blockScalar (literal : Bool) (parent : Int) (c : Cursor) : Option (String × Cursor) := do
  let (chomping, increment, c) ← blockHeader (c.skip 1)
  let c ← c.finishLine
  let given : Int :=
    if increment = 0 then 0 else if 0 ≤ parent then parent + increment else increment
  let (breaks, greatest, c) ← blockBreaks (c.ahead.length + 1) given 0 [] c
  let indent := if given = 0 then max (max (greatest : Int) (parent + 1)) 1 else given
  let (b, c) ← blockLines (c.ahead.length + 1) literal indent ⟨[], [], breaks, false⟩ c
  let text := match chomping with
    | .strip => b.text
    | .clip => b.text ++ b.lineEnd
    | .keep => b.text ++ b.lineEnd ++ b.further
  return (String.ofList text, c)

end Yaml

end ExperimentSuite
