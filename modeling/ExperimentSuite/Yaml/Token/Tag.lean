import ExperimentSuite.Json.Reader
import ExperimentSuite.Text.Utf8
import ExperimentSuite.Yaml.Cursor
import ExperimentSuite.Yaml.Token

/-!
# Tags, names and directives

The small parts of a YAML text: the names of anchors, tags in their three
forms, and the directives that precede a document.
-/

namespace ExperimentSuite

namespace Yaml

/-- Whether a character may follow the name of an anchor directly. -/
def endsName (d : Char) : Bool :=
  isSpace d || isBreak d || d == '?' || d == ':' || d == ',' || d == ']' || d == '\x7d' || d == '%'
    || d == '@' || d == '`'

/-- The name after the mark of an anchor or an alias. -/
def anchorName (c : Cursor) : Option (String × Cursor) :=
  let (name, c) := (c.skip 1).span isNameChar
  if name.isEmpty || c.nextIs (fun d => !endsName d) then none
  else some (String.ofList name, c)

/-- Whether a character may stand in the text of a tag; brackets and commas only between angle
brackets or in directives. -/
def isTagChar (wide : Bool) (d : Char) : Bool :=
  isNameChar d || ";/?:@&=+$.!~*'()".toList.contains d || (wide && ",[]".toList.contains d)

/-- The bytes of a row of percent escapes, and what follows. -/
def percentBytes (fuel : Nat) (c : Cursor) : Option (List UInt8 × Cursor) :=
  match fuel, c.ahead with
  | 0, _ => some ([], c)
  | fuel + 1, '%' :: a :: b :: _ => do
      let value := (← Text.hexValue? a) * 16 + (← Text.hexValue? b)
      let (bytes, c) ← percentBytes fuel (c.skip 3)
      return (UInt8.ofNat value :: bytes, c)
  | _ + 1, '%' :: _ => none
  | _ + 1, _ => some ([], c)

/-- The characters of a tag text. -/
def tagChars (fuel : Nat) (wide : Bool) (c : Cursor) : Option (List Char × Cursor) :=
  match fuel with
  | 0 => some ([], c)
  | fuel + 1 =>
      match c.next? with
      | none => some ([], c)
      | some d =>
          if d = '%' then do
            let (bytes, c) ← percentBytes c.ahead.length c
            let escaped ← Text.decodeUtf8? bytes
            let (rest, c) ← tagChars fuel wide c
            return (escaped ++ rest, c)
          else if isTagChar wide d then do
            let (rest, c) ← tagChars fuel wide (c.skip 1)
            return (d :: rest, c)
          else some ([], c)

/-- The text of a tag after a front that is known already; it may not be empty. -/
def tagText (wide : Bool) (front : List Char) (c : Cursor) : Option (List Char × Cursor) := do
  let (text, c) ← tagChars (c.ahead.length + 1) wide c
  if front.isEmpty && text.isEmpty then none
  return (front.drop 1 ++ text, c)

/-- The handle of a tag: an exclamation mark, perhaps a name, and perhaps another mark. A directive
asks for the second mark unless the handle is a single one. -/
def tagHandle (directive : Bool) (c : Cursor) : Option (List Char × Cursor) :=
  if !c.nextIs (· == '!') then none
  else
    let (name, c) := (c.skip 1).span isNameChar
    if c.nextIs (· == '!') then some ('!' :: name ++ ['!'], c.skip 1)
    else if directive && !name.isEmpty then none
    else some ('!' :: name, c)

/-- The handle and the text of a tag. -/
def tagParts (c : Cursor) : Option (TagText × Cursor) :=
  match c.ahead with
  | '!' :: '<' :: _ => do
      let (text, c) ← tagText true [] (c.skip 2)
      if !c.nextIs (· == '>') then none
      return (⟨"", String.ofList text⟩, c.skip 1)
  | _ => do
      let (handle, c) ← tagHandle false c
      if 2 ≤ handle.length ∧ handle.getLast? = some '!' then
        let (text, c) ← tagText false [] c
        return (⟨String.ofList handle, String.ofList text⟩, c)
      else
        let (text, c) ← tagText false handle c
        return (if text.isEmpty then ⟨"", "!"⟩ else ⟨"!", String.ofList text⟩, c)

/-- A tag that starts at its mark. -/
def tagToken (flow : Bool) (c : Cursor) : Option (TagText × Cursor) := do
  let (tag, c) ← tagParts c
  if c.gapAt 0 || (flow && c.nextIs (· == ',')) then return (tag, c) else none

/-- A part of a version number. -/
def versionPart (c : Cursor) : Option (Nat × Cursor) :=
  let (digits, c) := c.span Char.isDigit
  if digits.isEmpty ∨ 9 < digits.length then none else some (Decimal.digitsValue digits, c)

/-- The value of a version directive. -/
def versionValue (c : Cursor) : Option (Token × Cursor) := do
  let (major, c) ← versionPart c.skipSpaces
  if !c.nextIs (· == '.') then none
  let (minor, c) ← versionPart (c.skip 1)
  return (.version major minor, c)

/-- The value of a tag directive. -/
def tagPrefixValue (c : Cursor) : Option (Token × Cursor) := do
  let (handle, c) ← tagHandle true c.skipSpaces
  if !c.nextIs isSpace then none
  let (text, c) ← tagText true [] c.skipSpaces
  if !c.gapAt 0 then none
  return (.tagPrefix (String.ofList handle) (String.ofList text), c)

/-- A directive that starts at its percent sign, with the rest of its line. -/
def directive (c : Cursor) : Option (Token × Cursor) := do
  let (name, c) := (c.skip 1).span isNameChar
  if !c.gapAt 0 then none
  let (token, c) ← match String.ofList name with
    | "YAML" => versionValue c
    | "TAG" => tagPrefixValue c
    | _ => none
  return (token, ← c.finishLine)

end Yaml

end ExperimentSuite
