import ExperimentSuite.Decimal.Shortest
import ExperimentSuite.Document.Basic

/-!
# JSON text of documents

Two printers: the compact one, whose text is hashed and quoted in messages, and
the indented one for files. Both write mappings in key order, keep every
character above the control range as it is, and write floats so that they
always show a point or an exponent.
-/

namespace ExperimentSuite

namespace Json

/-- Floats are positional for leading exponents from -5 to 15 and carry a signed exponent
elsewhere. -/
def floatLayout : FloatLayout := ⟨-5, 15, true⟩

/-- A digit of a hexadecimal escape. -/
def hexDigit (n : Nat) : Char :=
  Char.ofNat (if n < 10 then 48 + n else 87 + n)

/-- A character inside a string: quotes, backslashes and control characters are escaped. -/
def escapeChar (c : Char) : List Char :=
  if c = '"' then ['\\', '"']
  else if c = '\\' then ['\\', '\\']
  else if c = '\n' then ['\\', 'n']
  else if c = '\r' then ['\\', 'r']
  else if c = '\t' then ['\\', 't']
  else if c = '\x08' then ['\\', 'b']
  else if c = '\x0c' then ['\\', 'f']
  else if c.toNat < 32 then ['\\', 'u', '0', '0', hexDigit (c.toNat / 16), hexDigit (c.toNat % 16)]
  else [c]

/-- A string in quotes. -/
def quote (s : String) : String :=
  "\"" ++ String.ofList (s.toList.flatMap escapeChar) ++ "\""

/-- The text of a number. -/
def number : Number → String
  | .int n => toString n
  | .float x => floatLayout.text x

mutual

/-- The compact text of a document. -/
def compact : Document → String
  | .null => "null"
  | .bool true => "true"
  | .bool false => "false"
  | .num n => number n
  | .str s => quote s
  | .list items => "[" ++ ",".intercalate (compactItems items) ++ "]"
  | .map fields => "\x7b" ++ ",".intercalate (compactFields fields) ++ "\x7d"

/-- The compact texts of the items of a list. -/
def compactItems : List Document → List String
  | [] => []
  | d :: rest => compact d :: compactItems rest

/-- The compact texts of fields, each a key with its value. -/
def compactFields : List (String × Document) → List String
  | [] => []
  | (key, d) :: rest => (quote key ++ ":" ++ compact d) :: compactFields rest

end

/-- A line break followed by two blanks for every level. -/
def lineBreak (level : Nat) : String :=
  String.ofList ('\n' :: List.replicate (2 * level) ' ')

mutual

/-- The indented text of a document at a nesting level. -/
def indented (level : Nat) : Document → String
  | .list (d :: rest) =>
      "[" ++ ",".intercalate (indentedItems (level + 1) (d :: rest)) ++ lineBreak level ++ "]"
  | .map (field :: rest) =>
      "\x7b" ++ ",".intercalate (indentedFields (level + 1) (field :: rest)) ++ lineBreak level
        ++ "\x7d"
  | d => compact d

/-- The indented items of a list, each on a line of its own. -/
def indentedItems (level : Nat) : List Document → List String
  | [] => []
  | d :: rest => (lineBreak level ++ indented level d) :: indentedItems level rest

/-- The indented fields of a mapping, each on a line of its own. -/
def indentedFields (level : Nat) : List (String × Document) → List String
  | [] => []
  | (key, d) :: rest =>
      (lineBreak level ++ quote key ++ ": " ++ indented level d) :: indentedFields level rest

end

end Json

namespace Document

/-- The compact JSON text of a document. -/
def json (d : Document) : String := Json.compact d

/-- The indented JSON text of a document, two blanks a level. -/
def prettyJson (d : Document) : String := Json.indented 0 d

end Document

end ExperimentSuite
