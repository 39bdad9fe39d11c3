import ExperimentSuite.Text.Blank
import ExperimentSuite.Text.Mark

/-!
# Quoted text

A text between double quotes in which every character that cannot be seen is
spelled out: by its letter where it has one, else by its code.
-/

namespace ExperimentSuite

namespace Text

/-- Whether a character is for private use. -/
def isPrivate (c : Char) : Bool :=
  let n := c.toNat
  (decide (0xE000 ≤ n) && decide (n ≤ 0xF8FF)) || decide (0xF0000 ≤ n)

/-- Whether a character is a control character. -/
def isControl (c : Char) : Bool :=
  decide (c.toNat < 0x20) || (decide (0x7F ≤ c.toNat) && decide (c.toNat ≤ 0x9F))

/-- Whether a character cannot be seen on its own. -/
def isUnseen (c : Char) : Bool :=
  isControl c || (isBlank c && c != ' ') || isFormat c || isMark c || isPrivate c

/-- A character inside quotes. -/
def quotedChar (c : Char) : List Char :=
  if c = '"' then ['\\', '"']
  else if c = '\\' then ['\\', '\\']
  else if c = '\n' then ['\\', 'n']
  else if c = '\r' then ['\\', 'r']
  else if c = '\t' then ['\\', 't']
  else if c.toNat = 0 then ['\\', '0']
  else if isUnseen c then ['\\', 'u', '\x7b'] ++ Nat.toDigits 16 c.toNat ++ ['\x7d']
  else [c]

/-- A text between double quotes. -/
def quoted (s : String) : String :=
  String.ofList ('"' :: s.toList.flatMap quotedChar ++ ['"'])

end Text

end ExperimentSuite
