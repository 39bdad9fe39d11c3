/-!
# UTF-8

Decoding bytes into characters. Overlong forms, surrogates and values beyond
the last character are refused, so every accepted byte list is the encoding of
the characters it decodes to.
-/

namespace ExperimentSuite

namespace Text

/-- The payload of a continuation byte. -/
def continuation? (b : UInt8) : Option Nat :=
  if b &&& 0xC0 = 0x80 then some (b &&& 0x3F).toNat else none

/-- A character value, unless it needs fewer bytes or is no character. -/
def charFrom? (least value : Nat) : Option Char :=
  if least ≤ value ∧ value ≤ 0x10FFFF ∧ ¬(0xD800 ≤ value ∧ value ≤ 0xDFFF) then
    some (Char.ofNat value)
  else none

/-- The first character of a byte list and the bytes after it. -/
def decodeFirst? : List UInt8 → Option (Char × List UInt8)
  | [] => none
  | a :: rest =>
      if a < 0x80 then some (Char.ofNat a.toNat, rest)
      else if a < 0xE0 then
        match rest with
        | b :: rest => do
            let b ← continuation? b
            if a < 0xC0 then none
            return (← charFrom? 0x80 ((a.toNat - 0xC0) * 64 + b), rest)
        | _ => none
      else if a < 0xF0 then
        match rest with
        | b :: c :: rest => do
            let b ← continuation? b
            let c ← continuation? c
            return (← charFrom? 0x800 (((a.toNat - 0xE0) * 64 + b) * 64 + c), rest)
        | _ => none
      else if a < 0xF8 then
        match rest with
        | b :: c :: d :: rest => do
            let b ← continuation? b
            let c ← continuation? c
            let d ← continuation? d
            return (← charFrom? 0x10000 ((((a.toNat - 0xF0) * 64 + b) * 64 + c) * 64 + d), rest)
        | _ => none
      else none

/-- Decodes at most `fuel` characters. -/
def decodeFrom? (fuel : Nat) (read : List Char) (bytes : List UInt8) : Option (List Char) :=
  match fuel, bytes with
  | _, [] => some read.reverse
  | 0, _ => none
  | fuel + 1, bytes => do
      let (c, rest) ← decodeFirst? bytes
      decodeFrom? fuel (c :: read) rest

/-- The characters of a byte list. -/
def decodeUtf8? (bytes : List UInt8) : Option (List Char) :=
  decodeFrom? bytes.length [] bytes

end Text

end ExperimentSuite
