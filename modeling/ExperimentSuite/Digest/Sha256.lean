import ExperimentSuite.Json.Printer

/-!
# SHA-256 and the digests of documents

The hash of a byte list: the message is padded to whole blocks of sixteen
big-endian words, every block extends to a schedule of sixty-four words, and
sixty-four rounds mix each schedule into a state of eight words. All arithmetic
is modulo 2^32. The digest of a document is the hash of its compact JSON text.
Keys are in order there, so the order in which fields were written does not
matter.
-/

namespace ExperimentSuite

namespace Sha256

/-- The round constants: the leading fraction bits of the cube roots of the first primes. -/
def roundConstants : List UInt32 :=
  [0x428a2f98, 0x71374491, 0xb5c0fbcf, 0xe9b5dba5, 0x3956c25b, 0x59f111f1, 0x923f82a4, 0xab1c5ed5,
    0xd807aa98, 0x12835b01, 0x243185be, 0x550c7dc3, 0x72be5d74, 0x80deb1fe, 0x9bdc06a7, 0xc19bf174,
    0xe49b69c1, 0xefbe4786, 0x0fc19dc6, 0x240ca1cc, 0x2de92c6f, 0x4a7484aa, 0x5cb0a9dc, 0x76f988da,
    0x983e5152, 0xa831c66d, 0xb00327c8, 0xbf597fc7, 0xc6e00bf3, 0xd5a79147, 0x06ca6351, 0x14292967,
    0x27b70a85, 0x2e1b2138, 0x4d2c6dfc, 0x53380d13, 0x650a7354, 0x766a0abb, 0x81c2c92e, 0x92722c85,
    0xa2bfe8a1, 0xa81a664b, 0xc24b8b70, 0xc76c51a3, 0xd192e819, 0xd6990624, 0xf40e3585, 0x106aa070,
    0x19a4c116, 0x1e376c08, 0x2748774c, 0x34b0bcb5, 0x391c0cb3, 0x4ed8aa4a, 0x5b9cca4f, 0x682e6ff3,
    0x748f82ee, 0x78a5636f, 0x84c87814, 0x8cc70208, 0x90befffa, 0xa4506ceb, 0xbef9a3f7, 0xc67178f2]

/-- The eight words of the chaining state. -/
structure State where
  a : UInt32
  b : UInt32
  c : UInt32
  d : UInt32
  e : UInt32
  f : UInt32
  g : UInt32
  h : UInt32

/-- The state before the first block. -/
def initial : State :=
  ⟨0x6a09e667, 0xbb67ae85, 0x3c6ef372, 0xa54ff53a, 0x510e527f, 0x9b05688c, 0x1f83d9ab, 0x5be0cd19⟩

/-- A word rotated to the right by less than its width. -/
def rotate (x : UInt32) (n : UInt32) : UInt32 :=
  (x >>> n) ||| (x <<< (32 - n))

/-- The next schedule word from the words 2, 7, 15 and 16 places back. -/
def scheduleWord (w2 w7 w15 w16 : UInt32) : UInt32 :=
  let s0 := rotate w15 7 ^^^ rotate w15 18 ^^^ (w15 >>> 3)
  let s1 := rotate w2 17 ^^^ rotate w2 19 ^^^ (w2 >>> 10)
  w16 + s0 + w7 + s1

/-- Extends a schedule by a number of words. -/
def extendSchedule : Nat → Array UInt32 → Array UInt32
  | 0, w => w
  | n + 1, w =>
      let back (k : Nat) : UInt32 := w.getD (w.size - k) 0
      extendSchedule n (w.push (scheduleWord (back 2) (back 7) (back 15) (back 16)))

/-- One round with a constant and a schedule word. -/
def round (s : State) (kw : UInt32 × UInt32) : State :=
  let s1 := rotate s.e 6 ^^^ rotate s.e 11 ^^^ rotate s.e 25
  let choice := (s.e &&& s.f) ^^^ (s.e.complement &&& s.g)
  let t1 := s.h + s1 + choice + kw.1 + kw.2
  let s0 := rotate s.a 2 ^^^ rotate s.a 13 ^^^ rotate s.a 22
  let majority := (s.a &&& s.b) ^^^ (s.a &&& s.c) ^^^ (s.b &&& s.c)
  ⟨t1 + (s0 + majority), s.a, s.b, s.c, s.d + t1, s.e, s.f, s.g⟩

/-- Wordwise sum of two states. -/
def State.add (s t : State) : State :=
  ⟨s.a + t.a, s.b + t.b, s.c + t.c, s.d + t.d, s.e + t.e, s.f + t.f, s.g + t.g, s.h + t.h⟩

/-- Mixes one block of sixteen words into the state. -/
def compress (s : State) (block : List UInt32) : State :=
  let schedule := (extendSchedule 48 block.toArray).toList
  s.add ((roundConstants.zip schedule).foldl round s)

/-- Bytes as big-endian words; fewer than four trailing bytes are dropped. -/
def words : List UInt8 → List UInt32
  | a :: b :: c :: d :: rest =>
      ((a.toUInt32 <<< 24) ||| (b.toUInt32 <<< 16) ||| (c.toUInt32 <<< 8) ||| d.toUInt32)
        :: words rest
  | _ => []

/-- The message length in bits as eight big-endian bytes. -/
def lengthBytes (bytes : Nat) : List UInt8 :=
  (List.range 8).map fun (i : Nat) => UInt8.ofNat (8 * bytes / Nat.pow 256 (7 - i))

/-- A message with its padding: a set bit, zeros up to eight bytes before a block end, and the
length. -/
def pad (message : List UInt8) : List UInt8 :=
  let zeros := (119 - message.length % 64) % 64
  message ++ 0x80 :: (List.replicate zeros 0 ++ lengthBytes message.length)

/-- Mixes a number of blocks into the state. -/
def compressBlocks : Nat → State → List UInt32 → State
  | 0, s, _ => s
  | n + 1, s, ws => compressBlocks n (compress s (ws.take 16)) (ws.drop 16)

/-- The state after a whole message. -/
def hash (message : List UInt8) : State :=
  let ws := words (pad message)
  compressBlocks (ws.length / 16) initial ws

/-- A word as eight hexadecimal digits. -/
def wordHex (x : UInt32) : String :=
  String.ofList ((List.range 8).map fun (i : Nat) =>
    Nat.digitChar (x.toNat / Nat.pow 16 (7 - i) % 16))

/-- A state as sixty-four hexadecimal digits. -/
def State.hex (s : State) : String :=
  String.join ([s.a, s.b, s.c, s.d, s.e, s.f, s.g, s.h].map wordHex)

end Sha256

/-- The digest of a document, with the name of the hash in front. -/
def Document.digest (d : Document) : String :=
  "sha256:" ++ (Sha256.hash d.json.toUTF8.toList).hex

end ExperimentSuite
