import Mathlib.Data.List.Basic

/-!
# Text as UTF-8

`TextEncoder` and `TextDecoder` over strings of Unicode scalar values. The decoder is the
replacing one of the Encoding standard: an ill-formed byte becomes U+FFFD, and a byte order
mark at the front is dropped.
-/

namespace Script.Text

def encodeChar (c : Char) : List Nat :=
  let n := c.toNat
  if n < 0x80 then [n]
  else if n < 0x800 then [0xC0 + n / 64, 0x80 + n % 64]
  else if n < 0x10000 then [0xE0 + n / 4096, 0x80 + n / 64 % 64, 0x80 + n % 64]
  else [0xF0 + n / 262144, 0x80 + n / 4096 % 64, 0x80 + n / 64 % 64, 0x80 + n % 64]

def encode (cs : List Char) : List Nat := cs.flatMap encodeChar

def byteLength (cs : List Char) : Nat := (encode cs).length

/-- The decoder between two bytes: how many more a character needs, the bounds of the next
one, and the bits read so far. -/
structure Pending where
  needed : Nat := 0
  lower : Nat := 0x80
  upper : Nat := 0xBF
  bits : Nat := 0

def replacement : Char := Char.ofNat 0xFFFD

def byteOrderMark : Char := Char.ofNat 0xFEFF

/-- A byte where a character may start. -/
def startByte (b : Nat) : List Char × Pending :=
  if b < 0x80 then ([Char.ofNat b], {})
  else if 0xC2 ≤ b ∧ b ≤ 0xDF then ([], { needed := 1, bits := b % 32 })
  else if 0xE0 ≤ b ∧ b ≤ 0xEF then
    ([], { needed := 2, bits := b % 16, lower := if b = 0xE0 then 0xA0 else 0x80,
           upper := if b = 0xED then 0x9F else 0xBF })
  else if 0xF0 ≤ b ∧ b ≤ 0xF4 then
    ([], { needed := 3, bits := b % 8, lower := if b = 0xF0 then 0x90 else 0x80,
           upper := if b = 0xF4 then 0x8F else 0xBF })
  else ([replacement], {})

def decodeBytes : List Nat → Pending → List Char
  | [], p => if p.needed = 0 then [] else [replacement]
  | b :: bs, p =>
    if p.needed = 0 then
      let (out, p) := startByte b
      out ++ decodeBytes bs p
    else if p.lower ≤ b ∧ b ≤ p.upper then
      let bits := p.bits * 64 + b % 64
      if p.needed = 1 then Char.ofNat bits :: decodeBytes bs {}
      else decodeBytes bs { needed := p.needed - 1, bits }
    else
      -- The byte that breaks a character is read again as a start.
      let (out, p) := startByte b
      replacement :: out ++ decodeBytes bs p

def dropByteOrderMark : List Char → List Char
  | [] => []
  | c :: cs => if c = byteOrderMark then cs else c :: cs

def decode (bytes : List Nat) : List Char := dropByteOrderMark (decodeBytes bytes {})

example : decode (encode "aé€😀".toList) = "aé€😀".toList := by decide

end Script.Text
