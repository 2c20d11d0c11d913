import Ace.Script.Base64
import Mathlib.Data.Int.Bitwise

/-!
# Decoding wire chunks

`decodeBase64`: with the platform's decoder where it has one, else in the script. A thrown
`ClientError("protocol")` is `none`.
-/

namespace Ace.Client

open Script Script.Base64

/-- The six bits of a letter, or `-1`. -/
def digit (code : Nat) : ℤ :=
  if 65 ≤ code ∧ code ≤ 90 then code - 65
  else if 97 ≤ code ∧ code ≤ 122 then code - 71
  else if 48 ≤ code ∧ code ≤ 57 then code + 4
  else if code = 43 then 62
  else if code = 47 then 63
  else -1

/-- What a `Uint8Array` stores of a number. -/
def toByte (n : ℤ) : Nat := (n % 256).toNat

/-- `text.endsWith("==") ? 2 : text.endsWith("=") ? 1 : 0` -/
def paddingOf (text : CodeUnits) : Nat :=
  if [pad, pad].isSuffixOf text then 2 else if [pad].isSuffixOf text then 1 else 0

/-- The array, and how much of it is written. -/
structure Decoded where
  bytes : Bytes
  index : Nat

/-- `bytes[index++] = n`. A store past the end of the array is dropped. -/
def Decoded.store (d : Decoded) (n : ℤ) : Decoded where
  bytes := d.bytes.set d.index (toByte n)
  index := d.index + 1

/-- `if (index < bytes.length) bytes[index++] = n` -/
def Decoded.storeInside (d : Decoded) (n : ℤ) : Decoded :=
  if d.index < d.bytes.length then d.store n else d

/-- One round: the four letters of a chunk, which may be the last. -/
def decodeChunk (padding : Nat) (last : Bool) (u v w x : Nat) (d : Decoded) : Option Decoded :=
  let a := digit u
  let b := digit v
  let c := digit w
  let e := digit x
  if a < 0 ∨ b < 0 ∨ (c < 0 ∧ ¬ (last ∧ padding = 2 ∧ w = pad)) ∨
      (e < 0 ∧ ¬ (last ∧ padding ≠ 0 ∧ x = pad)) ∨ (last ∧ padding = 2 ∧ Int.land b 15 ≠ 0) ∨
      (last ∧ padding = 1 ∧ Int.land c 3 ≠ 0) then none
  else
    let d := d.store (Int.lor (a <<< (2 : Nat)) (b >>> (4 : Nat)))
    let d := d.storeInside (Int.lor (b <<< (4 : Nat)) (c >>> (2 : Nat)))
    some (d.storeInside (Int.lor (c <<< (6 : Nat)) e))

/-- The rounds over the text. -/
def decodeChunks (padding : Nat) : CodeUnits → Decoded → Option Decoded
  | [], d => some d
  | u :: v :: w :: x :: rest, d =>
    match decodeChunk padding rest.isEmpty u v w x d with
    | none => none
    | some d => decodeChunks padding rest d
  -- The code unit past the end is `NaN`, which is no digit.
  | _, _ => none

def decodeInScript (text : CodeUnits) (length padding : Nat) : Option Bytes :=
  (decodeChunks padding text { bytes := List.replicate length 0, index := 0 }).map (·.bytes)

def decodeBase64 (native : Bool) (text : CodeUnits) (limit : ℤ) : Option Bytes :=
  let padding := paddingOf text
  let length : ℤ := text.length / 4 * 3 - padding
  if text.length % 4 ≠ 0 ∨ limit < length ∨ length < 0 then none
  else if native then
    match fromBase64 text with
    | none => none
    -- The native decoder skips whitespace, which the wire never carries: the length shows it.
    | some bytes => if bytes.length ≠ length then none else some bytes
  else decodeInScript text length.toNat padding

end Ace.Client
