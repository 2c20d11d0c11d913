import Ace.Projection.Delta
import Ace.Projection.TextPage

/-!
# Output on its bytes

The output functions of `packages/projection/src/delta.ts` as they run: loops over the bytes of
the encoded text, and a fatal decoder that is not told to keep a byte order mark.
-/

namespace Ace.OutputBytes

open Script

/-- `new TextDecoder("utf-8", { fatal: true }).decode(bytes)` -/
def decode (bytes : List Nat) : Option (List Char) :=
  if Text.encode (Text.decodeBytes bytes {}) = bytes then some (Text.decode bytes) else none

/-- Decode a byte suffix, dropping only an incomplete leading UTF-8 character. -/
def utf8Tail (bytes : List Nat) (limit : Nat) : Option (List Char) :=
  decode ((bytes.drop (bytes.length - limit)).dropWhile Text.isContinuation)

def serializedBytes (byte : Nat) : Nat :=
  if byte = 34 ∨ byte = 92 then 2
  else if byte < 32 then if byte ∈ [8, 9, 10, 12, 13] then 2 else 6
  else Text.characterBytes byte

/-- The loop of `outputTail`, from `start` back. -/
def tailStart (bytes : List Nat) : Nat → Nat → Nat → Nat
  | 0, start, _ => start
  | fuel + 1, start, size =>
    if start = 0 then start
    else
      let next := TextPage.leadEnd bytes start - 1
      let cost := serializedBytes (bytes.getD next 0)
      if 4096 < size + cost then start else tailStart bytes fuel next (size + cost)

def outputTail (text : List Char) : Option (List Char) := do
  let bytes := Text.encode (← utf8Tail (Text.encode text) 4096)
  decode (bytes.drop (tailStart bytes bytes.length bytes.length 0))

/-- The loop of `outputDeltas`: the bytes of each chunk. -/
def chunks (bytes : List Nat) : Nat → Nat → Nat → Nat → List (List Nat)
  | 0, start, _, _ => [bytes.drop start]
  | fuel + 1, start, stop, size =>
    if bytes.length ≤ stop then [bytes.drop start]
    else
      let byte := bytes.getD stop 0
      let cost := serializedBytes byte
      if 4096 < size + cost then
        slice bytes start stop :: chunks bytes fuel stop (stop + Text.characterBytes byte) cost
      else chunks bytes fuel start (stop + Text.characterBytes byte) (size + cost)

/-- Split output at whole characters, budgeting both UTF-8 and JSON bytes. -/
def outputDeltas (text : List Char) : Option (List (List Char)) :=
  let bytes := Text.encode text
  if bytes = [] then some [[]] else (chunks bytes bytes.length 0 0 0).mapM decode

def summarizeOutput (itemId : String) (append : List Char) (previous : Value) : Option Value := do
  let addedBytes := (Text.encode append).length
  let bytes := (previous.field "bytes").nat?.getD 0 + addedBytes
  let prior := ((previous.field "tail").string?.getD "").toList
  let ending := if 4096 ≤ addedBytes then some append
    else (utf8Tail (Text.encode append) 4096).map (prior ++ ·)
  let tail ← outputTail (← ending)
  return .obj [
    ("streamId", .str ((previous.field "streamId").string?.getD (outputStreamId itemId))),
    ("bytes", .nat bytes),
    ("tail", .str (String.ofList tail)),
    ("truncated", .bool (decide ((Text.encode tail).length < bytes)))]

end Ace.OutputBytes
