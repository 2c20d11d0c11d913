import Ace.Script.TextCodec

/-!
# Pages of stored text

`packages/projection/src/text-page.ts`: a page of a stored stream ends on a whole character, so
that passing `nextOffset` back reads the following text.
-/

namespace Ace

open Script

/-- Message text is stored as UTF-16LE, shell output as UTF-8. -/
inductive StreamEncoding where
  | utf16le | utf8
  deriving DecidableEq, Repr

namespace TextPage

/-- The code unit at an index of the bytes. -/
def unitAt (bytes : List Nat) (index : Nat) : Nat :=
  bytes.getD index 0 + bytes.getD (index + 1) 0 * 256

/-- One more than the index of the last byte that is no continuation, if there is one. -/
def leadEnd (bytes : List Nat) : Nat → Nat
  | 0 => 0
  | start + 1 =>
    if Text.isContinuation (bytes.getD start 0) then leadEnd bytes start else start + 1

/-- The longest prefix of `bytes` that ends on a whole character. -/
def wholeCharacterLength (bytes : List Nat) : StreamEncoding → Nat
  | .utf16le =>
    let used := bytes.length - bytes.length % 2
    if 2 ≤ used ∧ isHighSurrogate (unitAt bytes (used - 2)) then used - 2 else used
  | .utf8 =>
    match leadEnd bytes bytes.length with
    | 0 => bytes.length
    | start + 1 =>
      if bytes.length < start + Text.characterBytes (bytes.getD start 0) then start
      else bytes.length

/-- Bytes to skip when a read starts inside a character. -/
def partialLead (bytes : List Nat) (offset : Nat) : StreamEncoding → Nat
  | .utf8 => if offset = 0 then 0 else (bytes.takeWhile Text.isContinuation).length
  | .utf16le =>
    let skip := offset % 2
    if offset = 0 then 0
    else if skip + 2 ≤ bytes.length ∧ isLowSurrogate (unitAt bytes skip) then skip + 2
    else skip

/-- `new TextDecoder(encoding, { ignoreBOM: true }).decode(bytes)` -/
def decodeBytes (bytes : List Nat) : StreamEncoding → List Char
  | .utf16le => Utf16.decodeBytes bytes none
  | .utf8 => Text.decodeBytes bytes {}

/-- What the store reads of a stream. -/
structure StoredBytes where
  bytes : List Nat
  eof : Bool

end TextPage

structure TextPage where
  text : List Char
  nextOffset : Nat
  eof : Bool

open TextPage

/-- Decode one page of a stored text stream read from `offset`. -/
def decodeTextPage (page : StoredBytes) (offset : Nat) (encoding : StreamEncoding) : TextPage :=
  let bytes := page.bytes
  let start := min bytes.length (partialLead bytes offset encoding)
  let whole := start + wholeCharacterLength (bytes.drop start) encoding
  -- Without a whole character after an unaligned start, only the skipped bytes are passed.
  let stop := if start < whole then whole
    else if 0 < start ∧ !page.eof then start
    else bytes.length
  { text := decodeBytes ((bytes.take stop).drop start) encoding
    nextOffset := offset + stop
    eof := page.eof && stop == bytes.length }

/-- `readOutputBytes` of `payload-store.ts`, over the bytes of the stream. -/
def readOutputBytes (stream : List Nat) (offset limit : Nat) : StoredBytes :=
  let bytes := (stream.drop offset).take limit
  { bytes, eof := stream.length ≤ offset + bytes.length }

/-- Read pages, the `n`-th of `limits n` bytes, and pass `nextOffset` back until the end. -/
def readPages (stream : List Nat) (encoding : StreamEncoding) (limits : Nat → Nat) :
    Nat → Nat → Nat → Option (List TextPage)
  | 0, _, _ => none
  | fuel + 1, n, offset =>
    let page := decodeTextPage (readOutputBytes stream offset (limits n)) offset encoding
    if page.eof then some [page]
    else (readPages stream encoding limits fuel (n + 1) page.nextOffset).map (page :: ·)

end Ace
