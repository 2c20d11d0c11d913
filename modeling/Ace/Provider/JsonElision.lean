import Ace.Script.Pattern
import Ace.Script.Text

/-!
# Elision of heavy JSON strings

`packages/provider-kit/src/elision.ts`. One pass over the bytes of a stream: a string is held until
it has `holdBytes`, then it is elided if it looks binary, and passed on otherwise, up to `textBytes`.
The bytes of a chunk from `from` on are `pending`, and everything emitted is one list. The limits are
numbers of bytes.
-/

namespace Ace.Provider.JsonElision

open Script

def quote : Nat := 34
def backslash : Nat := 92
def lineFeed : Nat := 10
def letterU : Nat := 117

/-- Limits that the constructor admits. -/
structure ElisionLimits where
  holdBytes : Nat
  textBytes : Nat
  hold : 64 ≤ holdBytes
  text : holdBytes ≤ textBytes

inductive Mode where
  | outside
  | holding
  | passing
  | eliding
  | truncating
  deriving DecidableEq

structure JsonElider where
  mode : Mode := .outside
  /-- The first `held` bytes of the buffer. -/
  hold : List Nat := []
  escape : Bool := false
  unicode : Nat := 0
  bytes : Nat := 0
  label : List Char := []
  deriving DecidableEq

/-! ### What looks binary -/

def base64Alphabet (byte : Nat) : Bool :=
  (units "ABCDEFGHIJKLMNOPQRSTUVWXYZabcdefghijklmnopqrstuvwxyz0123456789+/=-_").contains byte

/-- `[\w.+-]` -/
def nameUnit (u : Nat) : Bool := isWordUnit u || oneOf ".+-" u

/-- `^data:[\w.+-]+\/[\w.+-]+(?:;[\w.+-]+=[\w.+-]+)*;base64$` from the start of a text. -/
def dataHeader : Pattern :=
  .sequence [
    .text (units "data:"), .plus (.unit nameUnit), .text (units "/"), .plus (.unit nameUnit),
    .star (.sequence [.text (units ";"), .plus (.unit nameUnit), .text (units "="),
      .plus (.unit nameUnit)]),
    .text (units ";base64"), .ending]

def isDataHeader (header : List Char) : Bool :=
  !(dataHeader.run { before := none, rest := header.flatMap Utf16.encodeChar }).isEmpty

/-- The label of a full buffer that looks binary. -/
def binaryLabel (hold : List Nat) : Option (List Char) :=
  let comma := hold.idxOf 44
  let header := Text.decode (hold.take comma)
  if hold.take 5 = units "data:" ∧ comma < hold.length ∧ 0 < comma ∧ comma ≤ 256 ∧
      isDataHeader header then
    some header
  else if hold.all base64Alphabet then some "base64 data".toList
  else none

/-! ### The machine -/

namespace JsonElider

def opened (e : JsonElider) : JsonElider :=
  { e with mode := .holding, hold := [], bytes := 0, escape := false, unicode := 0 }

/-- `#track(byte)` -/
def track (e : JsonElider) (byte : Nat) : JsonElider :=
  let e := { e with bytes := e.bytes + 1 }
  if e.unicode ≠ 0 then { e with unicode := e.unicode - 1 }
  else if e.escape then
    { e with escape := false, unicode := if byte = letterU then 4 else e.unicode }
  else if byte = backslash then { e with escape := true }
  else e

def elidedText (bytes : Nat) (label : List Char) : List Char :=
  "[ace: ".toList ++ Nat.toDigits 10 bytes ++ " bytes of ".toList ++ label ++ " elided]".toList

def truncatedText (bytes : Nat) : List Char :=
  "[ace: ".toList ++ Nat.toDigits 10 bytes ++ " more bytes truncated]".toList

/-- What `#close()` emits. -/
def closing (limits : ElisionLimits) (e : JsonElider) : List Nat :=
  match e.mode with
  | .holding => e.hold
  | .eliding => Text.encode (elidedText e.bytes e.label)
  | .truncating => Text.encode (truncatedText (e.bytes - limits.textBytes))
  | .outside | .passing => []

def closed (e : JsonElider) : JsonElider := { e with hold := [], mode := .outside }

end JsonElider

/-- In the middle of a chunk: the bytes from `from` on, and what was emitted. -/
structure Scan where
  elider : JsonElider
  pending : List Nat := []
  out : List Nat := []

/-- A byte ends an open string. -/
def closes (e : JsonElider) (byte : Nat) : Bool :=
  byte = lineFeed || (byte = quote && !e.escape && e.unicode = 0)

/-- A passing string is cut before a byte: only between whole characters and escapes. -/
def cuts (limits : ElisionLimits) (e : JsonElider) (byte : Nat) : Bool :=
  e.mode = .passing && limits.textBytes ≤ e.bytes && !e.escape && e.unicode = 0 &&
    (byte < 0x80 || 0xC0 ≤ byte)

/-- A byte of an open string that does not end it. -/
def content (limits : ElisionLimits) (s : Scan) (byte : Nat) : Scan :=
  let s :=
    if cuts limits s.elider byte then
      { s with elider := { s.elider with mode := .truncating }, out := s.out ++ s.pending }
    else s
  let e := s.elider.track byte
  if e.mode ≠ .holding then { s with elider := e, pending := s.pending ++ [byte] }
  else
    let e := { e with hold := e.hold ++ [byte] }
    if e.hold.length < limits.holdBytes then
      { s with elider := e, pending := s.pending ++ [byte] }
    else
      match binaryLabel e.hold with
      | some label =>
        { s with elider := { e with label, mode := .eliding }, pending := s.pending ++ [byte] }
      | none =>
        { elider := { e with hold := [], mode := .passing }, pending := []
          out := s.out ++ e.hold }

/-- One turn of the loop of `push`. -/
def scanByte (limits : ElisionLimits) (s : Scan) (byte : Nat) : Scan :=
  if s.elider.mode = .outside then
    if byte ≠ quote then { s with pending := s.pending ++ [byte] }
    else { elider := s.elider.opened, pending := [], out := s.out ++ (s.pending ++ [byte]) }
  else if closes s.elider byte then
    -- a passing string is still part of the pending range
    let pending := if s.elider.mode ≠ .passing then [] else s.pending
    { elider := s.elider.closed, pending := pending ++ [byte]
      out := s.out ++ s.elider.closing limits }
  else content limits s byte

/-- The pending range counts outside of strings and in one that is passed on. -/
def live (e : JsonElider) (pending : List Nat) : List Nat :=
  if e.mode = .outside ∨ e.mode = .passing then pending else []

/-- `push(chunk)`: the elider after it, and what it emits. -/
def push (limits : ElisionLimits) (e : JsonElider) (chunk : List Nat) : JsonElider × List Nat :=
  let s := chunk.foldl (scanByte limits) { elider := e }
  (s.elider, s.out ++ live s.elider s.pending)

/-- What `end()` emits. -/
def finish (limits : ElisionLimits) (e : JsonElider) : List Nat :=
  if e.mode ≠ .outside then e.closing limits else []

/-- The output for a stream in chunks. -/
def pushAll (limits : ElisionLimits) (e : JsonElider) : List (List Nat) → List Nat
  | [] => finish limits e
  | chunk :: chunks =>
    let (e, out) := push limits e chunk
    out ++ pushAll limits e chunks

def elide (limits : ElisionLimits) (chunks : List (List Nat)) : List Nat :=
  pushAll limits {} chunks

end Ace.Provider.JsonElision
