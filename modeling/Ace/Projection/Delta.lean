import Ace.Protocol.Entities
import Ace.Protocol.Item
import Ace.Script.Schema
import Ace.Script.Text

/-!
# Streaming deltas

How a delta extends an item, in the reducer and in a client alike. Slices of encoded text
are taken at whole characters, so they are modelled on the characters; what a decoder adds
is that it drops a byte order mark at the front of every slice it decodes.
-/

namespace Ace

open Script

def serializedBytes (c : Char) : Nat :=
  if c = '"' ∨ c = '\\' then 2
  else if c.toNat < 32 then if c.toNat ∈ [8, 9, 10, 12, 13] then 2 else 6
  else (Text.encodeChar c).length

/-- The longest suffix whose characters cost at most `limit` together. -/
def suffixWithin (cost : Char → Nat) (limit : Nat) (cs : List Char) : List Char :=
  let rec take : List Char → Nat → List Char
    | [], _ => []
    | c :: rest, used => if used + cost c ≤ limit then c :: take rest (used + cost c) else []
  (take cs.reverse 0).reverse

/-- Return the last whole UTF-8 characters within the byte budget. -/
def utf8Tail (cs : List Char) (limit : Nat) : List Char :=
  Text.dropByteOrderMark (suffixWithin (fun c => (Text.encodeChar c).length) limit cs)

def outputTail (cs : List Char) : List Char :=
  Text.dropByteOrderMark (suffixWithin serializedBytes 4096 (utf8Tail cs 4096))

/-- Split output at whole characters, budgeting both UTF-8 and JSON bytes. -/
def outputDeltas (text : String) : List String :=
  let rec split : List Char → List Char → Nat → List (List Char)
    | [], current, _ => [current.reverse]
    | c :: rest, current, size =>
      if size + serializedBytes c > 4096 then
        current.reverse :: split rest [c] (serializedBytes c)
      else split rest (c :: current) (size + serializedBytes c)
  (split text.toList [] 0).map fun chunk => String.ofList (Text.dropByteOrderMark chunk)

def outputStreamId (itemId : String) : String := "output:" ++ itemId

/-- A byte count and the last 4 KiB of a stream. -/
def summarizeOutput (itemId : String) (append : String) (previous : Value) : Value :=
  let added := append.toList
  let addedBytes := Text.byteLength added
  let bytes := (previous.field "bytes").nat?.getD 0 + addedBytes
  let prior := ((previous.field "tail").string?.getD "").toList
  let tail := outputTail (if 4096 ≤ addedBytes then added else prior ++ utf8Tail added 4096)
  .obj [
    ("streamId", .str ((previous.field "streamId").string?.getD (outputStreamId itemId))),
    ("bytes", .nat bytes),
    ("tail", .str (String.ofList tail)),
    ("truncated", .bool (decide (Text.byteLength tail < bytes)))]

/-- Whether a text carries its stream's end, so a delta extends it. -/
def holdsTail (text : String) (source : Value) : Bool :=
  source.isUndefined ||
    (source.field "offset").nat?.getD 0 + utf16Length text * 2 ==
      (source.field "bytes").nat?.getD 0

def appendText (target : Value) (append : String) : Value :=
  let text := (target.field "text").string?.getD ""
  let source := target.field "source"
  let target := if holdsTail text source then target.setField "text" (.str (text ++ append))
    else target
  if source.isUndefined then target
  else target.setField "source" (source.setField "bytes"
    (.nat ((source.field "bytes").nat?.getD 0 + utf16Length append * 2)))

/-- Replace the last text part, or start one. -/
def appendPart (parts : List Value) (append : String) : List Value :=
  match parts.getLast? with
  | some last =>
    if last.field "type" == .str "text" then parts.dropLast ++ [appendText last append]
    else parts ++ [.obj [("type", .str "text"), ("text", .str append)]]
  | none => [.obj [("type", .str "text"), ("text", .str append)]]

/-- Text and reasoning both append to reasoning and notices; messages accept only text. -/
def acceptsDelta (item : Value) (field : DeltaField) : Bool :=
  match field with
  | .output => Item.hasDetail item "shell"
  | .reasoning => Item.hasType item "reasoning" || Item.hasType item "notice"
  | .text => Item.hasType item "reasoning" || Item.hasType item "notice" ||
      Item.hasType item "message"

/-- The item with a delta applied, if the field belongs to it. -/
def applyDelta (item : Value) (field : DeltaField) (append : String) : Option Value :=
  if !acceptsDelta item field then none
  else if field = .output then
    some (Item.setDetail item "output"
      (summarizeOutput (Item.id item) append ((Item.detail item).field "output")))
  else if Item.hasType item "message" then
    some (item.setField "parts" (.arr (appendPart ((item.field "parts").array?.getD []) append)))
  else some (appendText item append)

end Ace
