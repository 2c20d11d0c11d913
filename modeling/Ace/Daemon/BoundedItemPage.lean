import Ace.Daemon.ItemClip
import Ace.Protocol.Item

/-!
# Bounded item pages

A page that never fails on one oversized item: the item is shown without its raw payloads, then
with its long strings cut to fit, and only if neither fits is it left to its summary.
-/

namespace Ace.BoundedItemPage

open Script

inductive Dropped where
  | raw | text | item
  deriving DecidableEq, Repr

def Dropped.name : Dropped → String
  | .raw => "raw"
  | .text => "text"
  | .item => "item"

/-- An item a page left out, in whole or in part. -/
structure OmittedItem where
  itemId : String
  seq : Int
  type : Value
  bytes : Nat
  dropped : Dropped
  /-- For a tool call: its kind and the start of its title. -/
  tool : Option (Value × String)
  deriving DecidableEq

def OmittedItem.value (omitted : OmittedItem) : Value :=
  .obj ([("itemId", .str omitted.itemId), ("seq", .num omitted.seq), ("type", omitted.type),
    ("bytes", .num omitted.bytes), ("dropped", .str omitted.dropped.name)] ++
    match omitted.tool with
    | some (kind, title) => [("kind", kind), ("title", .str title)]
    | none => [])

/-- `Omit<ItemsPage, "seq" | "threadId">` -/
structure StorePage where
  items : List Value
  itemSeqs : Option (Dictionary Int)
  itemsBefore : Option Int

/-- What a bounded page reads from. -/
structure ItemPageSource where
  /-- `none` where it throws `ItemPageCapacityExceeded`. -/
  page (before : Int) (limit : Nat) (byteLimit : Int) : Option StorePage
  newestBefore (before : Int) : Option (Value × Int)
  hasItemBefore (before : Int) : Bool

structure Parts where
  items : List Value
  itemSeqs : Dictionary Int
  omitted : List OmittedItem
  itemsBefore : Option Int
  deriving DecidableEq

structure Page where
  threadId : String
  items : List Value
  itemSeqs : Dictionary Int
  itemsBefore : Option Int
  omitted : Option (List OmittedItem)
  deriving DecidableEq

/-- The envelope bytes every store page reserves for itself. -/
def envelope : Int := 512

/-- The item without its verbatim provider payloads. -/
def withoutRaw (item : Value) : Value :=
  if Item.isToolCall item then Item.setCall item fun call => call.setField "raw" (.arr [])
  else if item.hasOwn "raw" then item.setField "raw" (.arr [])
  else item

def summary (item : Value) (seq : Int) (bytes : Nat) (dropped : Dropped) : OmittedItem where
  itemId := Item.id item
  seq := seq
  type := item.field "type"
  bytes := bytes
  dropped := dropped
  tool :=
    if Item.isToolCall item then
      let title := ((Item.call item).field "title").string?.getD ""
      some ((Item.call item).field "kind", String.ofList (title.toList.take 200))
    else none

section Sizes

variable (numberText : ℚ → List Char)

def entryBytes (value : Value) (id : String) : Int :=
  value.jsonBytes numberText + (Value.str id).jsonBytes numberText + 64

/-- The item cut to the room there is, when it does not fit without its payloads. -/
def clippedFor (item : Value) (room : Int) : Option Value :=
  let slim := withoutRaw item
  if entryBytes numberText slim (Item.id item) ≤ room then none
  else
    ItemClip.clipItem numberText slim
      (room - entryBytes numberText (.str "") (Item.id item) + 2)

/-- What of an oversized item a page shows. -/
def shownFor (item : Value) (room : Int) : Option Value :=
  let slim := withoutRaw item
  (clippedFor numberText item room).or
    (if entryBytes numberText slim (Item.id item) ≤ room then some slim else none)

/-- What of an oversized item a page leaves out. -/
def droppedFor (item : Value) (room : Int) : Dropped :=
  if (clippedFor numberText item room).isSome then .text
  else if (shownFor numberText item room).isSome then .raw
  else .item

/-- The bytes of an oversized item's summary. -/
def markerBytes (item : Value) (seq : Int) : Int :=
  (summary item seq (item.jsonBytes numberText) .item).value.jsonBytes numberText + 1

/-- Newer entries spent part of this page: the next page starts here with the whole budget. -/
def stop (source : ItemPageSource) (before : Int) : Parts where
  items := []
  itemSeqs := .empty
  omitted := []
  itemsBefore := if source.hasItemBefore before then some before else none

/-- `none` where the error of the source is thrown on. -/
def fill (source : ItemPageSource) (full : Int) (limit : Nat) (before budget : Int) :
    Option Parts :=
  if budget < full ∧ budget ≤ envelope then some (stop source before)
  else
    match source.page before limit budget with
    | some page =>
      some
        { items := page.items
          itemSeqs := page.itemSeqs.getD .empty
          omitted := []
          itemsBefore := page.itemsBefore }
    | none =>
      if budget < full then some (stop source before)
      else
        (source.newestBefore before).bind fun (item, seq) =>
          let marker := markerBytes numberText item seq
          let room := budget - envelope - marker
          let shown := shownFor numberText item room
          let omission :=
            summary item seq (item.jsonBytes numberText) (droppedFor numberText item room)
          let used := (shown.map fun shown => entryBytes numberText shown (Item.id item)).getD 0 +
            marker
          let rest :=
            match limit with
            | limit + 2 => fill source full (limit + 1) seq (budget - used)
            | _ => some (stop source seq)
          rest.map fun rest =>
            { items := rest.items ++ shown.toList
              itemSeqs :=
                if shown.isSome then rest.itemSeqs.put (Item.id item) seq else rest.itemSeqs
              omitted := rest.omitted ++ [omission]
              itemsBefore := rest.itemsBefore }

def boundedItemPage (source : ItemPageSource) (threadId : String) (before : Int) (limit : Nat)
    (byteLimit : Int) : Option Page :=
  (fill numberText source byteLimit limit before byteLimit).map fun parts =>
    { threadId
      items := parts.items
      itemSeqs := parts.itemSeqs
      itemsBefore := parts.itemsBefore
      omitted := if parts.omitted.isEmpty then none else some parts.omitted }

end Sizes

end Ace.BoundedItemPage
