import Ace.Protocol.Schemas

/-!
# Trimmed messages

`packages/projection/src/wire-trim.ts`. A connection that can put them back is not sent the
defaults of items and the capabilities of threads: items leave out members that their schema fills
in, and threads name their provider's capabilities by a key that is sent once.
-/

namespace Ace.WireTrim

open Script

/-! ### Messages -/

/-- Protocol JSON: without undefined members. -/
abbrev Json := { v : Value // v.json = v }

/-- A thread, or a thread of a list. `rest` has the members that no trim reads. -/
structure Thread where
  capabilities : Option Json := none
  capabilitiesRef : Option String := none
  rest : Value
  deriving DecidableEq

inductive View where
  | thread (thread : Thread) (items : List (String × Value)) (rest : Value)
  | threads (threads : List (String × Thread)) (rest : Value)
  deriving DecidableEq

inductive ServerMessage where
  | snapshot (view : View) (rest : Value)
  | threadsPatch (threads : List (String × Thread)) (rest : Value)
  | itemsPage (items : List Value) (rest : Value)
  | itemsWindow (items : List Value) (rest : Value)
  | providerCapabilities (key : String) (capabilities : Json)
  | other (rest : Value)
  deriving DecidableEq

/-! ### The trimmer -/

def itemDefaults : String := "item-defaults"

def providerCapabilities : String := "provider-capabilities"

/-- More distinct capability sets than this on one connection are sent whole. -/
def maxCapabilityKeys : Nat := 64

/-- `if (test(copy[k])) delete copy[k]` -/
def deleteWhen (k : String) (test : Value → Bool) (copy : List (String × Value)) :
    List (String × Value) :=
  if test ((Assoc.get? copy k).getD .undefined) then Assoc.erase k copy else copy

/-- An item without the members that a reader's schema fills back in. -/
def trimItem (item : Value) : Value :=
  .obj (deleteWhen "raw" (· == .arr []) (deleteWhen "synthetic" (· == .bool false)
    (deleteWhen "complete" (· == .bool true) item.fields)))

def mapRecord {α : Type} (record : List (String × α)) (change : α → α) : List (String × α) :=
  record.map fun entry => (entry.1, change entry.2)

/-- The text of a capability set is the set itself: it is JSON. -/
structure WireTrimmer where
  items : Bool
  capabilities : Bool
  keys : List (Json × String) := []
  deriving DecidableEq

namespace WireTrimmer

def new (trims : Option (List String)) : WireTrimmer where
  items := trims.any (·.contains itemDefaults)
  capabilities := trims.any (·.contains providerCapabilities)

/-- A thread that names its capabilities, behind a message that teaches a key that is new. -/
def thread (trimmer : WireTrimmer) (before : List ServerMessage) (thread : Thread) :
    Thread × WireTrimmer × List ServerMessage :=
  match thread.capabilities with
  | none => (thread, trimmer, before)
  | some capabilities =>
    if !trimmer.capabilities then (thread, trimmer, before)
    else match trimmer.keys.lookup capabilities with
      | some key =>
        ({ thread with capabilities := none, capabilitiesRef := some key }, trimmer, before)
      | none =>
        if trimmer.keys.length ≥ maxCapabilityKeys then (thread, trimmer, before)
        else
          let key := "c" ++ toString (trimmer.keys.length + 1)
          ({ thread with capabilities := none, capabilitiesRef := some key },
            { trimmer with keys := trimmer.keys ++ [(capabilities, key)] },
            before ++ [.providerCapabilities key capabilities])

/-- `mapRecord` with `thread`, entry after entry. -/
def threads (trimmer : WireTrimmer) (before : List ServerMessage) :
    List (String × Thread) → List (String × Thread) × WireTrimmer × List ServerMessage
  | [] => ([], trimmer, before)
  | (id, entry) :: record =>
    let (entry, trimmer, before) := trimmer.thread before entry
    let (record, trimmer, before) := trimmer.threads before record
    ((id, entry) :: record, trimmer, before)

def trim (trimmer : WireTrimmer) (message : ServerMessage) :
    ServerMessage × WireTrimmer × List ServerMessage :=
  match message with
  | .snapshot (.thread thread items viewRest) rest =>
    let (thread, next, before) := trimmer.thread [] thread
    (.snapshot (.thread thread (if trimmer.items then mapRecord items trimItem else items) viewRest)
      rest, next, before)
  | .snapshot (.threads threads viewRest) rest =>
    let (threads, next, before) := trimmer.threads [] threads
    (.snapshot (.threads threads viewRest) rest, next, before)
  | .threadsPatch threads rest =>
    let (threads, next, before) := trimmer.threads [] threads
    (.threadsPatch threads rest, next, before)
  | .itemsPage items rest =>
    (if trimmer.items then .itemsPage (items.map trimItem) rest else message, trimmer, [])
  | .itemsWindow items rest =>
    (if trimmer.items then .itemsWindow (items.map trimItem) rest else message, trimmer, [])
  | message => (message, trimmer, [])

/-- A message as the connection receives it, behind any capabilities that it now needs. -/
def outgoing (trimmer : WireTrimmer) (message : ServerMessage) :
    List ServerMessage × WireTrimmer :=
  if !trimmer.items && !trimmer.capabilities then ([message], trimmer)
  else
    let (trimmed, next, before) := trimmer.trim message
    (before ++ [trimmed], next)

/-- All that a connection receives. -/
def sent (trimmer : WireTrimmer) : List ServerMessage → List ServerMessage
  | [] => []
  | message :: messages =>
    let (frames, next) := trimmer.outgoing message
    frames ++ next.sent messages

end WireTrimmer

/-! ### The reader -/

/-- The schemas of what no trim reads, and of capabilities. -/
structure WireSchemas where
  capabilities : Json → Option Json
  thread : Schema
  threadListEntry : Schema
  threadView : Schema
  threadListView : Schema
  snapshot : Schema
  threadsPatch : Schema
  itemsPage : Schema
  itemsWindow : Schema
  other : Schema

namespace WireSchemas

variable (schemas : WireSchemas)

def decodeThread (rest : Schema) (thread : Thread) : Option Thread := do
  let capabilities ← match thread.capabilities with
    | none => some none
    | some capabilities => (schemas.capabilities capabilities).map some
  let capabilitiesRef ← match thread.capabilitiesRef with
    | none => some none
    | some key => if 1 ≤ utf16Length key ∧ utf16Length key ≤ 64 then some (some key) else none
  return { capabilities, capabilitiesRef, rest := ← rest thread.rest.json }

def decodeRecords {α : Type} (decode : α → Option α) : List (String × α) → Option (List (String × α))
  | [] => some []
  | (id, value) :: record => do
    return (id, ← decode value) :: (← decodeRecords decode record)

def decodeItem (item : Value) : Option Value := Protocol.item item.json

/-- `ServerMessage.parse(JSON.parse(JSON.stringify(message)))`, which fills in the defaults of
items. A window must have the creation sequence of each of its items. -/
def decode : ServerMessage → Option ServerMessage
  | .snapshot (.thread thread items viewRest) rest => do
    return .snapshot (.thread (← schemas.decodeThread schemas.thread thread)
      (← decodeRecords decodeItem items) (← schemas.threadView viewRest.json))
      (← schemas.snapshot rest.json)
  | .snapshot (.threads threads viewRest) rest => do
    return .snapshot (.threads
      (← decodeRecords (schemas.decodeThread schemas.threadListEntry) threads)
      (← schemas.threadListView viewRest.json)) (← schemas.snapshot rest.json)
  | .threadsPatch threads rest => do
    return .threadsPatch (← decodeRecords (schemas.decodeThread schemas.threadListEntry) threads)
      (← schemas.threadsPatch rest.json)
  | .itemsPage items rest => do
    return .itemsPage (← items.mapM decodeItem) (← schemas.itemsPage rest.json)
  | .itemsWindow items rest => do
    let items ← items.mapM decodeItem
    let rest ← schemas.itemsWindow rest.json
    if items.all fun item => (rest.field "itemSeqs").hasOwn ((item.field "id").string?.getD "") then
      return .itemsWindow items rest
    else none
  | .providerCapabilities key capabilities =>
    if 1 ≤ utf16Length key ∧ utf16Length key ≤ 64 then
      (schemas.capabilities capabilities).map (.providerCapabilities key)
    else none
  | .other rest => (schemas.other rest.json).map .other

end WireSchemas

/-- `JSON.parse(JSON.stringify(value))` -/
def structuredCopy (value : Json) : Json := ⟨value.1.json, by rw [value.2, value.2]⟩

abbrev WireRestorer := List (String × Json)

namespace WireRestorer

def thread (restorer : WireRestorer) (thread : Thread) : Thread :=
  match thread.capabilitiesRef with
  | none => thread
  | some key =>
    match Assoc.get? restorer key with
    | some capabilities =>
      { thread with capabilitiesRef := none, capabilities := some (structuredCopy capabilities) }
    | none => { thread with capabilitiesRef := none }

/-- The message to hand on, or none for one that only taught a key. -/
def restore (restorer : WireRestorer) (message : ServerMessage) :
    Option ServerMessage × WireRestorer :=
  match message with
  | .providerCapabilities key capabilities => (none, Assoc.put key capabilities restorer)
  | .snapshot (.thread thread items viewRest) rest =>
    (some (.snapshot (.thread (restorer.thread thread) items viewRest) rest), restorer)
  | .snapshot (.threads threads viewRest) rest =>
    (some (.snapshot (.threads (mapRecord threads restorer.thread) viewRest) rest), restorer)
  | .threadsPatch threads rest =>
    (some (.threadsPatch (mapRecord threads restorer.thread) rest), restorer)
  | message => (some message, restorer)

end WireRestorer

/-- What a client hands on of the frames that it receives, none when it cannot read one. -/
def received (schemas : WireSchemas) (restorer : WireRestorer) :
    List ServerMessage → Option (List ServerMessage)
  | [] => some []
  | frame :: frames => do
    let message ← schemas.decode frame
    let (whole, restorer) := restorer.restore message
    return whole.toList ++ (← received schemas restorer frames)

end Ace.WireTrim
