import Ace.Core.ItemInput
import Ace.Core.Tree

/-!
# Items

Writing items: partial upserts, streamed deltas and reconciled snapshots. An item is
written when it is announced.
-/

namespace Ace

open Script Script.Command

/-- Remember the agent a detail names, and replace its native key by its id. -/
def linkDetail (ctx : ApplyContext) (key : Key) (draft : Value) (name idName : String)
    (link : ItemLinks → Key → ItemLinks) : Fold Value := do
  let detail := draft.eraseField name
  match draft.field name with
  | .str agentKey =>
    let named ← ensureAgent ctx agentKey
    changeState fun state =>
      let links := link ((state.itemLinks.get? key).getD {}) agentKey
      { state with itemLinks := state.itemLinks.put key links }
    return .obj (Value.spread detail.fields [(idName, .str named.agent.id)])
  | _ => return detail

def canonicalDetail (ctx : ApplyContext) (key : Key) (draft : Value) : Fold Value :=
  if draft.field "kind" = .str "agent.spawn" then
    linkDetail ctx key draft "childAgent" "childAgentId"
      fun links agent => { links with childAgent := some agent }
  else if draft.field "kind" = .str "agent.message" then
    linkDetail ctx key draft "targetAgent" "targetAgentId"
      fun links agent => { links with targetAgent := some agent }
  else return draft

def DeltaField.name : DeltaField → String
  | text => "text"
  | reasoning => "reasoning"
  | output => "output"

/-- The events of a delta: output is split into bounded chunks. -/
def deltaEvents (item : Value) (field : DeltaField) (text : String) : List EventPayload :=
  (if field = .output then outputDeltas text else [text]).map
    (.itemDelta (Item.id item) (Item.agentId item) field)

def appendDelta (key : Key) (field : DeltaField) (text : String) : Fold PUnit := do
  match (← getState).items.get? key with
  | none => throw .typeError
  | some item =>
    match applyDelta item field text with
    | none =>
      throw (.error ("delta " ++ field.name ++ " does not apply to " ++
        (item.field "type").string?.getD ""))
    | some next =>
      changeState fun state => { state with items := state.items.put key next }
      (deltaEvents item field text).forM emit

/-- The aggregate output that a draft carries as a plain string. -/
def legacyOutput (previous : Option Value) (patch : Value) : Option String :=
  if itemDetailKind previous patch = .str "shell" then
    ((patch.field "call").field "detail" |>.field "output").string?
  else none

/-- The output summary of a previous shell call. -/
def previousOutput (previous : Option Value) : Value :=
  match previous.filter (Item.hasDetail · "shell") with
  | some previous => (Item.detail previous).field "output"
  | none => .undefined

/-- A legacy aggregate is appended as a delta: the write keeps the summary so far. -/
def keepOutput (previous : Option Value) (item : Value) : Value :=
  if Item.hasDetail item "shell" then
    if (previousOutput previous).isUndefined then Item.eraseOutput item
    else Item.setDetail item "output" (previousOutput previous)
  else item

/-- What a legacy aggregate adds to the bytes already streamed. -/
def legacySuffix (previous : Option Value) (legacy : String) : String :=
  let size := ((previousOutput previous).field "bytes").nat?.getD 0
  String.ofList (Text.decode ((Text.encode legacy.toList).drop size))

/-- Store an item, refresh its index and announce it. -/
def storeItem (key : Key) (item : Value) : Fold PUnit := do
  let known := (← getState).items.contains key
  changeState fun state =>
    refreshItemIndex { state with items := state.items.put key item } key
  emit (if known then .itemUpdated item else .itemCreated item)

/-- A known item keeps its id. -/
def itemIdFor (ctx : ApplyContext) (previous : Option Value) : Fold String :=
  match previous with
  | some previous => pure (Item.id previous)
  | none => nextId ctx .item

/-- The detail of a patch, with the agents it names known. -/
def patchDetail (ctx : ApplyContext) (key : Key) (detail : Value) : Fold Value :=
  if detail.isUndefined then pure .undefined else canonicalDetail ctx key detail

/-- `Item.parse(input)`, where building the candidate may have thrown. -/
def parseItem (input : Option Value) : Fold Value :=
  match input with
  | none => throw .typeError
  | some input =>
    match Protocol.item input with
    | none => throw (.invalid "Item")
    | some item => pure item

/-- Store the item; a legacy aggregate follows as a delta. -/
def storePatched (key : Key) (previous : Option Value) (patch item : Value) : Fold PUnit :=
  match legacyOutput previous patch with
  | none => storeItem key item
  | some legacy => do
    storeItem key (keepOutput previous item)
    appendDelta key .output (legacySuffix previous legacy)

/-- A spawning item links its child to the agent that owns it. -/
def linkSpawn (ctx : ApplyContext) (agentKey key : Key) (previous : Option Value)
    (detail item : Value) : Fold PUnit := do
  let state ← getState
  let child := ((state.itemLinks.get? key).bind (·.childAgent)).filter fun _ =>
    Item.hasDetail item "agent.spawn"
  whenSome child fun child =>
    let explicitSpawn := detail.field "kind" = .str "agent.spawn" ∧
      !(detail.field "childAgent").isUndefined
    -- A refresh of a historical spawning item cannot undo an authoritative reparenting.
    when (previous.isNone ∨ explicitSpawn ∨ parentOf state child = some agentKey) <|
      linkAgent ctx { agent := child, parent := some agentKey, spawnedBy := some key }

def upsertItem (ctx : ApplyContext) (agentKey key : Key) (patch : Value) : Fold Value := do
  let record ← ensureAgent ctx agentKey
  let previous := (← getState).items.get? key
  refuse (previous.any (Item.agentId · ≠ record.agent.id))
    (.error "item key has a different owner")
  let id ← itemIdFor ctx previous
  let base : ItemIdentity :=
    { id
      agentId := record.agent.id
      createdAt := previous.elim (.nat ctx.now) Item.createdAt
      runId := previous.elim record.activeRun Item.runId }
  let detail := if Item.isToolCall patch then (patch.field "call").field "detail" else .undefined
  let detailPatch ← patchDetail ctx key detail
  let item ← parseItem (itemInput previous base patch ctx.now detailPatch)
  storePatched key previous patch item
  linkSpawn ctx agentKey key previous detail item
  return ((← getState).items.get? key).getD item

/-- The item a delta creates when it arrives before its item. -/
def deltaDraft : DeltaField → Value
  | .reasoning => .obj [("type", .str "reasoning"), ("text", .str "")]
  | .output => .obj [("type", .str "tool_call"), ("call", .obj [("kind", .str "shell"),
      ("title", .str "Output"), ("status", .str "running"),
      ("detail", .obj [("kind", .str "shell"), ("command", .str "")])])]
  | .text => .obj [("type", .str "message"), ("role", .str "assistant"), ("parts", .arr [])]

/-- What an agent does while it streams into an item. -/
def streamActivity (item : Value) : Option AgentActivity :=
  if Item.hasType item "reasoning" then some .thinking
  else if Item.isToolCall item then some .tool
  else if Item.hasType item "message" && Item.isAssistant item then some .responding
  else none

/-- Unknown items are materialized, so chunks from partial streams survive. Whether the
statuses may have changed. -/
def appendItem (ctx : ApplyContext) (agent key : Key) (field : DeltaField) (append : String) :
    Fold Bool := do
  let _ ← ensureAgent ctx agent
  let created := !(← getState).items.contains key
  when created do
    let _ ← upsertItem ctx agent key (deltaDraft field)
  let state ← getState
  match state.items.get? key, state.agents.get? agent with
  | some item, some record =>
    refuse (Item.agentId item ≠ record.agent.id) (.error "item key has a different owner")
    appendDelta key field append
    let activity := streamActivity item
    let changed := record.activeRun.isSome ∧ Item.runId item = record.activeRun ∧
      activity.isSome ∧ activity ≠ some record.activity
    when changed <| changeRecord agent fun record =>
      { record with activity := activity.getD record.activity, detail := none }
    return created || changed || record.agent.status.isUnresponsive
  | _, _ => throw .typeError

/-- A snapshot keeps the first raw frame and the newest one. -/
def reconciledRaw (previous call : Value) : Value :=
  match (previous.field "raw").array?.bind List.head?, call.field "raw" with
  | some first, .arr raw =>
    match raw.getLast? with
    | some last => call.setField "raw" (.arr [first, last])
    | none => call
  | _, _ => call

/-- Missing native chunks cannot be inserted into an append-only stream: an aggregate that
does not continue it is left out. -/
def reconciledDetail (previous : Value) (call : Value) : Value :=
  match (call.field "detail").field "output" with
  | .str output =>
    if (call.field "detail").field "kind" = .str "shell" ∧ Item.hasDetail previous "shell" ∧
        !extendsOutput ((Item.detail previous).field "output") output then
      call.setField "detail" ((call.field "detail").eraseField "output")
    else call
  | _ => call

/-- Native snapshots reconcile against canonical state, never against adapter hints. -/
def reconcileItem (ctx : ApplyContext) (agent key : Key) (draft : Value) : Fold Value := do
  match (← getState).items.get? key with
  | none => upsertItem ctx agent key draft
  | some previous =>
    if Item.complete previous ∧ draft.field "complete" = .bool false then return previous
    if !Item.isToolCall draft ∨ !Item.isToolCall previous then upsertItem ctx agent key draft
    else
      let call := reconciledRaw (Item.call previous) (.obj (draft.field "call").fields)
      upsertItem ctx agent key (draft.setField "call" (reconciledDetail previous call))

end Ace
