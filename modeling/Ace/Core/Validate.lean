import Ace.Core.ItemInput
import Ace.Core.Tree

/-!
# Fact validation

Preflight only reads the state: no ids, signals, rows or indexes change. A thrown error is
`none` where a caller catches it.
-/

namespace Ace

open Script

/-! ### JSON data -/

mutual
/-- Facts must survive JSON snapshots without executable or cyclic data; `none` if a trap
throws. -/
def isFactData : Value → Option Bool
  | .undefined | .null | .bool _ | .num _ | .str _ => some true
  | .arr vs => areFactData vs
  | .obj fs => areFactFields fs
  | .unreadable => none
  | .nonFinite _ | .exotic _ | .foreign _ | .getter _ | .throwingGetter | .circular => some false

def areFactData : List Value → Option Bool
  | [] => some true
  | v :: vs =>
    match isFactData v with
    | some true => areFactData vs
    | other => other

def areFactFields : List (String × Value) → Option Bool
  | [] => some true
  | (_, v) :: fs =>
    match isFactData v with
    | some true => areFactFields fs
    | other => other
end

mutual
/-- Schema defaults may add fields; unknown provider fields must not disappear. -/
def preservesFields : Value → Value → Bool
  | .undefined, _ => true
  | .arr vs, .arr ws => preservesElements vs ws
  | .obj fs, .obj gs => preservesMembers fs gs
  | v, w => v == w

def preservesElements : List Value → List Value → Bool
  | [], _ => true
  | v :: vs, [] => v.isUndefined && preservesElements vs []
  | v :: vs, w :: ws => preservesFields v w && preservesElements vs ws

def preservesMembers : List (String × Value) → List (String × Value) → Bool
  | [], _ => true
  | (k, v) :: fs, gs =>
    (v.isUndefined || match Assoc.get? gs k with
      | some w => preservesFields v w
      | none => false) && preservesMembers fs gs
end

def validData (schema : Schema) (v : Value) : Bool :=
  match schema v with
  | some data => preservesFields v data
  | none => false

/-! ### Relations -/

def optionalString (v : Value) : Bool := v.isUndefined || v.isString

def optionalBoolean (v : Value) : Bool := v.isUndefined || v.isBool

def oneOf (v : Value) (values : List String) : Bool :=
  match v with
  | .str s => values.contains s
  | _ => false

def relationError (state : ThreadState) (agent parent : Key) : Option String :=
  if parent = agent then some "an agent cannot be its own parent"
  else if (state.initialRoot.map (·.agent)) = some agent then
    some "a configured root cannot be re-parented"
  else if state.rootKey = some agent ∧
      (state.agents.get? agent).any (fun record =>
        record.agent.origin == .root && record.agent.fidelity != .placeholder) then
    some "a known root cannot be re-parented"
  else if agent ∈ ancestors state (some parent) then some "agent links cannot create a cycle"
  else none

def descendsFrom (state : ThreadState) (agent : Key) (ancestorId : String) : Bool :=
  (ancestors state (parentOf state agent)).any fun key =>
    (state.agents.get? key).any (·.agent.id == ancestorId)

/-! ### Items -/

def validationAgentId : String := "validation_agent"

def validationItemId : String := "validation_item"

/-- A detail with the native key of its agent replaced by an id. -/
def detailCandidate (draft : Value) : Value :=
  let replaceKey (name idName : String) : Value :=
    let rest := draft.eraseField name
    if (draft.field name).isUndefined then rest
    else .obj (Value.spread rest.fields [(idName, .str validationAgentId)])
  if draft.field "kind" = .str "agent.spawn" then replaceKey "childAgent" "childAgentId"
  else if draft.field "kind" = .str "agent.message" then replaceKey "targetAgent" "targetAgentId"
  else draft

/-- The children that wait for the item `key` to arrive, then the one it already links. -/
def linkedChildren (state : ThreadState) (key : Key) : List Key :=
  let waiting := ((state.indexes.pendingSpawnLinks.get? key).getD .empty).keys.filter fun child =>
    (state.agents.get? child).any (·.spawnedByKey == some key)
  waiting ++ ((state.itemLinks.get? key).bind (·.childAgent)).toList

/-- The first relation that one of `children` would violate under `parent`. -/
def childrenError (state : ThreadState) (children : List Key) (parent : Key) : Option String :=
  children.findSome? fun child => relationError state child parent

/-- The checks of a draft before its candidate is built. -/
def draftError (state : ThreadState) (fact : Value) : Option String :=
  let draft := fact.field "draft"
  let agent := (fact.field "agent").string?.getD ""
  let previous := state.items.get? ((fact.field "item").string?.getD "")
  let owner := (state.agents.get? agent).map (·.agent.id)
  let isTool := Item.isToolCall draft
  let call := draft.field "call"
  let detail := if isTool then call.field "detail" else .undefined
  if !draft.isObject then some "item draft must be an object"
  else if ["id", "agentId", "runId", "createdAt"].any draft.hasOwn then
    some "item identity and creation time belong to core"
  else if previous.any (fun previous => some (Item.agentId previous) ≠ owner) then
    some "item key has a different owner"
  else if isTool && !call.isUndefined && !call.isObject then some "tool draft must be an object"
  else if isTool && ["id", "agentId", "backgroundTaskId"].any call.hasOwn then
    some "tool identities belong to core"
  else if !detail.isUndefined && !detail.isObject then some "tool detail must be an object"
  else if ["childAgentId", "targetAgentId"].any detail.hasOwn then
    some "tool agent references must use native keys"
  else if detail.hasOwn "output" && !optionalString (detail.field "output") then
    some "output summaries belong to core; adapters append output deltas"
  else if detail.field "kind" = .str "agent.spawn" ∧ !(detail.field "childAgent").isUndefined then
    match detail.field "childAgent" with
    | .str child => relationError state child agent
    | _ => some "child agent key must be a string"
  else if detail.field "kind" = .str "agent.message" ∧
      !optionalString (detail.field "targetAgent") then
    some "target agent key must be a string"
  else none

/-- A legacy aggregate that does not continue the stream it belongs to. -/
def outputError (previous : Option Value) (fact : Value) : Bool :=
  let draft := fact.field "draft"
  match (draft.field "call").field "detail" |>.field "output" with
  | .str output =>
    itemDetailKind previous draft == .str "shell" &&
      previous.any (Item.hasDetail · "shell") &&
      fact.field "type" != .str "item.reconciled" &&
      !extendsOutput ((previous.map Item.detail).getD .undefined |>.field "output") output
  | _ => false

/-- Why the draft of an item fact cannot be written; the outer `none` is a thrown error. -/
def itemError (state : ThreadState) (fact : Value) (now : Nat) : Option (Option String) :=
  match draftError state fact with
  | some error => some (some error)
  | none =>
    let draft := fact.field "draft"
    let agent := (fact.field "agent").string?.getD ""
    let key := (fact.field "item").string?.getD ""
    let previous := state.items.get? key
    let owner := (state.agents.get? agent).map (·.agent.id)
    let detail := if Item.isToolCall draft then (draft.field "call").field "detail"
      else .undefined
    if outputError previous fact then
      some (some "legacy output must extend the existing stream")
    else do
      let base : ItemIdentity :=
        { id := (previous.map Item.id).getD validationItemId
          agentId := owner.getD validationAgentId
          createdAt := (previous.map Item.createdAt).getD (.nat now) }
      let input ← itemInput previous base draft now
        (if detail.isUndefined then .undefined else detailCandidate detail)
      match Protocol.item input with
      | none => return some "item draft does not form a valid canonical item"
      | some data =>
        if !preservesFields input data then
          return some "unknown item fields must be retained as raw data"
        else if Item.isToolCall data &&
            (Item.call data).field "kind" != (Item.detail data).field "kind" then
          return some "tool kind contradicts its detail"
        else if Item.hasDetail data "agent.spawn" then
          return childrenError state (linkedChildren state key) agent
        else return none

/-! ### Shapes -/

/-- A nonempty string of at most 512 code units. -/
def isInputId (v : Value) : Bool :=
  match v with
  | .str s => decide (0 < utf16Length s ∧ utf16Length s ≤ 512)
  | _ => false

/-- `number`, a safe nonnegative integer. -/
def isCount (v : Value) : Bool := Schema.accepts Schema.nonnegativeInteger v

/-- Whether the members of a fact have the shape of its type; `none` if a check throws. -/
def shapeValid (state : ThreadState) (fact : Value) (type : String) (now : Nat) : Option Bool :=
  let f (name : String) : Value := fact.field name
  let orAbsent (name : String) (check : Value → Bool) : Bool :=
    (f name).isUndefined || check (f name)
  match type with
  | "agent.external" => some <|
      Schema.accepts Protocol.threadId (f "threadId") &&
      validData Protocol.threadStatus (f "status") &&
      (state.agents.get? ((f "agent").string?.getD "")).any (·.agent.origin == .ace)
  | "agent.seen" => some <|
      Schema.accepts Protocol.agent (.obj (Value.spread fact.fields [
        ("id", .str validationAgentId), ("threadId", .str state.threadId), ("parentId", .null),
        ("status", .obj [("state", .str "starting")]), ("createdAt", .nat now),
        ("background", coalesce (f "background") (.bool false))])) &&
      validData Protocol.nativeRef (f "native")
  | "agent.linked" => some <|
      optionalBoolean (f "background") && optionalString (f "name") && optionalString (f "model")
  | "turn.started" => some <|
      Schema.accepts Protocol.runTrigger (f "trigger") &&
      orAbsent "permissionMode" (Schema.accepts (Schema.nullable Protocol.permissionMode))
  | "turn.ended" => some <|
      oneOf (f "outcome") ["completed", "failed", "interrupted"] &&
      orAbsent "endedBy" (fun v => v == .str "steer" && f "outcome" == .str "interrupted") &&
      orAbsent "historical" Value.isBool &&
      orAbsent "trigger" (Schema.accepts Protocol.runTrigger) &&
      orAbsent "error" (fun error =>
        validData Protocol.agentStatus (.obj [("state", .str "failed"), ("error", error)]))
  | "input.admitted" => some <| isInputId (f "nativeInputId") && orAbsent "commandId" isInputId
  | "input.consumed" => some <|
      match f "nativeInputIds" with
      | .arr ids => decide (ids.length ≤ 64) && ids.all isInputId
      | _ => false
  | "activity" => some <|
      Schema.accepts Protocol.agentActivity (f "activity") && optionalString (f "detail")
  | "subagents.waiting" => some <| Schema.accepts (Schema.array Schema.anyText) (f "targets")
  | "item.reconciled" | "item.upsert" => (itemError state fact now).map Option.isNone
  | "item.delta" => some <| oneOf (f "field") ["text", "reasoning", "output"] &&
      (f "append").isString
  | "interaction.opened" => some <|
      (f "blocking").isBool && validData Protocol.interactionRequest (f "request") &&
      orAbsent "raw" (validData Protocol.raw)
  | "interaction.closed" => some <|
      oneOf (f "state") ["resolved", "cancelled", "expired"] &&
      orAbsent "resolution" (validData Protocol.interactionResolution) &&
      orAbsent "resolvedBy" (Schema.accepts Protocol.deviceId) &&
      orAbsent "autoReviewed" Value.isBool
  | "background.started" => some <|
      Schema.accepts Protocol.backgroundTaskKind (f "kind") &&
      orAbsent "owner" (· == .str "ace") && (f "title").isString && (f "stoppable").isBool &&
      optionalBoolean (f "ambient") && orAbsent "internal" (· == .bool true) &&
      optionalString (f "outputPath") && orAbsent "wakesAgent" (· == .bool false) &&
      orAbsent "raw" (validData Protocol.raw)
  | "background.listening" => some <| Schema.accepts Protocol.listeningPorts (f "ports")
  | "background.ended" => some <|
      oneOf (f "status") ["completed", "failed", "stopped", "unknown"] &&
      optionalBoolean (f "uncertain") &&
      (f "uncertain" != .bool true || f "status" == .str "unknown")
  | "retry" => some <|
      oneOf (f "on") ["rate_limit", "network", "upstream"] &&
      Schema.accepts Protocol.agentStatus
        (.obj (Value.spread fact.fields [("state", .str "blocked"), ("refs", .arr [])]))
  | "wake.expected" => some <| Schema.accepts Protocol.timestamp (f "until")
  | "goal.updated" => some <|
      f "goal" == .null || Schema.accepts Protocol.providerGoal (f "goal")
  | "context.sample" => some <| Schema.accepts Protocol.contextSampled
      (.obj (Value.spread fact.fields [("type", .str "context.sampled"),
        ("agentId", .str validationAgentId)]))
  | "usage" => some <| Schema.accepts Protocol.usageUpdated
      (.obj (Value.spread fact.fields [("type", .str "usage.updated"),
        ("agentId", .str validationAgentId)]))
  | "process.exited" => some <| (f "deliberate").isBool && optionalString (f "message")
  | "queue.changed" => some <|
      isCount (f "count") && orAbsent "source" (oneOf · ["engine", "provider"]) &&
      optionalBoolean (f "held") && orAbsent "held" (fun _ => f "source" != .str "provider") &&
      optionalBoolean (f "stopped") && orAbsent "stopped" (fun _ => f "source" != .str "provider")
  | _ => some true

/-- The members that a fact of each type may have. -/
def allowed : String → Option (List String)
  | "agent.external" => some ["agent", "threadId", "status"]
  | "agent.seen" => some ["agent", "parent", "spawnedBy", "origin", "fidelity", "native", "cwd",
      "name", "role", "model", "background", "machine"]
  | "agent.linked" => some ["agent", "parent", "spawnedBy", "background", "name", "model"]
  | "input.admitted" => some ["agent", "nativeInputId", "commandId"]
  | "input.consumed" => some ["agent", "nativeInputIds"]
  | "turn.started" => some ["agent", "nativeTurnId", "trigger", "permissionMode"]
  | "turn.ended" => some ["agent", "nativeTurnId", "outcome", "endedBy", "trigger", "error",
      "historical"]
  | "activity" => some ["agent", "activity", "detail"]
  | "item.upsert" => some ["agent", "item", "draft"]
  | "item.reconciled" => some ["agent", "item", "draft"]
  | "subagents.waiting" => some ["agent", "item", "targets"]
  | "item.delta" => some ["agent", "item", "field", "append"]
  | "interaction.opened" => some ["agent", "interaction", "blocking", "request", "item", "raw"]
  | "interaction.closed" => some ["interaction", "state", "resolution", "resolvedBy",
      "autoReviewed"]
  | "background.started" => some ["owner", "agent", "task", "kind", "title", "item",
      "childAgent", "ambient", "internal", "stoppable", "outputPath", "wakesAgent", "raw"]
  | "background.listening" => some ["task", "ports"]
  | "background.ended" => some ["task", "status", "uncertain"]
  | "agent.disconnected" => some ["agent"]
  | "agent.reconnected" => some ["agent"]
  | "retry" => some ["agent", "on", "attempt", "until", "message"]
  | "retry.cleared" => some ["agent"]
  | "limit.cleared" => some ["agent"]
  | "wake.expected" => some ["agent", "until"]
  | "goal.updated" => some ["agent", "goal"]
  | "context.sample" => some ["agent", "usedTokens", "windowTokens", "sessionId", "model"]
  | "usage" => some ["agent", "inputTokens", "outputTokens", "cachedInputTokens",
      "contextWindow", "contextTokens", "contextSessionId", "costUsd", "reasoningTokens",
      "cacheWriteTokens", "cacheWrite1hTokens", "model", "accountId", "billingMode",
      "counterMode", "counterKey", "usageScope"]
  | "signal" => some ["agent"]
  | "process.exited" => some ["deliberate", "message"]
  | "process.started" => some []
  | "queue.changed" => some ["count", "source", "held", "stopped"]
  | "tick" => some []
  | _ => none

/-! ### The checks of a fact, in order -/

/-- The keys a fact carries must be strings. -/
def keyError (fact : Value) (type : String) (fields : List String) : Option String :=
  let f (name : String) : Value := fact.field name
  let optionalKeys := ["parent", "spawnedBy", "nativeTurnId", "item", "childAgent"]
  match optionalKeys.find? fun key => fields.contains key && !optionalString (f key) with
  | some key => some (key ++ " must be a string")
  | none =>
    if fields.contains "agent" &&
        !(if type = "signal" then optionalString (f "agent") else (f "agent").isString) then
      some "agent key must be a string"
    else match ["interaction", "task"].find? fun key => fields.contains key && !(f key).isString with
      | some key => some (key ++ " key must be a string")
      | none =>
        if ["item.upsert", "item.reconciled", "item.delta", "subagents.waiting"].contains type &&
            !(f "item").isString then some "item key must be a string"
        else none

/-- The parent and the spawning item that `agent.seen` and `agent.linked` name. -/
def linkError (state : ThreadState) (fact : Value) (type : String) : Option String :=
  let agent := (fact.field "agent").string?.getD ""
  if type ≠ "agent.seen" ∧ type ≠ "agent.linked" then none
  else if type = "agent.seen" ∧ fact.field "origin" = .str "root" ∧
      !(fact.field "parent").isUndefined then some "a root cannot have a parent"
  else
    let parentError := (fact.field "parent").string?.bind (relationError state agent)
    let owner := (fact.field "spawnedBy").string?.bind fun spawnedBy =>
      (state.items.get? spawnedBy).bind fun item =>
        state.indexes.agentKeysById.get? (Item.agentId item)
    parentError.or <| owner.bind fun owner =>
      (relationError state agent owner).or <|
        if !(fact.field "parent").isUndefined ∧ fact.field "parent" ≠ .str owner then
          some "spawn owner contradicts the parent"
        else none

def ownerId (state : ThreadState) (fact : Value) : Option String :=
  (state.agents.get? ((fact.field "agent").string?.getD "")).map (·.agent.id)

def deltaError (state : ThreadState) (fact : Value) (type : String) : Option String :=
  if type ≠ "item.delta" then none
  else match state.items.get? ((fact.field "item").string?.getD "") with
    | none => none
    | some item =>
      let field := fact.field "field"
      if some (Item.agentId item) ≠ ownerId state fact then
        some "item key has a different owner"
      else if (field == .str "output" && Item.hasDetail item "shell") ||
          (field == .str "text" && Item.hasType item "message") ||
          (field != .str "output" &&
            (Item.hasType item "reasoning" || Item.hasType item "notice")) then none
      else some "delta field contradicts its item"

def workLinkError (state : ThreadState) (fact : Value) (type : String) : Option String :=
  if type ≠ "background.started" ∧ type ≠ "interaction.opened" ∧ type ≠ "subagents.waiting" then
    none
  else match fact.field "item" with
    | .str key =>
      match state.items.get? key with
      | some item =>
        if some (Item.agentId item) ≠ ownerId state fact then
          some "referenced item has a different owner"
        else if !Item.isToolCall item then some "work links must reference a tool"
        else none
      | none =>
        if type = "subagents.waiting" then some "wait must reference an existing tool" else none
    | _ => none

/-- A live key belongs to its owner; a running task may be narrowed to a descendant. -/
def liveKeyError (state : ThreadState) (fact : Value) (type : String) : Option String :=
  let agent := (fact.field "agent").string?.getD ""
  let owner := ownerId state fact
  let taken : Bool :=
    if type = "interaction.opened" then
      (state.interactions.get? ((fact.field "interaction").string?.getD "")).any fun current =>
        current.state == .pending && some current.agentId != owner
    else if type = "background.started" then
      (state.tasks.get? ((fact.field "task").string?.getD "")).any fun current =>
        current.status == .running && some current.agentId != owner &&
          !descendsFrom state agent current.agentId
    else false
  if taken then some "live key has a different owner" else none

def resolutionError (state : ThreadState) (fact : Value) (type : String) : Option String :=
  if type ≠ "interaction.closed" ∨ !(fact.field "resolution").isObject then none
  else match state.interactions.get? ((fact.field "interaction").string?.getD "") with
    | some current =>
      if current.request.field "kind" ≠ (fact.field "resolution").field "kind" then
        some "resolution contradicts its request"
      else none
    | none => none

def childError (state : ThreadState) (fact : Value) (type : String) : Option String :=
  if type ≠ "background.started" then none
  else (fact.field "childAgent").string?.bind fun child =>
    relationError state child ((fact.field "agent").string?.getD "")

/-- The checks that read the state, in the order of the source. -/
def contextError (state : ThreadState) (fact : Value) (type : String) : Option String :=
  (linkError state fact type).or <| (deltaError state fact type).or <|
  (workLinkError state fact type).or <| (liveKeyError state fact type).or <|
  (resolutionError state fact type).or (childError state fact type)

/-- A validated fact, or why it is rejected. -/
def validateFact (state : ThreadState) (input : Value) (now : Nat) : Except String Fact :=
  match isFactData input with
  | none => .error "invalid adapter fact data"
  | some false => .error "adapter facts must contain JSON data"
  | some true =>
    match input.isObject, input.field "type" with
    | true, .str type =>
      match allowed type with
      | none => .error "unknown adapter fact"
      | some fields =>
        if input.fields.any fun entry => entry.1 != "type" && !fields.contains entry.1 then
          .error "unrecognized fact fields"
        else match (keyError input type fields).or (contextError state input type) with
          | some error => .error error
          | none =>
            match shapeValid state input type now with
            | none => .error "invalid adapter fact data"
            | some false => .error "invalid adapter fact fields"
            | some true => .ok (Decode.fact type input)
    | _, _ => .error "unknown adapter fact"

end Ace
