import Ace.Projection.Delta

/-!
# The client's thread view

How a client folds the event log into its own tables. The view keeps the members that the
reducer's events can change; every row it stores is a structured copy, so members that are
`undefined` are dropped from the script values inside it.
-/

namespace Ace

open Script

structure ThreadView where
  seq : Nat := 0
  threadId : String
  status : ThreadStatus := .new
  activitySeq : Option Nat := none
  updatedAt : Nat := 0
  rootAgentId : Option String := none
  agents : Dictionary Agent := .empty
  agentChildren : Dictionary (List String) := .empty
  runs : Dictionary Run := .empty
  items : Dictionary Value := .empty
  itemOrder : List String := []
  /-- Where the loaded items end; `none` for a view that holds all of them. -/
  itemsBefore : Option Nat := none
  interactions : Dictionary Interaction := .empty
  backgroundTasks : Dictionary BackgroundTask := .empty
  usage : Dictionary (List (String × Value)) := .empty
  usageSnapshots : Dictionary (List (String × Value)) := .empty
  deriving DecidableEq

/-- One entry of the event log, or several that were delivered as one. -/
structure Event where
  seq : Nat
  firstSeq : Option Nat := none
  threadId : String
  at_ : Nat
  payload : EventPayload
  deriving DecidableEq

inductive ApplyResult where
  | applied
  | ignored
  | gap (expected received : Nat)
  deriving DecidableEq

def createThreadView (threadId : String) (status : ThreadStatus) : ThreadView :=
  { threadId, status }

/-! ### Structured copies -/

def Agent.structuredCopy (agent : Agent) : Agent :=
  { agent with
    machine := agent.machine.map Value.json
    lineage := agent.lineage.map Value.json
    native := agent.native.json }

def AgentChanges.structuredCopy (changes : AgentChanges) : AgentChanges :=
  { changes with
    machine := changes.machine.map Value.json
    lineage := changes.lineage.map Value.json
    native := changes.native.map Value.json }

def Interaction.structuredCopy (interaction : Interaction) : Interaction :=
  { interaction with
    request := interaction.request.json
    resolution := interaction.resolution.map Value.json
    raw := interaction.raw.json }

def BackgroundTask.structuredCopy (task : BackgroundTask) : BackgroundTask :=
  { task with raw := task.raw.json }

/-! ### Folding one event -/

def reparentAgent (view : ThreadView) (id : String) (oldParent nextParent : Option String) :
    ThreadView :=
  if oldParent = nextParent then view
  else
    let left := match oldParent with
      | none => view.agentChildren
      | some old =>
        let children := ((view.agentChildren.get? old).getD []).filter (· ≠ id)
        if children.isEmpty then view.agentChildren.erase old
        else view.agentChildren.put old children
    let joined := match nextParent with
      | none => left
      | some next => left.put next ((left.get? next).getD [] ++ [id])
    { view with agentChildren := joined }

def updateThread (view : ThreadView) (event : Event) : ThreadView :=
  match event.payload with
  | .threadUpdated status =>
    { view with status, activitySeq := some event.seq, updatedAt := event.at_ }
  | .agentCreated agent =>
    if agent.origin = .root then { view with rootAgentId := some agent.id } else view
  | _ => view

/-- `${value.length}:${value}`. -/
def lengthPrefixed (value : String) : String := toString (utf16Length value) ++ ":" ++ value

/-- Length prefixes keep opaque ids and model names distinct. -/
def usageSnapshotKey (agentId : String) (usage : List (String × Value)) : String :=
  let member (name fallback : String) : String :=
    ((Value.obj usage).field name).string?.getD fallback
  lengthPrefixed agentId ++ lengthPrefixed (member "usageScope" "agent") ++
    lengthPrefixed (member "counterKey" "") ++ lengthPrefixed (member "model" "")

/-- Creation time is identity: a refresh replaces content but keeps the admitted time. -/
def foldItem (view : ThreadView) (item : Value) (created : Bool) : ThreadView :=
  let id := Item.id item
  if !created && view.itemsBefore.isSome && !view.items.contains id then view
  else
    match view.items.get? id with
    | none => { view with
        itemOrder := view.itemOrder ++ [id]
        items := view.items.put id item.json }
    | some previous => { view with
        items := view.items.put id (item.json.setField "createdAt" (Item.createdAt previous)) }

/-- The effect of an event on the tables. -/
def foldPayload (view : ThreadView) : EventPayload → ThreadView
  | .threadUpdated _ => view
  | .agentCreated agent =>
    let view := reparentAgent view agent.id
      ((view.agents.get? agent.id).bind (·.parentId)) agent.parentId
    { view with agents := view.agents.put agent.id agent.structuredCopy }
  | .agentStatus agentId status _ => { view with
      agents := view.agents.modify agentId fun agent => { agent with status } }
  | .agentUpdated agentId changes =>
    match view.agents.get? agentId with
    | none => view
    | some agent =>
      let view := match changes.parentId with
        | some parentId => reparentAgent view agentId agent.parentId parentId
        | none => view
      { view with agents := view.agents.put agentId (changes.structuredCopy.assign agent) }
  | .runStarted run => { view with runs := view.runs.put run.id run }
  | .runEnded runId state endedBy trigger endedAt => { view with
      runs := view.runs.modify runId fun run => { run with
        state
        endedBy := endedBy.or run.endedBy
        endedAt := some endedAt
        trigger := trigger.getD run.trigger } }
  | .itemCreated item => foldItem view item true
  | .itemUpdated item => foldItem view item false
  | .itemDelta itemId _ field append => { view with
      items := view.items.modify itemId fun item => (applyDelta item field append).getD item }
  | .interactionOpened interaction => { view with
      interactions := view.interactions.put interaction.id interaction.structuredCopy }
  | .interactionClosed id state resolution resolvedBy autoReviewed closedAt => { view with
      interactions := view.interactions.modify id fun interaction => { interaction with
        state
        closedAt := some closedAt
        resolution := (resolution.map Value.json).or interaction.resolution
        resolvedBy := resolvedBy.or interaction.resolvedBy
        autoReviewed := autoReviewed.or interaction.autoReviewed } }
  | .backgroundTaskStarted task => { view with
      backgroundTasks := view.backgroundTasks.put task.id task.structuredCopy }
  | .backgroundTaskUpdated taskId status endedAt => { view with
      backgroundTasks := view.backgroundTasks.modify taskId fun task => { task with
        status
        endedAt := endedAt.or task.endedAt } }
  | .contextSampled .. => view
  | .inputAdmitted agentId nativeInputId commandId =>
    match commandId.filter (· ≠ "") with
    | none => view
    | some commandId => { view with
        items := view.items.modify ("input:" ++ commandId) fun item =>
          if Item.hasType item "message" ∧ Item.agentId item = agentId then
            item.setField "nativeId" (.str nativeInputId)
          else item }
  | .usageUpdated agentId usage =>
    let scope := (Value.obj usage).field "usageScope"
    if scope = .str "provider_session" ∨ scope = .str "model_session" then
      { view with usageSnapshots := view.usageSnapshots.put (usageSnapshotKey agentId usage) usage }
    else { view with usage := view.usage.put agentId usage }

/-- An event in sequence advances the view; an old one is ignored and a later one is a gap. -/
def applyEvent (view : ThreadView) (event : Event) : ThreadView × ApplyResult :=
  let first := event.firstSeq.getD event.seq
  if event.threadId ≠ view.threadId then (view, .gap (view.seq + 1) first)
  else if event.seq ≤ view.seq then (view, .ignored)
  else if first ≠ view.seq + 1 then (view, .gap (view.seq + 1) first)
  else (foldPayload (updateThread { view with seq := event.seq } event) event.payload, .applied)

/-- Fold a numbered log. -/
def foldEvents (view : ThreadView) (events : List Event) : ThreadView :=
  events.foldl (fun view event => (applyEvent view event).1) view

end Ace
