import Ace.Projection.View

/-!
# Scoped delivery

A client's view of one thread, or of the thread list, and the intervals of the host's log
that it applies. Rows and payload members are protocol values, as the host stores them: the
log has entries of every kind, not only those of the reducer. Strings that name a row are
read with their text, a missing one as the empty text.
-/

namespace Ace.Delivery

open Script

/-- The payload of a log entry. A member that is optional is `undefined` when it is absent. -/
inductive Payload where
  | threadCreated (thread : Value)
  | threadUpdated (changes : Value)
  | threadClientUpdated (changes : List (String × Value))
  | workspaceFilesChanged
  | agentCreated (agent : Value)
  | agentStatus (agentId : String) (status : Value)
  | agentUpdated (agentId : String) (changes : List (String × Value))
  | runClientUpdated (runId : String) (checkpoints : Value)
  | runStarted (run : Value)
  | runEnded (runId : String) (state endedBy endedAt error trigger : Value)
  | itemCreated (item : Value)
  | itemUpdated (item : Value)
  | itemDeleted (itemId : String)
  | itemDelta (itemId : String) (field : DeltaField) (append : String)
  | interactionOpened (interaction : Value)
  | interactionClosed (interactionId : String)
      (state closedAt expirationReason resolution resolvedBy autoReviewed : Value)
  | backgroundTaskStarted (task : Value)
  | backgroundTaskUpdated (taskId : String) (status endedAt : Value)
  | contextSampled
  | queueUpdated (queue : List (String × Value))
  | contextMeterUpdated (meter : Value)
  | inputAdmitted (agentId nativeInputId : String) (commandId : Option String)
  | usageUpdated (usage : Value)
  | unknown
  deriving DecidableEq

/-- A log entry as it is delivered; `firstSeq` is the first entry it covers. -/
structure Event where
  seq : Nat
  firstSeq : Option Nat := none
  threadId : String
  at_ : Nat
  payload : Payload
  deriving DecidableEq

def Event.first (event : Event) : Nat := event.firstSeq.getD event.seq

structure ThreadView where
  seq : Nat := 0
  thread : Value
  agents : Dictionary Value := .empty
  agentChildren : Dictionary (List String) := .empty
  runs : Dictionary Value := .empty
  items : Dictionary Value := .empty
  itemOrder : List String := []
  itemsBefore : Value := .null
  interactions : Dictionary Value := .empty
  backgroundTasks : Dictionary Value := .empty
  queue : Option (List (String × Value)) := none
  usage : Dictionary Value := .empty
  contextMeters : Option (Dictionary Value) := some .empty
  usageSnapshots : Dictionary Value := .empty
  deriving DecidableEq

structure ThreadListView where
  seq : Nat := 0
  threads : Dictionary Value := .empty
  deriving DecidableEq

inductive View where
  | thread (view : ThreadView)
  | threads (view : ThreadListView)
  deriving DecidableEq

/-! ### Threads -/

/-- `if (value !== undefined) thread[name] = value`. -/
def setDefined (row : Value) (name : String) (value : Value) : Value :=
  if value.isUndefined then row else row.setField name value

/-- The same, where `null` clears the member. -/
def setOrClear (row : Value) (name : String) (value : Value) : Value :=
  if value = .null then row.eraseField name else setDefined row name value

def Payload.isSidebar : Payload → Bool
  | .queueUpdated _ | .threadCreated _ | .threadUpdated _ | .threadClientUpdated _ => true
  | _ => false

def isSidebarEvent (event : Event) : Bool := event.payload.isSidebar

/-- The members of a `thread.updated` payload, in the order they are assigned. -/
def assignThread (thread changes : Value) (seq : Nat) : Value :=
  let plain (thread : Value) (name : String) : Value := setDefined thread name (changes.field name)
  let copied (thread : Value) (name : String) : Value :=
    setDefined thread name (changes.field name).json
  let thread := copied (plain thread "workspaceId") "permission"
  let thread := plain thread "backend"
  let thread := if changes.field "backend" = .str "cursor-sdk" then thread.eraseField "continuation"
    else thread
  let thread := copied thread "capabilities"
  let thread := copied (plain thread "provider") "lineage"
  let thread := copied (plain thread "delegatedBy") "delegatedFrom"
  let thread := plain thread "startedBy"
  let thread := setOrClear thread "queuedLaunch" (changes.field "queuedLaunch").json
  let thread := copied (copied thread "execution") "switch"
  let thread := plain (plain thread "title") "titleSource"
  let thread := copied (copied thread "effectiveCapabilities") "acpSupport"
  let acp := changes.field "acp"
  let thread := if acp.isUndefined then thread
    else ["acpAgentId", "installationId", "instanceId"].foldl
      (fun thread name => thread.setField name (acp.field name)) thread
  let status := changes.field "status"
  let thread := if status.isUndefined then thread
    else (thread.setField "status" status.json).setField "activitySeq" (.nat seq)
  let thread := setOrClear thread "archivedAt" (changes.field "archivedAt")
  setOrClear thread "goal" (changes.field "goal").json

def updateThread (thread : Value) (event : Event) : Value :=
  let thread := match event.payload with
    | .queueUpdated queue => thread.setField "queue" (.obj queue)
    | .threadClientUpdated changes => changes.foldl (fun thread change =>
        if change.2 = .null then thread.eraseField change.1
        else thread.setField change.1 change.2) thread
    | .threadUpdated changes => assignThread thread changes event.seq
    | .agentCreated agent =>
      if agent.field "origin" = .str "root" then thread.setField "rootAgentId" (agent.field "id")
      else thread
    | _ => thread
  if isSidebarEvent event then thread.setField "updatedAt" (.nat event.at_) else thread

/-! ### The thread list -/

def sidebarEntry (thread : Value) : Value := thread.json.eraseField "rootAgentId"

def foldThreadList (view : ThreadListView) (event : Event) : ThreadListView :=
  let threads := match event.payload with
    | .threadCreated thread => view.threads.put event.threadId (sidebarEntry thread)
    | _ => view.threads
  match threads.get? event.threadId with
  | none => { view with threads }
  | some thread =>
    let thread := if isSidebarEvent event then updateThread thread event else thread
    { view with threads := if (thread.field "deletedAt").isUndefined
        then threads.put event.threadId thread else threads.erase event.threadId }

/-! ### One thread -/

def text (v : Value) : String := v.string?.getD ""

/-- Whether a condition takes a value as true. -/
def isTruthy : Value → Bool
  | .undefined | .null => false
  | .bool b => b
  | .num q => q != 0
  | .nonFinite text => text != "NaN"
  | .str s => s != ""
  | _ => true

/-- The id of a parent that is there. -/
def parent? (v : Value) : Option String := if isTruthy v then v.string? else none

def reparentAgent (agentChildren : Dictionary (List String)) (id : String)
    (oldParent nextParent : Value) : Dictionary (List String) :=
  if oldParent = nextParent then agentChildren
  else
    let left := match parent? oldParent with
      | none => agentChildren
      | some old =>
        let children := ((agentChildren.get? old).getD []).filter (· ≠ id)
        if children.isEmpty then agentChildren.erase old else agentChildren.put old children
    match parent? nextParent with
    | none => left
    | some next => left.put next ((left.get? next).getD [] ++ [id])

/-- An item arrives whole. Creation time is identity, and a refresh of an item that is not
loaded is left out of a partial view. -/
def foldItem (view : ThreadView) (item : Value) (updated : Bool) : ThreadView :=
  let id := text (item.field "id")
  if updated && view.itemsBefore ≠ .null && !view.items.contains id then view
  else
    match view.items.get? id with
    | none => { view with
        itemOrder := view.itemOrder ++ [id]
        items := view.items.put id item.json }
    | some previous => { view with
        items := view.items.put id (item.json.setField "createdAt" (previous.field "createdAt")) }

def usageKey (usage : Value) : String :=
  let member (name fallback : String) : String := (usage.field name).string?.getD fallback
  lengthPrefixed (member "agentId" "") ++ lengthPrefixed (member "usageScope" "agent") ++
    lengthPrefixed (member "counterKey" "") ++ lengthPrefixed (member "model" "")

/-- The effect of a payload on the tables of a thread. -/
def foldTables (view : ThreadView) (event : Event) : ThreadView :=
  match event.payload with
  | .threadCreated thread => { view with
      thread := thread.json.setField "updatedAt" (.nat event.at_) }
  | .threadUpdated _ | .threadClientUpdated _ | .workspaceFilesChanged => view
  | .agentCreated agent =>
    let id := text (agent.field "id")
    let previous := (view.agents.get? id).getD .undefined
    { view with
      agentChildren := reparentAgent view.agentChildren id (previous.field "parentId")
        (agent.field "parentId")
      agents := view.agents.put id agent.json }
  | .agentStatus agentId status => { view with
      agents := view.agents.modify agentId (·.setField "status" status.json) }
  | .agentUpdated agentId changes =>
    match view.agents.get? agentId with
    | none => view
    | some agent =>
      let parentId := (Value.obj changes).field "parentId"
      { view with
        agentChildren := if parentId.isUndefined then view.agentChildren
          else reparentAgent view.agentChildren agentId (agent.field "parentId") parentId
        agents := view.agents.put agentId
          (.obj (Value.spread agent.fields (Value.obj changes).json.fields)) }
  | .runClientUpdated runId checkpoints => { view with
      runs := view.runs.modify runId (·.setField "checkpoints" checkpoints.json) }
  | .runStarted run => { view with runs := view.runs.put (text (run.field "id")) run.json }
  | .runEnded runId state endedBy endedAt error trigger => { view with
      runs := view.runs.modify runId fun run =>
        let run := run.setField "state" state
        let run := if isTruthy endedBy then run.setField "endedBy" endedBy else run
        let run := run.setField "endedAt" endedAt
        let run := if isTruthy error then run.setField "error" error.json else run
        setDefined run "trigger" trigger }
  | .itemCreated item => foldItem view item false
  | .itemUpdated item => foldItem view item true
  | .itemDeleted itemId => { view with
      items := view.items.erase itemId
      itemOrder := view.itemOrder.filter (· ≠ itemId) }
  | .itemDelta itemId field append => { view with
      items := view.items.modify itemId fun item => (applyDelta item field append).getD item }
  | .interactionOpened interaction => { view with
      interactions := view.interactions.put (text (interaction.field "id")) interaction.json }
  | .interactionClosed id state closedAt expirationReason resolution resolvedBy autoReviewed =>
    { view with
      interactions := view.interactions.modify id fun interaction =>
        let interaction := (interaction.setField "state" state).setField "closedAt" closedAt
        let interaction := setDefined interaction "expirationReason" expirationReason
        let interaction := setDefined interaction "resolution" resolution.json
        let interaction := setDefined interaction "resolvedBy" resolvedBy
        setDefined interaction "autoReviewed" autoReviewed }
  | .backgroundTaskStarted task => { view with
      backgroundTasks := view.backgroundTasks.put (text (task.field "id")) task.json }
  | .backgroundTaskUpdated taskId status endedAt => { view with
      backgroundTasks := view.backgroundTasks.modify taskId fun task =>
        setDefined (task.setField "status" status) "endedAt" endedAt }
  | .contextSampled => view
  | .queueUpdated queue => { view with queue := some queue }
  | .contextMeterUpdated meter => { view with
      contextMeters := some ((view.contextMeters.getD .empty).put
        (text (meter.field "agentId")) meter.json) }
  | .inputAdmitted agentId nativeInputId commandId =>
    match commandId.filter (· ≠ "") with
    | none => view
    | some commandId => { view with
        items := view.items.modify ("input:" ++ commandId) fun item =>
          if Item.hasType item "message" ∧ item.field "agentId" = .str agentId then
            item.setField "nativeId" (.str nativeInputId)
          else item }
  | .usageUpdated usage =>
    let scope := usage.field "usageScope"
    if scope = .str "provider_session" ∨ scope = .str "model_session" then
      { view with usageSnapshots := view.usageSnapshots.put (usageKey usage) usage.json }
    else { view with usage := view.usage.put (text (usage.field "agentId")) usage.json }
  | .unknown => view

/-- Whether an event is about the thread of a view. -/
def ThreadView.shows (view : ThreadView) (event : Event) : Bool :=
  view.thread.field "id" == .str event.threadId

/-- An event of another thread throws. -/
def foldEvent (view : ThreadView) (event : Event) : Option ThreadView :=
  if !view.shows event then none
  else some (foldTables { view with thread := updateThread view.thread event } event)

/-! ### Intervals -/

namespace View

def seq : View → Nat
  | thread view => view.seq
  | threads view => view.seq

def withSeq (seq : Nat) : View → View
  | thread view => thread { view with seq }
  | threads view => threads { view with seq }

/-- Whether an event is in the scope of a view. -/
def accepts : View → Event → Bool
  | thread view, event => view.shows event
  | threads _, event => isSidebarEvent event

def fold : View → Event → Option View
  | thread view, event => (foldEvent view event).map thread
  | threads view, event => some (threads (foldThreadList view event))

/-- Fold events in turn; what is left, and whether none of them threw. -/
def foldAll : View → List Event → View × Bool
  | view, [] => (view, true)
  | view, event :: events =>
    match view.fold event with
    | none => (view, false)
    | some next => foldAll next events

end View

/-- An event batch, or a progress frame without events. -/
inductive Message where
  | events (afterSeq throughSeq : Nat) (batch : List Event)
  | progress (afterSeq throughSeq : Nat)
  deriving DecidableEq

namespace Message

def afterSeq : Message → Nat
  | events afterSeq .. => afterSeq
  | progress afterSeq _ => afterSeq

def throughSeq : Message → Nat
  | events _ throughSeq _ => throughSeq
  | progress _ throughSeq => throughSeq

def carried : Message → List Event
  | events _ _ batch => batch
  | progress _ _ => []

end Message

/-- The first event that is out of order, out of the interval or out of scope. -/
def refused (view : View) (throughSeq : Nat) : Nat → List Event → Option ApplyResult
  | _, [] => none
  | last, event :: events =>
    if event.first ≤ last ∨ event.seq < event.first ∨ throughSeq < event.seq then
      some (.gap (last + 1) event.first)
    else if !view.accepts event then some (.gap (last + 1) event.first)
    else refused view throughSeq event.seq events

/-- Apply an interval, all of it or nothing. No result means that an event threw. -/
def applyDelivery (view : View) (message : Message) : View × Option ApplyResult :=
  if message.throughSeq ≤ view.seq then (view, some .ignored)
  else if message.afterSeq ≠ view.seq then (view, some (.gap view.seq message.afterSeq))
  else
    match refused view message.throughSeq message.afterSeq message.carried with
    | some gap => (view, some gap)
    | none =>
      let (folded, returned) := view.foldAll message.carried
      if returned then (folded.withSeq message.throughSeq, some .applied) else (folded, none)

end Ace.Delivery
