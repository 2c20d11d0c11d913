import Ace.Core.Reduce
import Ace.Script.Ledger

/-!
# What one step of the reducer can do

Every command of the reducer is a chain of a few kinds of step. `TreeStep` has those that
write agents and items, `Step` adds runs, interactions and tasks. A step says what is
written, under which condition, and which events announce it. Invariants of the thread
state are proved against the steps, and hold along every run because the commands are
chains of them.
-/

namespace Ace

open Script

/-! ### Identity -/

/-- The id source has handed out `id` as a `kind`. -/
def Drawn (ids : IdSource) (w : Work) (kind : EntityKind) (id : String) : Prop :=
  ∃ n, n < w.drawn ∧ id = ids kind n

/-- Drawn, and no agent has it. -/
def FreshAgent (ids : IdSource) (w : Work) (id : String) : Prop :=
  Drawn ids w .agent id ∧ ∀ key record, w.state.agents.get? key = some record →
    record.agent.id ≠ id

def FreshItem (ids : IdSource) (w : Work) (id : String) : Prop :=
  Drawn ids w .item id ∧ Ledger.Fresh Item.id w.state.items .empty id

def FreshRun (ids : IdSource) (w : Work) (id : String) : Prop :=
  Drawn ids w .run id ∧ w.state.runs.get? id = none

def FreshInteraction (ids : IdSource) (w : Work) (id : String) : Prop :=
  Drawn ids w .interaction id ∧
    Ledger.Fresh Interaction.id w.state.interactions w.state.interactionHistory id

def FreshTask (ids : IdSource) (w : Work) (id : String) : Prop :=
  Drawn ids w .task id ∧ Ledger.Fresh BackgroundTask.id w.state.tasks w.state.taskHistory id

/-- An item is an object with an id and a creation time. -/
structure IsItem (item : Value) : Prop where
  object : ∃ fields, item = .obj fields
  unique : (Assoc.keys item.fields).Nodup
  id : ∃ id, item.field "id" = .str id
  createdAt : ∃ q, item.field "createdAt" = .num q

/-- A write keeps the identity of the item it replaces; a new item has a fresh id. -/
def KeepsIdentity (ids : IdSource) (w : Work) (key : Key) (item : Value) : Prop :=
  match w.state.items.get? key with
  | some previous =>
    Item.id item = Item.id previous ∧ Item.agentId item = Item.agentId previous ∧
      Item.createdAt item = Item.createdAt previous ∧ Item.runId item = Item.runId previous
  | none => FreshItem ids w (Item.id item)

/-! ### Changes that no invariant reads -/

/-- A change of a record that keeps its agent, its parent and its runs. -/
structure SoftChange (f : AgentRecord → AgentRecord) : Prop where
  agent : ∀ record, (f record).agent = record.agent
  parentKey : ∀ record, (f record).parentKey = record.parentKey
  activeRun : ∀ record, (f record).activeRun = record.activeRun
  nativeRuns : ∀ record, (f record).nativeRuns = record.nativeRuns

def SameKeys (d e : Dictionary Unit) : Prop := ∀ key, e.get? key = d.get? key

/-- A change of the bookkeeping around the tables. -/
structure Passive (s s' : ThreadState) : Prop where
  threadId : s'.threadId = s.threadId
  rootKey : s'.rootKey = s.rootKey
  agents : s'.agents = s.agents
  runs : s'.runs = s.runs
  items : s'.items = s.items
  interactions : s'.interactions = s.interactions
  tasks : s'.tasks = s.tasks
  uncertainTasks : s'.uncertainTasks = s.uncertainTasks
  interactionHistory : s'.interactionHistory = s.interactionHistory
  taskHistory : s'.taskHistory = s.taskHistory
  status : s'.status = s.status
  agentKeysById : s'.indexes.agentKeysById = s.indexes.agentKeysById
  childrenByParent : s'.indexes.childrenByParent = s.indexes.childrenByParent
  liveTools : SameKeys s.indexes.liveTools s'.indexes.liveTools
  openText : SameKeys s.indexes.openText s'.indexes.openText
  pendingInteractions : SameKeys s.indexes.pendingInteractions s'.indexes.pendingInteractions
  runningTasks : SameKeys s.indexes.runningTasks s'.indexes.runningTasks

/-- Events that change no table of a client. -/
def PassiveEvent : EventPayload → Prop
  | .inputAdmitted .. | .contextSampled .. | .usageUpdated .. => True
  | _ => False

/-- An index after `key` was refreshed to `live`. -/
def Refreshed (d e : Dictionary Unit) (key : Key) (live : Bool) : Prop :=
  ∀ k, e.get? k = if k = key then (if live then some () else none) else d.get? k

/-! ### Steps on agents and items -/

def movedRecord (parentKey : Option Key) (clearsSpawn : Bool) (changes : AgentChanges)
    (record : AgentRecord) : AgentRecord :=
  { record with
    spawnedByKey := if clearsSpawn then none else record.spawnedByKey
    parentKey
    agent := changes.assign record.agent }

def moveChanges (parentId : Option String) (clearsSpawn : Bool) : AgentChanges :=
  { parentId := some parentId, spawnedBy := if clearsSpawn then some none else none }

inductive TreeStep (ids : IdSource) : Work → Work → Prop where
  | draw (w : Work) : TreeStep ids w { w with drawn := w.drawn + 1 }
  | passive (w : Work) (s : ThreadState) (same : Passive w.state s) :
      TreeStep ids w { w with state := s }
  | passiveEvent (w : Work) (payload : EventPayload) (passive : PassiveEvent payload) :
      TreeStep ids w (w.emit payload)
  | createAgent (w : Work) (key : Key) (id : String) (now : Nat)
      (unknown : w.state.agents.get? key = none) (fresh : FreshAgent ids w id) :
      TreeStep ids w ((w.change (addAgent · key (placeholder w.state key id now))).emit
        (.agentCreated (placeholder w.state key id now).agent))
  | touch (w : Work) (key : Key) (f : AgentRecord → AgentRecord) (soft : SoftChange f) :
      TreeStep ids w (w.change fun s => { s with agents := s.agents.modify key f })
  | changeAgent (w : Work) (key : Key) (record : AgentRecord) (changes : AgentChanges)
      (known : w.state.agents.get? key = some record) (stays : changes.parentId = none) :
      TreeStep ids w ((w.change fun s => { s with agents := s.agents.modify key fun record =>
        { record with agent := changes.assign record.agent } }).emit
        (.agentUpdated record.agent.id changes))
  | move (w : Work) (key : Key) (record : AgentRecord) (parentKey : Option Key)
      (parentId : Option String) (clearsSpawn : Bool)
      (known : w.state.agents.get? key = some record)
      (parent : parentId = parentKey.bind (agentIdOf w.state))
      (parentKnown : ∀ p, parentKey = some p → (w.state.agents.get? p).isSome)
      (acyclic : ∀ p, parentKey = some p → ¬ Reaches (parentOf w.state) p key)
      (changes : AgentChanges)
      (differing : changes = (moveChanges parentId clearsSpawn).differing record.agent) :
      TreeStep ids w
        { w.change (fun s => refreshAgentIndex
            { s with agents := s.agents.modify key (movedRecord parentKey clearsSpawn changes) }
            key record.agent.parentId) with
          events := w.events ++
            if changes = {} then [] else [.agentUpdated record.agent.id changes] }
  | setRoot (w : Work) (key : Key) (known : (w.state.agents.get? key).isSome) :
      TreeStep ids w (w.change fun s => { s with rootKey := some key })
  | announce (w : Work) (key : Key) (record : AgentRecord)
      (known : w.state.agents.get? key = some record) :
      TreeStep ids w (w.emit (.agentCreated record.agent))
  | setStatus (w : Work) (key : Key) (record : AgentRecord) (status : AgentStatus)
      (relevant : Bool) (known : w.state.agents.get? key = some record) :
      TreeStep ids w ((w.change fun s => { s with agents := s.agents.modify key fun record =>
        { record with
          agent := { record.agent with status }
          completionRelevant := some relevant } }).emit
        (.agentStatus record.agent.id status relevant))
  | threadStatus (w : Work) (status : ThreadStatus) :
      TreeStep ids w ((w.change fun s => { s with status }).emit (.threadUpdated status))
  | writeItem (w : Work) (key : Key) (item : Value) (liveTools openText pendingItemLinks :
      Dictionary Unit) (shape : IsItem item) (identity : KeepsIdentity ids w key item)
      (tools : Refreshed w.state.indexes.liveTools liveTools key (Item.isLiveTool item))
      (texts : Refreshed w.state.indexes.openText openText key (isOpenText item)) :
      TreeStep ids w ((w.change fun s => { s with
        items := s.items.put key item
        indexes := { s.indexes with liveTools, openText, pendingItemLinks } }).emit
        (if w.state.items.contains key then .itemUpdated item else .itemCreated item))
  | deltaItem (w : Work) (key : Key) (item next : Value) (field : DeltaField) (text : String)
      (known : w.state.items.get? key = some item) (applied : applyDelta item field text = some next) :
      TreeStep ids w
        { w.change (fun s => { s with items := s.items.put key next }) with
          events := w.events ++ deltaEvents item field text }

/-! ### Steps on runs, interactions and tasks -/

/-- The record of an agent that starts a run. -/
def StartsRun (run : Run) (f : AgentRecord → AgentRecord) : Prop :=
  ∀ record, (f record).agent = record.agent ∧ (f record).parentKey = record.parentKey ∧
    (f record).activeRun = some run.id ∧
    (f record).nativeRuns = match run.nativeId with
      | none => record.nativeRuns
      | some nativeId => record.nativeRuns.put nativeId run.id

/-- The record of an agent that ends its active run. -/
def EndsRun (f : AgentRecord → AgentRecord) : Prop :=
  ∀ record, (f record).agent = record.agent ∧ (f record).parentKey = record.parentKey ∧
    (f record).activeRun = none ∧ (f record).nativeRuns = record.nativeRuns

/-- A new run belongs to `record`, and its native turn is not known yet. -/
structure NewRun (ids : IdSource) (w : Work) (record : AgentRecord) (run : Run) : Prop where
  fresh : FreshRun ids w run.id
  owner : run.agentId = record.agent.id
  native : ∀ nativeId, run.nativeId = some nativeId → record.nativeRuns.get? nativeId = none

def endedRun (run : Run) (state : RunState) (endedBy : Option RunEndedBy)
    (trigger : Option RunTrigger) (endedAt : Nat) : Run :=
  { run with
    state
    endedBy := endedBy.or run.endedBy
    endedAt := some endedAt
    trigger := trigger.getD run.trigger }

inductive Step (ids : IdSource) : Work → Work → Prop where
  | tree {w w' : Work} (step : TreeStep ids w w') : Step ids w w'
  | startRun (w : Work) (key : Key) (record : AgentRecord) (run : Run)
      (f : AgentRecord → AgentRecord) (known : w.state.agents.get? key = some record)
      (idle : record.activeRun = none) (new : NewRun ids w record run)
      (active : run.state = .active) (starts : StartsRun run f) :
      Step ids w ((w.change fun s => { s with
        runs := s.runs.put run.id run
        agents := s.agents.modify key f
        hasRun := true }).emit (.runStarted run))
  | recordRun (w : Work) (key : Key) (record : AgentRecord) (run : Run)
      (known : w.state.agents.get? key = some record) (new : NewRun ids w record run)
      (state : RunState) (endedBy : Option RunEndedBy) (trigger : Option RunTrigger)
      (endedAt : Nat) (settled : state ≠ .active) :
      Step ids w
        { w.change (fun s => { storeRun s key (endedRun run state endedBy trigger endedAt) with
            hasRun := true }) with
          events := w.events ++
            [.runStarted run, .runEnded run.id state endedBy trigger endedAt] }
  | endRun (w : Work) (key : Key) (record : AgentRecord) (run : Run)
      (f : AgentRecord → AgentRecord) (known : w.state.agents.get? key = some record)
      (active : record.activeRun = some run.id) (stored : w.state.runs.get? run.id = some run)
      (state : RunState) (endedBy : Option RunEndedBy) (trigger : Option RunTrigger)
      (endedAt : Nat) (settled : state ≠ .active) (ends : EndsRun f) :
      Step ids w ((w.change fun s => { s with
        runs := s.runs.put run.id (endedRun run state endedBy trigger endedAt)
        agents := s.agents.modify key f }).emit
        (.runEnded run.id state endedBy trigger endedAt))
  | retrigger (w : Work) (run : Run) (trigger : RunTrigger) (endedAt : Nat)
      (stored : w.state.runs.get? run.id = some run) (settled : run.state ≠ .active)
      (ended : run.endedAt = some endedAt) :
      Step ids w ((w.change fun s => { s with
        runs := s.runs.put run.id { run with trigger } }).emit
        (.runEnded run.id run.state none (some trigger) endedAt))
  | openInteraction (w : Work) (key : Key) (interaction : Interaction)
      (fresh : FreshInteraction ids w interaction.id) (pending : interaction.state = .pending)
      (free : ∀ row, w.state.interactions.get? key = some row → row.state ≠ .pending) :
      Step ids w ((w.change fun s => putInteraction (archiveInteraction s key) key interaction).emit
        (.interactionOpened interaction))
  | closeInteraction (w : Work) (key : Key) (interaction : Interaction)
      (known : w.state.interactions.get? key = some interaction)
      (open_ : interaction.state = .pending) (state : InteractionState)
      (closed : state ≠ .pending) (resolution : Option Value) (resolvedBy : Option String)
      (autoReviewed : Option Bool) (closedAt : Nat) :
      Step ids w ((w.change fun s => putInteraction s key { interaction with
        state
        closedAt := some closedAt
        resolution := resolution.or interaction.resolution
        resolvedBy := resolvedBy.or interaction.resolvedBy
        autoReviewed := autoReviewed.or interaction.autoReviewed }).emit
        (.interactionClosed interaction.id state resolution resolvedBy autoReviewed closedAt))
  | startTask (w : Work) (key : Key) (task : BackgroundTask) (fresh : FreshTask ids w task.id)
      (running : task.status = .running)
      (free : ∀ row, w.state.tasks.get? key = some row → row.status ≠ .running) :
      Step ids w ((w.change fun s => putTask
        { archiveTask s key with uncertainTasks := s.uncertainTasks.erase key } key task).emit
        (.backgroundTaskStarted task))
  | refineTask (w : Work) (key : Key) (task refined : BackgroundTask)
      (known : w.state.tasks.get? key = some task) (running : task.status = .running)
      (id : refined.id = task.id) (still : refined.status = .running) :
      Step ids w ((w.change fun s => { s with tasks := s.tasks.put key refined }).emit
        (.backgroundTaskStarted refined))
  | settleTask (w : Work) (key : Key) (task : BackgroundTask)
      (known : w.state.tasks.get? key = some task) (status : TaskStatus) (endedAt : Nat)
      (settled : status ≠ .running) (unsettled : task.status = .running ∨ task.status = .unknown)
      (uncertainTasks : Dictionary Unit)
      (others : ∀ k, k ≠ key → uncertainTasks.get? k = w.state.uncertainTasks.get? k)
      (marked : (uncertainTasks.get? key).isSome → status = .unknown) :
      Step ids w ((w.change fun s => putTask { s with uncertainTasks } key
        { task with status, endedAt := some endedAt }).emit
        (.backgroundTaskUpdated task.id status (some endedAt)))

abbrev Steps (ids : IdSource) : Work → Work → Prop := Relation.ReflTransGen (Step ids)

abbrev TreeSteps (ids : IdSource) : Work → Work → Prop := Relation.ReflTransGen (TreeStep ids)

theorem TreeSteps.steps {ids : IdSource} {w w' : Work} (h : TreeSteps ids w w') :
    Steps ids w w' := by
  induction h with
  | refl => exact .refl
  | tail _ step ih => exact ih.tail (.tree step)

end Ace
