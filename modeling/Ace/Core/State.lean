import Ace.Core.Facts
import Ace.Script.Command

/-!
# Thread state

The reducer's tables, and the working state of one fold: the thread state, how many ids
the id source has handed out, and the events emitted so far. Records are reached by key
and read again after every call that can change them, as the source's shared references
would show the change.
-/

namespace Ace

open Script

inductive ProviderKind where
  | claude | codex | opencode | cursor | antigravity | acp | pi
  deriving DecidableEq, Repr

def ProviderKind.text : ProviderKind → String
  | claude => "claude"
  | codex => "codex"
  | opencode => "opencode"
  | cursor => "cursor"
  | antigravity => "antigravity"
  | acp => "acp"
  | pi => "pi"

inductive Liveness where
  | agent | transport
  deriving DecidableEq, Repr

/-- A configuration that `createThreadState` accepts. Silence is an exact rational. -/
structure CoreConfig where
  provider : ProviderKind
  silenceMs : ℚ
  silenceMs_nonneg : 0 ≤ silenceMs
  liveness : Option Liveness := none
  deriving DecidableEq

inductive EntityKind where
  | agent | run | item | interaction | task
  deriving DecidableEq, Repr

/-- The id that the `n`-th request to the source returns, if it asks for a `kind`. -/
abbrev IdSource := EntityKind → Nat → String

structure ApplyContext where
  now : Nat
  ids : IdSource
  /-- Native answer calls the engine owns now. -/
  resolvingInteractions : Option (List String) := none

/-- Rate-limit evidence, kept until it is explicitly cleared. -/
structure Limited where
  until_ : Option Nat := none
  message : Option String := none
  deriving DecidableEq, Repr

structure AgentRecord where
  agent : Agent
  externalStatus : Option ThreadStatus := none
  activeRun : Option String := none
  completionRelevant : Option Bool := none
  lastRun : Option String := none
  nativeRuns : Dictionary String := .empty
  lastOutcomeOrder : Option Nat := none
  lastSuccessfulOutcomeOrder : Option Nat := none
  lastError : Option AgentError := none
  processSettledStatus : Option AgentStatus := none
  activity : AgentActivity
  detail : Option String := none
  lastSignalAt : Nat
  disconnectedAt : Option Nat := none
  limited : Option Limited := none
  retry : Option Retry := none
  wakeUntil : Option Nat := none
  parentKey : Option Key := none
  spawnedByKey : Option Key := none
  deriving DecidableEq

structure LiveIndexes where
  liveTools : Dictionary Unit := .empty
  openText : Dictionary Unit := .empty
  pendingInteractions : Dictionary Unit := .empty
  runningTasks : Dictionary Unit := .empty
  agentKeysById : Dictionary Key := .empty
  childrenByParent : Dictionary (Dictionary Unit) := .empty
  pendingSpawnLinks : Dictionary (Dictionary Unit) := .empty
  pendingItemLinks : Dictionary Unit := .empty
  deriving DecidableEq

structure ProcessExit where
  deliberate : Bool
  message : Option String := none
  unsettled : List Key := []
  deriving DecidableEq

structure ItemLinks where
  childAgent : Option Key := none
  targetAgent : Option Key := none
  waitingFor : Option (List Key) := none
  deriving DecidableEq

/-- A rejected fact that waits for a root to own its notice. -/
structure PendingNotice where
  createdAt : Nat
  text : String
  raw : List Value
  deriving DecidableEq

structure RejectionNotice where
  item : Key
  count : Nat
  deriving DecidableEq

structure RejectionNotices where
  run : String
  notices : Dictionary RejectionNotice
  deriving DecidableEq

structure QueueSources where
  engine : Nat := 0
  provider : Nat := 0
  deriving DecidableEq

structure ThreadState where
  threadId : String
  config : CoreConfig
  rootKey : Option Key := none
  initialRoot : Option RootAgentInit := none
  processExit : Option ProcessExit := none
  lastTransportSignalAt : Option Nat := none
  statusObservedAt : Option Nat := none
  agents : Dictionary AgentRecord := .empty
  runs : Dictionary Run := .empty
  items : Dictionary Value := .empty
  interactions : Dictionary Interaction := .empty
  tasks : Dictionary BackgroundTask := .empty
  uncertainTasks : Dictionary Unit := .empty
  interactionHistory : Dictionary Interaction := .empty
  taskHistory : Dictionary BackgroundTask := .empty
  indexes : LiveIndexes := {}
  outcomeOrder : Nat := 0
  pendingNotices : List PendingNotice := []
  rejectionNotices : Option RejectionNotices := none
  itemLinks : Dictionary ItemLinks := .empty
  queueCount : Nat := 0
  queueSources : QueueSources := {}
  queueHeld : Bool := false
  queueStopped : Bool := false
  hasRun : Bool := false
  status : ThreadStatus := .new
  deriving DecidableEq

def createThreadState (threadId : String) (rootAgent : Option RootAgentInit)
    (config : CoreConfig) : ThreadState :=
  { threadId, config, initialRoot := rootAgent }

/-! ### One fold -/

inductive Fault where
  /-- `throw new Error(message)`. -/
  | error (message : String)
  /-- A schema's `parse` rejected its input. -/
  | invalid (schema : String)
  /-- A property of `undefined` was read. -/
  | typeError
  /-- The model's recursion bound was reached. -/
  | depth
  deriving DecidableEq, Repr

structure Work where
  state : ThreadState
  drawn : Nat := 0
  events : List EventPayload := []
  deriving DecidableEq

abbrev Fold := Command Work Fault

def Work.change (w : Work) (f : ThreadState → ThreadState) : Work := { w with state := f w.state }

def Work.emit (w : Work) (payload : EventPayload) : Work :=
  { w with events := w.events ++ [payload] }

@[simp] theorem Work.change_state (w : Work) (f : ThreadState → ThreadState) :
    (w.change f).state = f w.state := rfl

@[simp] theorem Work.change_events (w : Work) (f : ThreadState → ThreadState) :
    (w.change f).events = w.events := rfl

@[simp] theorem Work.emit_state (w : Work) (payload : EventPayload) :
    (w.emit payload).state = w.state := rfl

@[simp] theorem Work.emit_events (w : Work) (payload : EventPayload) :
    (w.emit payload).events = w.events ++ [payload] := rfl

def getState : Fold ThreadState := do return (← get).state

def changeState (f : ThreadState → ThreadState) : Fold PUnit := modify (·.change f)

/-- Events are snapshots, even when the reducer subsequently changes the state. -/
def emit (payload : EventPayload) : Fold PUnit := modify (·.emit payload)

/-- `Id.parse(ctx.ids.next(kind))`: an id is a nonempty string. -/
def nextId (ctx : ApplyContext) (kind : EntityKind) : Fold String := do
  let w ← get
  set { w with drawn := w.drawn + 1 }
  let id := ctx.ids kind w.drawn
  if id = "" then throw (.invalid "id") else return id

/-- Change the record of a known agent. -/
def changeRecord (key : Key) (f : AgentRecord → AgentRecord) : Fold PUnit :=
  changeState fun state => { state with agents := state.agents.modify key f }

end Ace
