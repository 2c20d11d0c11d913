import Ace.Protocol.Entities

/-!
# Adapter facts

Adapters translate native frames into facts. A validated fact is decoded here from the
script value that carried it: after validation every member has the shape its decoder
expects, so the fallback of a decoder is never taken.
-/

namespace Ace

open Script

/-- Adapter-owned identity, unique within an entity kind and provider process. -/
abbrev Key := String

structure AgentSeenFact where
  agent : Key
  parent : Option Key := none
  spawnedBy : Option Key := none
  origin : AgentOrigin
  lineage : Option Value := none
  fidelity : AgentFidelity
  native : Value
  cwd : String
  name : Option String := none
  role : Option String := none
  model : Option String := none
  background : Option (Option Bool) := none
  machine : Option Value := none
  deriving DecidableEq

structure AgentLinkedFact where
  agent : Key
  parent : Option Key := none
  spawnedBy : Option Key := none
  background : Option Bool := none
  name : Option String := none
  model : Option String := none
  deriving DecidableEq

/-- An `agent.seen` fact without its parent, spawning item and origin. -/
structure RootAgentInit where
  agent : Key
  lineage : Option Value := none
  fidelity : AgentFidelity
  native : Value
  cwd : String
  name : Option String := none
  role : Option String := none
  model : Option String := none
  background : Option (Option Bool) := none
  machine : Option Value := none
  deriving DecidableEq

structure TurnStartedFact where
  agent : Key
  nativeTurnId : Option String := none
  trigger : RunTrigger
  permissionMode : Option (Option String) := none
  deriving DecidableEq

/-- `completed`, `interrupted` or `failed`. -/
inductive TurnOutcome where
  | completed | interrupted | failed
  deriving DecidableEq, Repr

def TurnOutcome.runState : TurnOutcome → RunState
  | .completed => .completed
  | .interrupted => .interrupted
  | .failed => .failed

structure TurnEndedFact where
  agent : Key
  nativeTurnId : Option String := none
  outcome : TurnOutcome
  endedBy : Option RunEndedBy := none
  trigger : Option RunTrigger := none
  error : Option AgentError := none
  historical : Bool := false
  deriving DecidableEq

structure InteractionOpenedFact where
  agent : Key
  interaction : Key
  blocking : Bool
  request : Value
  item : Option Key := none
  raw : Option Value := none
  deriving DecidableEq

/-- How an interaction can close. -/
inductive ClosedState where
  | resolved | cancelled | expired
  deriving DecidableEq, Repr

def ClosedState.state : ClosedState → InteractionState
  | .resolved => .resolved
  | .cancelled => .cancelled
  | .expired => .expired

structure InteractionClosedFact where
  interaction : Key
  state : ClosedState
  resolution : Option Value := none
  resolvedBy : Option String := none
  autoReviewed : Option Bool := none
  deriving DecidableEq

structure BackgroundStartedFact where
  owner : Option TaskOwner := none
  agent : Key
  task : Key
  kind : TaskKind
  title : String
  item : Option Key := none
  childAgent : Option Key := none
  ambient : Option Bool := none
  internal : Bool := false
  stoppable : Bool
  outputPath : Option String := none
  wakesAgent : Option Bool := none
  raw : Option Value := none
  deriving DecidableEq

/-- How a background task can end. -/
inductive TaskEnd where
  | completed | failed | stopped | unknown
  deriving DecidableEq, Repr

def TaskEnd.status : TaskEnd → TaskStatus
  | .completed => .completed
  | .failed => .failed
  | .stopped => .stopped
  | .unknown => .unknown

inductive RetryReason where
  | rate_limit | network | upstream
  deriving DecidableEq, Repr

def RetryReason.blockedReason : RetryReason → BlockedReason
  | .rate_limit => .rate_limit
  | .network => .network
  | .upstream => .upstream

/-- A retry fact without its agent. -/
structure Retry where
  on : RetryReason
  attempt : Option Nat := none
  until_ : Option Nat := none
  message : Option String := none
  deriving DecidableEq, Repr

inductive QueueSource where
  | engine | provider
  deriving DecidableEq, Repr

inductive Fact where
  | agentExternal (agent : Key) (threadId : String) (status : ThreadStatus)
  | agentSeen (fact : AgentSeenFact)
  | agentLinked (fact : AgentLinkedFact)
  | inputAdmitted (agent : Key) (nativeInputId : String) (commandId : Option String)
  | inputConsumed (agent : Key) (nativeInputIds : List String)
  | turnStarted (fact : TurnStartedFact)
  | turnEnded (fact : TurnEndedFact)
  | subagentsWaiting (agent : Key) (item : Key) (targets : List Key)
  | activity (agent : Key) (activity : AgentActivity) (detail : Option String)
  | itemUpsert (agent : Key) (item : Key) (draft : Value)
  | itemReconciled (agent : Key) (item : Key) (draft : Value)
  | itemDelta (agent : Key) (item : Key) (field : DeltaField) (append : String)
  | interactionOpened (fact : InteractionOpenedFact)
  | interactionClosed (fact : InteractionClosedFact)
  | backgroundStarted (fact : BackgroundStartedFact)
  | backgroundListening (task : Key) (ports : List Nat)
  | backgroundEnded (task : Key) (status : TaskEnd) (uncertain : Bool)
  | retry (agent : Key) (retry : Retry)
  | agentDisconnected (agent : Key)
  | agentReconnected (agent : Key)
  | retryCleared (agent : Key)
  | limitCleared (agent : Key)
  | wakeExpected (agent : Key) (until_ : Nat)
  | goalUpdated (agent : Key)
  | usage (agent : Key) (usage : List (String × Value))
  | contextSample (agent : Key) (sample : List (String × Value))
  | signal (agent : Option Key)
  | processStarted
  | processExited (deliberate : Bool) (message : Option String)
  | queueChanged (count : Nat) (source : Option QueueSource) (held stopped : Bool)
  | tick
  deriving DecidableEq

/-- The agent a fact names, when it has one. -/
def Fact.agent? : Fact → Option Key
  | agentExternal agent .. => some agent
  | agentSeen fact => some fact.agent
  | agentLinked fact => some fact.agent
  | inputAdmitted agent .. => some agent
  | inputConsumed agent _ => some agent
  | turnStarted fact => some fact.agent
  | turnEnded fact => some fact.agent
  | subagentsWaiting agent .. => some agent
  | activity agent .. => some agent
  | itemUpsert agent .. => some agent
  | itemReconciled agent .. => some agent
  | itemDelta agent .. => some agent
  | interactionOpened fact => some fact.agent
  | interactionClosed _ => none
  | backgroundStarted fact => some fact.agent
  | backgroundListening .. => none
  | backgroundEnded .. => none
  | retry agent _ => some agent
  | agentDisconnected agent => some agent
  | agentReconnected agent => some agent
  | retryCleared agent => some agent
  | limitCleared agent => some agent
  | wakeExpected agent _ => some agent
  | goalUpdated agent => some agent
  | usage agent _ => some agent
  | contextSample agent _ => some agent
  | signal agent => agent
  | processStarted => none
  | processExited .. => none
  | queueChanged .. => none
  | tick => none

/-! ### Decoding a validated fact -/

namespace Decode

def text (v : Value) : String := v.string?.getD ""

def nat (v : Value) : Nat := v.nat?.getD 0

def bool (v : Value) : Bool := v.bool?.getD false

/-- A member that may be missing. -/
def present (v : Value) : Option Value := if v.isUndefined then none else some v

def texts (v : Value) : List String := (v.array?.getD []).filterMap Value.string?

def nats (v : Value) : List Nat := (v.array?.getD []).filterMap Value.nat?

def origin (v : Value) : AgentOrigin :=
  match text v with
  | "root" => .root
  | "ace" => .ace
  | _ => .provider_subagent

def fidelity (v : Value) : AgentFidelity :=
  match text v with
  | "full" => .full
  | "summary" => .summary
  | _ => .placeholder

def activity (v : Value) : AgentActivity :=
  match text v with
  | "thinking" => .thinking
  | "responding" => .responding
  | "tool" => .tool
  | "compacting" => .compacting
  | "retrying" => .retrying
  | _ => .starting_turn

def trigger (v : Value) : RunTrigger :=
  match text v with
  | "user" => .user
  | "restart" => .restart
  | "limit_resume" => .limit_resume
  | "spawn" => .spawn
  | "parent_agent" => .parent_agent
  | "background_completion" => .background_completion
  | "subagent_result" => .subagent_result
  | "goal" => .goal
  | "queue" => .queue
  | "schedule" => .schedule
  | _ => .unknown

def outcome (v : Value) : TurnOutcome :=
  match text v with
  | "completed" => .completed
  | "interrupted" => .interrupted
  | _ => .failed

def errorKind (v : Value) : AgentErrorKind :=
  match text v with
  | "provider" => .provider
  | "auth" => .auth
  | "quota" => .quota
  | "network" => .network
  | "process_exit" => .process_exit
  | _ => .unknown

def errorDetails (v : Value) : ProviderErrorDetails where
  code := text (v.field "code")
  provider := text (v.field "provider")
  title := (v.field "title").string?
  detail := (v.field "detail").string?
  model := (v.field "model").string?

def error (v : Value) : AgentError where
  kind := errorKind (v.field "kind")
  message := text (v.field "message")
  code := (v.field "code").string?
  title := (v.field "title").string?
  detail := (v.field "detail").string?
  details := (present (v.field "details")).map errorDetails

def waitingReason (v : Value) : WaitingReason :=
  match text v with
  | "background_task" => .background_task
  | "rate_limit" => .rate_limit
  | "network" => .network
  | "upstream" => .upstream
  | _ => .queue

def threadStatus (v : Value) : ThreadStatus :=
  match text (v.field "state") with
  | "needs_you" => .needs_you (nat (v.field "interactions"))
  | "working" => .working (nat (v.field "agents"))
  | "waiting" => .waiting (waitingReason (v.field "on"))
  | "limited" => .limited (v.field "until").nat?
  | "failed" => .failed
  | "unresponsive" => .unresponsive
  | "done" => .done
  | _ => .new

def deltaField (v : Value) : DeltaField :=
  match text v with
  | "reasoning" => .reasoning
  | "output" => .output
  | _ => .text

def closedState (v : Value) : ClosedState :=
  match text v with
  | "resolved" => .resolved
  | "cancelled" => .cancelled
  | _ => .expired

def taskKind (v : Value) : TaskKind :=
  match text v with
  | "shell" => .shell
  | "monitor" => .monitor
  | "subagent" => .subagent
  | _ => .other

def taskEnd (v : Value) : TaskEnd :=
  match text v with
  | "completed" => .completed
  | "failed" => .failed
  | "stopped" => .stopped
  | _ => .unknown

def retryReason (v : Value) : RetryReason :=
  match text v with
  | "rate_limit" => .rate_limit
  | "network" => .network
  | _ => .upstream

def queueSource (v : Value) : QueueSource :=
  match text v with
  | "provider" => .provider
  | _ => .engine

/-- A member that may be missing or `null`. -/
def nullable {α : Type} (decode : Value → α) (v : Value) : Option (Option α) :=
  match v with
  | .undefined => none
  | .null => some none
  | v => some (some (decode v))

def seen (v : Value) : AgentSeenFact where
  agent := text (v.field "agent")
  parent := (v.field "parent").string?
  spawnedBy := (v.field "spawnedBy").string?
  origin := origin (v.field "origin")
  lineage := present (v.field "lineage")
  fidelity := fidelity (v.field "fidelity")
  native := v.field "native"
  cwd := text (v.field "cwd")
  name := (v.field "name").string?
  role := (v.field "role").string?
  model := (v.field "model").string?
  background := nullable bool (v.field "background")
  machine := present (v.field "machine")

def linked (v : Value) : AgentLinkedFact where
  agent := text (v.field "agent")
  parent := (v.field "parent").string?
  spawnedBy := (v.field "spawnedBy").string?
  background := (v.field "background").bool?
  name := (v.field "name").string?
  model := (v.field "model").string?

def turnStarted (v : Value) : TurnStartedFact where
  agent := text (v.field "agent")
  nativeTurnId := (v.field "nativeTurnId").string?
  trigger := trigger (v.field "trigger")
  permissionMode := nullable text (v.field "permissionMode")

def turnEnded (v : Value) : TurnEndedFact where
  agent := text (v.field "agent")
  nativeTurnId := (v.field "nativeTurnId").string?
  outcome := outcome (v.field "outcome")
  endedBy := (present (v.field "endedBy")).map fun _ => .steer
  trigger := (present (v.field "trigger")).map trigger
  error := (present (v.field "error")).map error
  historical := bool (v.field "historical")

def interactionOpened (v : Value) : InteractionOpenedFact where
  agent := text (v.field "agent")
  interaction := text (v.field "interaction")
  blocking := bool (v.field "blocking")
  request := v.field "request"
  item := (v.field "item").string?
  raw := present (v.field "raw")

def interactionClosed (v : Value) : InteractionClosedFact where
  interaction := text (v.field "interaction")
  state := closedState (v.field "state")
  resolution := present (v.field "resolution")
  resolvedBy := (v.field "resolvedBy").string?
  autoReviewed := (v.field "autoReviewed").bool?

def backgroundStarted (v : Value) : BackgroundStartedFact where
  owner := (present (v.field "owner")).map fun _ => .ace
  agent := text (v.field "agent")
  task := text (v.field "task")
  kind := taskKind (v.field "kind")
  title := text (v.field "title")
  item := (v.field "item").string?
  childAgent := (v.field "childAgent").string?
  ambient := (v.field "ambient").bool?
  internal := bool (v.field "internal")
  stoppable := bool (v.field "stoppable")
  outputPath := (v.field "outputPath").string?
  wakesAgent := (v.field "wakesAgent").bool?
  raw := present (v.field "raw")

def retry (v : Value) : Retry where
  on := retryReason (v.field "on")
  attempt := (v.field "attempt").nat?
  until_ := (v.field "until").nat?
  message := (v.field "message").string?

/-- `const { type, agent, ...rest } = fact`. -/
def rest (v : Value) : List (String × Value) :=
  v.fields.filter fun entry => entry.1 != "type" && entry.1 != "agent"

/-- The fact of a validated value whose `type` is `type`. -/
def fact (type : String) (v : Value) : Fact :=
  let agent := text (v.field "agent")
  match type with
  | "agent.external" =>
    .agentExternal agent (text (v.field "threadId")) (threadStatus (v.field "status"))
  | "agent.seen" => .agentSeen (seen v)
  | "agent.linked" => .agentLinked (linked v)
  | "input.admitted" =>
    .inputAdmitted agent (text (v.field "nativeInputId")) (v.field "commandId").string?
  | "input.consumed" => .inputConsumed agent (texts (v.field "nativeInputIds"))
  | "turn.started" => .turnStarted (turnStarted v)
  | "turn.ended" => .turnEnded (turnEnded v)
  | "subagents.waiting" =>
    .subagentsWaiting agent (text (v.field "item")) (texts (v.field "targets"))
  | "activity" => .activity agent (activity (v.field "activity")) (v.field "detail").string?
  | "item.upsert" => .itemUpsert agent (text (v.field "item")) (v.field "draft")
  | "item.reconciled" => .itemReconciled agent (text (v.field "item")) (v.field "draft")
  | "item.delta" =>
    .itemDelta agent (text (v.field "item")) (deltaField (v.field "field"))
      (text (v.field "append"))
  | "interaction.opened" => .interactionOpened (interactionOpened v)
  | "interaction.closed" => .interactionClosed (interactionClosed v)
  | "background.started" => .backgroundStarted (backgroundStarted v)
  | "background.listening" => .backgroundListening (text (v.field "task")) (nats (v.field "ports"))
  | "background.ended" =>
    .backgroundEnded (text (v.field "task")) (taskEnd (v.field "status"))
      (bool (v.field "uncertain"))
  | "retry" => .retry agent (retry v)
  | "agent.disconnected" => .agentDisconnected agent
  | "agent.reconnected" => .agentReconnected agent
  | "retry.cleared" => .retryCleared agent
  | "limit.cleared" => .limitCleared agent
  | "wake.expected" => .wakeExpected agent (nat (v.field "until"))
  | "goal.updated" => .goalUpdated agent
  | "usage" => .usage agent (rest v)
  | "context.sample" => .contextSample agent (rest v)
  | "signal" => .signal (v.field "agent").string?
  | "process.started" => .processStarted
  | "process.exited" => .processExited (bool (v.field "deliberate")) (v.field "message").string?
  | "queue.changed" =>
    .queueChanged (nat (v.field "count")) ((present (v.field "source")).map queueSource)
      (bool (v.field "held")) (bool (v.field "stopped"))
  | _ => .tick

end Decode

end Ace
