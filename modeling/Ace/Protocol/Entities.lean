import Ace.Script.Value

/-!
# Protocol entities

The rows the reducer keeps and the events it emits. An optional member is an `Option`;
a member that may also be `null` is an `Option` of an `Option`, with `some none` for
`null`. Items, native references and raw payloads stay script values, since the reducer
merges them member by member.

Members that no reducer or projection function of this model reads or writes are left
out: an agent's and a run's client annotations, an interaction's expiration reason.
-/

namespace Ace

open Script

inductive AgentFidelity where
  | full | summary | placeholder
  deriving DecidableEq, Repr

inductive AgentOrigin where
  | root | provider_subagent | ace
  deriving DecidableEq, Repr

inductive AgentActivity where
  | thinking | responding | tool | compacting | retrying | starting_turn
  deriving DecidableEq, Repr

inductive BlockedReason where
  | human | subagents | queue | background_task | rate_limit | network | upstream
  deriving DecidableEq, Repr

inductive AgentErrorKind where
  | provider | auth | quota | network | process_exit | unknown
  deriving DecidableEq, Repr

structure ProviderErrorDetails where
  code : String
  provider : String
  title : Option String := none
  detail : Option String := none
  model : Option String := none
  deriving DecidableEq, Repr

structure AgentError where
  kind : AgentErrorKind
  message : String
  code : Option String := none
  title : Option String := none
  detail : Option String := none
  details : Option ProviderErrorDetails := none
  deriving DecidableEq, Repr

inductive AgentStatus where
  | starting
  | working (activity : AgentActivity) (itemId : Option String) (detail : Option String)
  | blocked (on : BlockedReason) (refs : List String) (until_ : Option Nat)
      (attempt : Option Nat) (message : Option String)
  | idle
  | interrupted
  | failed (error : AgentError)
  | unresponsive (lastSignalAt : Nat)
  deriving DecidableEq, Repr

namespace AgentStatus

def isWorking : AgentStatus → Bool
  | working .. => true
  | _ => false

def isUnresponsive : AgentStatus → Bool
  | unresponsive _ => true
  | _ => false

def isFailed : AgentStatus → Bool
  | failed _ => true
  | _ => false

def isBlockedOn (reason : BlockedReason) : AgentStatus → Bool
  | blocked on .. => on == reason
  | _ => false

end AgentStatus

/-- What a waiting thread waits on. -/
inductive WaitingReason where
  | background_task | rate_limit | network | upstream | queue
  deriving DecidableEq, Repr

inductive ThreadStatus where
  | needs_you (interactions : Nat)
  | working (agents : Nat)
  | waiting (on : WaitingReason)
  | limited (until_ : Option Nat)
  | failed
  | unresponsive
  | done
  | new
  deriving DecidableEq, Repr

structure Agent where
  id : String
  threadId : String
  childThreadId : Option String := none
  machine : Option Value := none
  parentId : Option String
  origin : AgentOrigin
  lineage : Option Value := none
  native : Value
  fidelity : AgentFidelity
  spawnedBy : Option (Option String) := none
  name : Option String := none
  role : Option String := none
  model : Option String := none
  cwd : String
  status : AgentStatus
  /-- `none` for a `null` that an `agent.seen` fact carried. -/
  background : Option Bool
  createdAt : Nat
  deriving DecidableEq

inductive RunTrigger where
  | user | restart | limit_resume | spawn | parent_agent | background_completion
  | subagent_result | goal | queue | schedule | unknown
  deriving DecidableEq, Repr

inductive RunState where
  | active | completed | interrupted | failed
  deriving DecidableEq, Repr

inductive RunEndedBy where
  | steer
  deriving DecidableEq, Repr

structure Run where
  id : String
  threadId : String
  agentId : String
  trigger : RunTrigger
  provider : Option String := none
  permissionMode : Option (Option String) := none
  nativeId : Option String := none
  state : RunState
  endedBy : Option RunEndedBy := none
  startedAt : Nat
  endedAt : Option Nat := none
  deriving DecidableEq

inductive InteractionState where
  | pending | resolved | cancelled | expired
  deriving DecidableEq, Repr

structure Interaction where
  id : String
  threadId : String
  agentId : String
  toolCallId : Option String := none
  blocking : Bool
  request : Value
  state : InteractionState
  resolution : Option Value := none
  resolvedBy : Option String := none
  autoReviewed : Option Bool := none
  createdAt : Nat
  closedAt : Option Nat := none
  raw : Value
  deriving DecidableEq

inductive TaskKind where
  | shell | monitor | subagent | other
  deriving DecidableEq, Repr

inductive TaskStatus where
  | running | completed | failed | stopped | unknown
  deriving DecidableEq, Repr

inductive TaskOwner where
  | ace
  deriving DecidableEq, Repr

structure BackgroundTask where
  id : String
  agentId : String
  owner : Option TaskOwner := none
  kind : TaskKind
  title : String
  status : TaskStatus
  ambient : Bool
  internal : Bool := false
  wakesAgent : Option Bool := none
  listening : Option (List Nat) := none
  outputPath : Option String := none
  toolCallId : Option String := none
  childAgentId : Option String := none
  stoppable : Bool
  startedAt : Nat
  endedAt : Option Nat := none
  raw : Value
  deriving DecidableEq

inductive DeltaField where
  | text | reasoning | output
  deriving DecidableEq, Repr

/-- The members an `agent.updated` event carries. -/
structure AgentChanges where
  childThreadId : Option String := none
  machine : Option Value := none
  parentId : Option (Option String) := none
  origin : Option AgentOrigin := none
  lineage : Option Value := none
  fidelity : Option AgentFidelity := none
  native : Option Value := none
  cwd : Option String := none
  name : Option String := none
  role : Option String := none
  model : Option String := none
  spawnedBy : Option (Option String) := none
  background : Option (Option Bool) := none
  deriving DecidableEq

/-- `Object.assign(agent, changes)`. -/
def AgentChanges.assign (changes : AgentChanges) (agent : Agent) : Agent :=
  { agent with
    childThreadId := changes.childThreadId.or agent.childThreadId
    machine := changes.machine.or agent.machine
    parentId := changes.parentId.getD agent.parentId
    origin := changes.origin.getD agent.origin
    lineage := changes.lineage.or agent.lineage
    fidelity := changes.fidelity.getD agent.fidelity
    native := changes.native.getD agent.native
    cwd := changes.cwd.getD agent.cwd
    name := changes.name.or agent.name
    role := changes.role.or agent.role
    model := changes.model.or agent.model
    spawnedBy := changes.spawnedBy.or agent.spawnedBy
    background := changes.background.getD agent.background }

/-- The payloads the reducer emits. -/
inductive EventPayload where
  | agentCreated (agent : Agent)
  | agentStatus (agentId : String) (status : AgentStatus) (completionRelevant : Bool)
  | agentUpdated (agentId : String) (changes : AgentChanges)
  | inputAdmitted (agentId nativeInputId : String) (commandId : Option String)
  | runStarted (run : Run)
  | runEnded (runId : String) (state : RunState) (endedBy : Option RunEndedBy)
      (trigger : Option RunTrigger) (endedAt : Nat)
  | itemCreated (item : Value)
  | itemUpdated (item : Value)
  | itemDelta (itemId agentId : String) (field : DeltaField) (append : String)
  | interactionOpened (interaction : Interaction)
  | interactionClosed (interactionId : String) (state : InteractionState)
      (resolution : Option Value) (resolvedBy : Option String) (autoReviewed : Option Bool)
      (closedAt : Nat)
  | backgroundTaskStarted (task : BackgroundTask)
  | backgroundTaskUpdated (taskId : String) (status : TaskStatus) (endedAt : Option Nat)
  | contextSampled (agentId : String) (sample : List (String × Value))
  | usageUpdated (agentId : String) (usage : List (String × Value))
  | threadUpdated (status : ThreadStatus)
  deriving DecidableEq

/-- Whether a status is settled: nothing more happens until someone sends input. -/
def isSettled : AgentStatus → Bool
  | .idle | .interrupted | .failed _ => true
  | _ => false

end Ace
