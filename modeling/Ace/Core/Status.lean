import Ace.Core.Tree

/-!
# Derived statuses

The status of every agent, whether it holds completion, and the status of the thread are
derived from the raw work records. `resolve` and `relevant` call each other along child and
spawn links, with the memo tables and the `visiting` guards of the source: a spawn link may
lead back to an ancestor, so what a guard returns and what is remembered before it matter.
Subtree signals and relevance over stored statuses follow child links only, where the memo
of the source is a matter of cost, and are plain recursions.
-/

namespace Ace

open Script Script.Command

/-! ### Liveness -/

def transportSignalAt (state : ThreadState) : Nat :=
  state.lastTransportSignalAt.getD
    (state.agents.values.foldl (fun latest record => max latest record.lastSignalAt) 0)

/-- The parent by its ace id, as the child index has it. -/
def parentById (state : ThreadState) (key : Key) : Option Key :=
  (state.agents.get? key).bind fun record =>
    record.agent.parentId.bind state.indexes.agentKeysById.get?

/-- A known delta can revive an ancestor even when its own owner is idle. -/
def hasUnresponsiveAncestor (state : ThreadState) (key : Key) : Bool :=
  (walk (parentById state) (state.agents.keys.length + 1) [] (some key)).any fun key =>
    (state.agents.get? key).any (·.agent.status.isUnresponsive)

def childKeys (state : ThreadState) (agentId : String) : List Key :=
  ((state.indexes.childrenByParent.get? agentId).getD .empty).keys

/-- The latest signal in the subtree of `key`. -/
def subtreeSignal (state : ThreadState) : Nat → List Key → Key → Nat
  | 0, _, _ => 0
  | fuel + 1, visiting, key =>
    match state.agents.get? key with
    | none => 0
    | some record =>
      if key ∈ visiting then record.lastSignalAt
      else ((childKeys state record.agent.id).map
        (subtreeSignal state fuel (key :: visiting))).foldl max record.lastSignalAt

/-- `subtreeSignalReader(state)(key)`. -/
def lastSubtreeSignal (state : ThreadState) (key : Key) : Nat :=
  subtreeSignal state (state.agents.keys.length + 1) [] key

/-! ### Inputs of a derivation -/

/-- Whether live background work holds its thread open. -/
def holdsThread (task : BackgroundTask) (turnFinished : Bool) : Bool :=
  if task.ambient then false
  else if !turnFinished then true
  else task.wakesAgent != some false && (task.listening.getD []).isEmpty

/-- Whether a task's agent finished its last turn on its own. -/
def ownerTurnFinished (state : ThreadState) (agentId : String) : Bool :=
  match (state.indexes.agentKeysById.get? agentId).bind state.agents.get? with
  | none => false
  | some record =>
    record.activeRun.isNone &&
      (record.lastRun.bind state.runs.get?).any (·.state == .completed)

def taskHoldsThread (state : ThreadState) (task : BackgroundTask) : Bool :=
  holdsThread task (ownerTurnFinished state task.agentId)

def pendingInteractions (state : ThreadState) : List Interaction :=
  (pendingInteractionKeys state none).filterMap state.interactions.get?

/-- The live tasks that hold the thread. -/
def holdingTasks (state : ThreadState) : List BackgroundTask :=
  ((runningTaskKeys state none).filterMap state.tasks.get?).filter (taskHoldsThread state)

def liveTools (state : ThreadState) : List Value :=
  ((liveToolKeys state none).filterMap state.items.get?).filter Item.isLiveTool

def interactionsOf (state : ThreadState) (agentId : String) : List Interaction :=
  (pendingInteractions state).filter (·.agentId = agentId)

def tasksOf (state : ThreadState) (agentId : String) : List BackgroundTask :=
  (holdingTasks state).filter (·.agentId = agentId)

def toolsOf (state : ThreadState) (agentId : String) : List Value :=
  (liveTools state).filter (Item.agentId · = agentId)

/-- The targets of the wait tools an agent has open. -/
def waitsOf (state : ThreadState) (agentId : String) : List (List Key) :=
  (liveToolKeys state none).filterMap fun key =>
    match (state.itemLinks.get? key).bind (·.waitingFor), state.items.get? key with
    | some targets, some item =>
      if Item.isToolCall item ∧ Item.agentId item = agentId then some targets else none
    | _, _ => none

/-- Agents that own live work. -/
def waitingOwner (state : ThreadState) (agentId : String) : Bool :=
  !(interactionsOf state agentId).isEmpty || !(tasksOf state agentId).isEmpty ||
    !(toolsOf state agentId).isEmpty

/-- Any live owned work or completion-relevant child suppresses active-run silence. -/
def suppressesActiveSilence (state : ThreadState) (agentId : String) (liveChildren : List Key) :
    Bool :=
  waitingOwner state agentId || !liveChildren.isEmpty

/-- More than the silence threshold has passed since `last`. -/
def silentSince (state : ThreadState) (now last : Nat) : Bool :=
  decide (state.config.silenceMs < (now : ℚ) - last)

/-! ### Completion relevance -/

/-- A subagent whose turn ended on a usage limit runs nothing until someone sends to it. -/
def limitedAtRest (state : ThreadState) (key : Key) (record : AgentRecord) : Bool :=
  state.rootKey ≠ some key ∧ record.limited.isSome ∧ record.activeRun.isNone ∧
    record.retry.isNone ∧ record.disconnectedAt.isNone ∧ !waitingOwner state record.agent.id

/-- Whether an agent is relevant to completion, when its own record decides it. Unstarted
silent children are visible diagnostics, not evidence of live work. -/
def ownRelevance (state : ThreadState) (key : Key) (record : AgentRecord) (status : AgentStatus) :
    Option Bool :=
  if isSettled status then some false
  else if record.externalStatus.isSome then some true
  else if !limitedAtRest state key record ∧
      (state.rootKey = some key ∨ !status.isUnresponsive ∨ record.disconnectedAt.isSome ∨
        record.activeRun.isSome ∨ record.lastRun.isSome ∨ record.retry.isSome ∨
        waitingOwner state record.agent.id) then some true
  else none

/-- Relevance over known statuses: a live descendant keeps an agent relevant. -/
def relevantBy (state : ThreadState) (statusOf : Key → AgentRecord → AgentStatus) :
    Nat → List Key → Key → Bool
  | 0, _, _ => false
  | fuel + 1, visiting, key =>
    match state.agents.get? key with
    | none => false
    | some record =>
      match ownRelevance state key record (statusOf key record) with
      | some answer => answer
      | none => decide (key ∈ visiting) || (childKeys state record.agent.id).any
          (relevantBy state statusOf fuel (key :: visiting))

/-- Read completion evidence from an already-derived, persisted agent tree. -/
def completionRelevanceReader (state : ThreadState) (key : Key) : Bool :=
  relevantBy state (fun _ record => record.agent.status) (state.agents.keys.length + 1) [] key

/-! ### Agent statuses -/

/-- A summary agent follows its independently owned thread, never its parent's process. -/
def externalAgentStatus (status : ThreadStatus) (threadId : String) : AgentStatus :=
  match status with
  | .needs_you _ => .blocked .human [threadId] none none none
  | .working _ => .working .responding none none
  | .waiting .background_task => .blocked .background_task [threadId] none none none
  | .waiting .rate_limit => .blocked .rate_limit [threadId] none none none
  | .waiting .network => .blocked .network [threadId] none none none
  | .waiting .upstream => .blocked .upstream [threadId] none none none
  | .waiting .queue => .blocked .queue [threadId] none none none
  | .limited until_ => .blocked .rate_limit [threadId] until_ none none
  | .unresponsive => .unresponsive 0
  | .new => .starting
  | .failed => .failed { kind := .provider, message := "Delegated thread failed" }
  | .done => .idle

/-- The status that an exited process leaves behind. -/
def ProcessExit.status (exit : ProcessExit) : AgentStatus :=
  if exit.deliberate then .interrupted
  else .failed { kind := .process_exit
                 message := exit.message.getD "Provider process exited" }

/-- The cases of `derive` that no other agent can change. -/
def ownStatus (state : ThreadState) (record : AgentRecord) (key : Key) : Option AgentStatus :=
  let agent := record.agent
  let blocking := (interactionsOf state agent.id).filter (·.blocking)
  match record.externalStatus, agent.childThreadId with
  | some status, some threadId => some (externalAgentStatus status threadId)
  | _, _ =>
    match record.limited with
    | some limited => some (.blocked .rate_limit [] limited.until_ none limited.message)
    | none =>
      match state.processExit with
      | some exit =>
        if exit.unsettled.contains key then some exit.status
        else if isSettled agent.status then some agent.status
        else some exit.status
      | none =>
        if !blocking.isEmpty then some (.blocked .human (blocking.map (·.id)) none none none)
        else match record.disconnectedAt with
          | some at_ => some (.unresponsive at_)
          | none => record.retry.map fun retry =>
              .blocked retry.on.blockedReason [] retry.until_ retry.attempt retry.message

def agentIdOf (state : ThreadState) (key : Key) : Option String :=
  (state.agents.get? key).map (·.agent.id)

/-- The children an agent waits for: all live ones, or those its wait tools name. -/
def waitingStatus (state : ThreadState) (waits : List (List Key)) (liveChildren : List Key) :
    AgentStatus :=
  .blocked .subagents
    ((liveChildren.filter fun child => waits.any fun targets =>
      targets.isEmpty || targets.contains child).filterMap (agentIdOf state)) none none none

/-- The tool that started last, the later of two that started together. -/
def newestTool (tools : List Value) : Option Value :=
  tools.foldl (fun newest item =>
    match newest with
    | none => some item
    | some newest =>
      if Item.startedAt newest < Item.startedAt item ∨
          (Item.startedAt item = Item.startedAt newest ∧
            Item.createdAtNumber newest ≤ Item.createdAtNumber item) then some item
      else some newest) none

/-- Whether a tool spawned one of the `foreground` children. -/
def spawnedForeground (foreground : List String) (item : Value) : Bool :=
  Item.hasDetail item "agent.spawn" && (Item.childAgentId item).any fun child =>
    child ≠ "" && foreground.contains child

/-- An agent in a turn that waits on no subagents. -/
def activeStatus (state : ThreadState) (now : Nat) (record : AgentRecord) (key : Key)
    (liveChildren : List Key) (foreground : List String) : AgentStatus :=
  -- An agent's own tool work can continue while a foreground child runs.
  let ownTools := (toolsOf state record.agent.id).filter (!spawnedForeground foreground ·)
  match newestTool ownTools with
  | some item => .working .tool (some (Item.id item)) none
  | none =>
    if !foreground.isEmpty then
      .blocked .subagents foreground.eraseDups none none none
    else if state.config.liveness ≠ some .transport ∧
        !suppressesActiveSilence state record.agent.id liveChildren ∧
        silentSince state now (lastSubtreeSignal state key) then
      .unresponsive (lastSubtreeSignal state key)
    else .working record.activity none record.detail

/-- The background work an agent between turns waits for. -/
def backgroundRefs (state : ThreadState) (agentId : String) (liveChildren : List Key) :
    List String :=
  let tasks := tasksOf state agentId
  tasks.map (·.id) ++ (liveChildren.filterMap (agentIdOf state)).filter fun child =>
    !tasks.any (·.childAgentId = some child)

/-- An agent between turns. -/
def idleStatus (state : ThreadState) (now : Nat) (record : AgentRecord) (key : Key)
    (liveChildren : List Key) : AgentStatus :=
  if record.wakeUntil.any (now < ·) then .working .starting_turn none none
  else match record.processSettledStatus with
    | some status => status
    | none =>
      match record.lastRun with
      | none =>
        if state.rootKey = some key ∧ !state.hasRun ∧ record.agent.fidelity ≠ .placeholder then
          .starting
        else if silentSince state now (lastSubtreeSignal state key) then
          .unresponsive (lastSubtreeSignal state key)
        else .starting
      | some lastRun =>
        let refs := backgroundRefs state record.agent.id liveChildren
        if !refs.isEmpty then .blocked .background_task refs none none none
        else match (state.runs.get? lastRun).map Run.state with
          | some RunState.interrupted => .interrupted
          | some RunState.failed => .failed (record.lastError.getD
              { kind := .unknown, message := "Agent turn failed" })
          | _ => .idle

/-- In transport mode a silent transport makes every unsettled agent unresponsive. -/
def transportStatus (state : ThreadState) (now : Nat) (record : AgentRecord)
    (status : AgentStatus) : AgentStatus :=
  if record.externalStatus.isNone ∧ state.config.liveness = some .transport ∧
      state.processExit.isNone ∧ record.limited.isNone ∧ !isSettled status ∧
      silentSince state now (transportSignalAt state) then
    .unresponsive (transportSignalAt state)
  else status

/-! ### The resolver -/

/-- The memo tables of one derivation. -/
structure Memo where
  resolved : Dictionary AgentStatus := .empty
  cached : Dictionary Bool := .empty

abbrev Resolver := Command Memo Fault

/-- `keys.filter(holds)` for a check that keeps a memo. -/
def filterHolding (holds : Key → Resolver Bool) : List Key → Resolver (List Key)
  | [] => pure []
  | key :: keys => do
    let held ← holds key
    let rest ← filterHolding holds keys
    return if held then key :: rest else rest

/-- `keys.some(holds)` for a check that keeps a memo. -/
def anyHolding (holds : Key → Resolver Bool) : List Key → Resolver Bool
  | [] => pure false
  | key :: keys => do
    if ← holds key then return true else anyHolding holds keys

/-- The child that an open spawn tool may wait for, with its record. -/
def spawnedChild (state : ThreadState) (item : Value) : Option (Key × AgentRecord) := do
  let childId ← (Item.childAgentId item).filter fun child =>
    child ≠ "" && Item.hasDetail item "agent.spawn"
  let child ← (state.indexes.agentKeysById.get? childId).filter (· ≠ "")
  let record ← (state.agents.get? child).filter (·.agent.background ≠ some true)
  return (child, record)

/-- The ids of the children that an agent's open spawn tools wait for. -/
def foregroundChildren (state : ThreadState) (holds : Key → Resolver Bool) :
    List Value → Resolver (List String)
  | [] => pure []
  | item :: items => do
    match spawnedChild state item with
    | none => foregroundChildren state holds items
    | some (child, record) =>
      let held ← holds child
      let rest ← foregroundChildren state holds items
      return if held then record.agent.id :: rest else rest

def derive (state : ThreadState) (now : Nat) (holds : Key → Resolver Bool) (record : AgentRecord)
    (key : Key) : Resolver AgentStatus := do
  match ownStatus state record key with
  | some status => return status
  | none =>
    let liveChildren ← filterHolding holds (childKeys state record.agent.id)
    if record.activeRun.isNone then return idleStatus state now record key liveChildren
    let waits := waitsOf state record.agent.id
    if !waits.isEmpty then return waitingStatus state waits liveChildren
    let foreground ← foregroundChildren state holds (toolsOf state record.agent.id)
    return activeStatus state now record key liveChildren foreground

mutual
/-- The status of an agent, derived after those it depends on. -/
def resolve (state : ThreadState) (now : Nat) :
    Nat → List Key → List Key → Key → Resolver AgentStatus
  | 0, _, _, _ => throw .depth
  | fuel + 1, resolving, visiting, key => do
    match (← get).resolved.get? key with
    | some status => return status
    | none =>
      match state.agents.get? key with
      | none => throw (.error ("Unknown agent key: " ++ key))
      | some record =>
        -- A malformed restored tree must not recurse forever or look settled.
        if key ∈ resolving then return .starting
        let derived ← derive state now (relevant state now fuel (key :: resolving) visiting)
          record key
        let status := transportStatus state now record derived
        modify fun memo => { memo with resolved := memo.resolved.put key status }
        return status

/-- Whether an agent holds completion. -/
def relevant (state : ThreadState) (now : Nat) :
    Nat → List Key → List Key → Key → Resolver Bool
  | 0, _, _, _ => throw .depth
  | fuel + 1, resolving, visiting, key => do
    match (← get).cached.get? key with
    | some answer => return answer
    | none =>
      match state.agents.get? key with
      | none => return false
      | some record =>
        let status ← resolve state now fuel resolving visiting key
        match ownRelevance state key record status with
        | some answer => return answer
        | none =>
          if key ∈ visiting then return true
          let live ← anyHolding (relevant state now fuel resolving (key :: visiting))
            (childKeys state record.agent.id)
          modify fun memo => { memo with cached := memo.cached.put key live }
          return live
end

/-- Calls nest at most this deep: each entry of `resolve` and of `relevant` guards a new
agent. -/
def resolverFuel (state : ThreadState) : Nat := 3 * state.agents.keys.length + 2

/-- The second instance of `completionRelevance`, over resolved statuses. -/
def relevantResolved (state : ThreadState) (now : Nat) :
    Nat → List Key → Key → Resolver Bool
  | 0, _, _ => throw .depth
  | fuel + 1, visiting, key => do
    match state.agents.get? key with
    | none => return false
    | some record =>
      let status ← resolve state now (resolverFuel state) [] [] key
      match ownRelevance state key record status with
      | some answer => return answer
      | none =>
        if key ∈ visiting then return true
        anyHolding (relevantResolved state now fuel (key :: visiting))
          (childKeys state record.agent.id)

structure DerivedStatus where
  key : Key
  status : AgentStatus
  completionRelevant : Bool
  deriving DecidableEq

/-- The statuses of all agents, in table order with one memo. A record's own status is read
only before it is resolved, so the writes of the loop can follow. -/
def deriveStatuses (state : ThreadState) (now : Nat) : List Key → Resolver (List DerivedStatus)
  | [] => pure []
  | key :: keys => do
    let status ← resolve state now (resolverFuel state) [] [] key
    let completionRelevant ← relevantResolved state now (state.agents.keys.length + 1) [] key
    let rest ← deriveStatuses state now keys
    return { key, status, completionRelevant } :: rest

/-! ### The thread's status -/

/-- The same human attention rule governs thread status and notification links. -/
def isActionableInteraction (interaction : Interaction) (owner : Option AgentStatus) : Bool :=
  interaction.state == .pending &&
    (interaction.blocking || !owner.any AgentStatus.isWorking)

def statusOfId (state : ThreadState) (agentId : String) : Option AgentStatus :=
  (state.agents.values.reverse.find? (·.agent.id = agentId)).map (·.agent.status)

/-- The interactions a person must answer, those of delegated threads included. -/
def openQuestions (state : ThreadState) : Nat :=
  ((pendingInteractions state).filter fun interaction =>
    isActionableInteraction interaction (statusOfId state interaction.agentId)).length +
  (state.agents.values.map fun record =>
    match record.externalStatus with
    | some (.needs_you interactions) => interactions
    | _ => 0).sum

def isWorkingRecord (state : ThreadState) (record : AgentRecord) : Bool :=
  let rootId := (state.agents.get? (state.rootKey.getD "")).map (·.agent.id)
  match record.agent.status with
  | .starting => state.hasRun || some record.agent.id != rootId
  | .working .. => true
  -- A wait whose awaited children have all finished is about to return.
  | .blocked .subagents refs .. => refs.isEmpty
  | _ => false

/-- When every limit names its end, the last of them. -/
def limitedUntil (statuses : List AgentStatus) : Option Nat :=
  let limits := statuses.filterMap fun
    | .blocked .rate_limit _ until_ .. => some until_
    | _ => none
  if limits.all Option.isSome then (limits.filterMap id).max? else none

def deriveThreadStatus (state : ThreadState) : ThreadStatus :=
  let records := state.agents.values
  let statuses := records.map (·.agent.status)
  let blockedOn (reason : BlockedReason) : Bool := statuses.any (·.isBlockedOn reason)
  let workingAgents := (records.filter (isWorkingRecord state)).length
  let root := state.rootKey.bind state.agents.get?
  if 0 < openQuestions state then .needs_you (openQuestions state)
  else if 0 < workingAgents then .working workingAgents
  else if blockedOn .rate_limit then .limited (limitedUntil statuses)
  else if blockedOn .network then .waiting .network
  else if blockedOn .upstream then .waiting .upstream
  else if !(holdingTasks state).isEmpty then .waiting .background_task
  else if records.any (fun record =>
      (record.disconnectedAt.isSome || record.externalStatus == some .unresponsive) &&
        record.agent.status.isUnresponsive) then .unresponsive
  else if blockedOn .background_task || blockedOn .subagents then .waiting .background_task
  -- Input whose send failed waits for the person's retry, not for the agent.
  else if state.queueHeld && state.queueSources.provider = 0 then .failed
  -- Input a Stop kept for the person's Resume is at rest, not waiting.
  else if (0 < state.queueCount ∧ ¬ (state.queueStopped ∧ state.queueSources.provider = 0)) ∨
      records.any (·.externalStatus == some (.waiting .queue)) then .waiting .queue
  else if state.agents.entries.any (fun (key, record) =>
      record.agent.status.isUnresponsive && completionRelevanceReader state key) then
    .unresponsive
  else if root.any (·.agent.status.isFailed) ||
      records.any (fun record => record.agent.status.isFailed &&
        decide ((root.bind (·.lastSuccessfulOutcomeOrder)).getD 0 <
          record.lastOutcomeOrder.getD 0)) then .failed
  else if !state.hasRun then
    match state.processExit with
    | some exit => if exit.deliberate then .done else .failed
    | none => .new
  else .done

/-! ### Recomputing -/

/-- Write an agent's derived status when it changed, and announce it. -/
def updateStatus (derived : DerivedStatus) : Fold PUnit := do
  match (← getState).agents.get? derived.key with
  | none => return
  | some record =>
    if record.agent.status = derived.status ∧
        record.completionRelevant = some derived.completionRelevant then return
    when (isSettled record.agent.status ∧ !isSettled derived.status)
      (announceAgentBranch derived.key)
    changeRecord derived.key fun record => { record with
      agent := { record.agent with status := derived.status }
      completionRelevant := some derived.completionRelevant }
    emit (.agentStatus record.agent.id derived.status derived.completionRelevant)

def recomputeStatuses (now : Nat) : Fold PUnit := do
  changeState fun state => { state with statusObservedAt := some now }
  let state ← getState
  match deriveStatuses state now state.agents.keys {} with
  | .error fault => throw fault
  | .ok (derived, _) =>
    derived.forM updateStatus
    let state ← getState
    let status := deriveThreadStatus state
    if state.status = status then return
    changeState fun state => { state with status }
    emit (.threadUpdated status)

end Ace
