import Ace.Core.Items

/-!
# Interactions, background tasks and runs

Work that outlives a frame: what a person is asked, what runs in the background, and the
turns of each agent, with the cleanup that a turn's or the process's end performs.
-/

namespace Ace

open Script Script.Command

/-- Replace a stored interaction and refresh its index. -/
def putInteraction (state : ThreadState) (key : Key) (interaction : Interaction) : ThreadState :=
  refreshInteractionIndex
    { state with interactions := state.interactions.put key interaction } key

/-- Replace a stored task and refresh its index. -/
def putTask (state : ThreadState) (key : Key) (task : BackgroundTask) : ThreadState :=
  refreshTaskIndex { state with tasks := state.tasks.put key task } key

/-! ### Interactions -/

/-- The item an interaction or a task refers to, created from `draft` when it is unknown. -/
def ensureItem (ctx : ApplyContext) (agent : Key) (item : Option Key) (draft : Value) :
    Fold (Option Value) := do
  match item with
  | none => return none
  | some key =>
    match (← getState).items.get? key with
    | some item => return some item
    | none => return some (← upsertItem ctx agent key draft)

/-- The row that a key is about to lose. Nothing reads the history before it is replaced. -/
def archiveInteraction (state : ThreadState) (key : Key) : ThreadState :=
  match state.interactions.get? key with
  | some previous => { state with
      interactionHistory := state.interactionHistory.put previous.id previous }
  | none => state

def askDraft : Value :=
  .obj [("type", .str "tool_call"), ("call", .obj [("kind", .str "ask_user"),
    ("title", .str "Awaiting input"), ("status", .str "awaiting_approval"),
    ("detail", .obj [("kind", .str "ask_user")])])]

def openInteraction (ctx : ApplyContext) (fact : InteractionOpenedFact) : Fold PUnit := do
  let redacted := redactAceApproval fact.request
  -- Schema defaults are made explicit, so stored and emitted requests agree.
  match Protocol.interactionRequest (redacted.getD fact.request) with
  | none => throw (.invalid "InteractionRequest")
  | some request =>
    let raw := if redacted.isSome then some privateRaw else fact.raw
    let previous := (← getState).interactions.get? fact.interaction
    if previous.any (·.state == .pending) then return
    let record ← ensureAgent ctx fact.agent
    let item ← ensureItem ctx fact.agent fact.item askDraft
    let id ← nextId ctx .interaction
    let interaction : Interaction :=
      { id
        threadId := (← getState).threadId
        agentId := record.agent.id
        blocking := fact.blocking
        request
        state := .pending
        createdAt := ctx.now
        raw := raw.getD (.arr [])
        toolCallId := item.map Item.id }
    changeState fun state =>
      putInteraction (archiveInteraction state fact.interaction) fact.interaction interaction
    emit (.interactionOpened interaction)

/-- Close a pending interaction and announce it. -/
def endInteraction (key : Key) (interaction : Interaction) (state : InteractionState) (now : Nat)
    (resolution : Option Value) (resolvedBy : Option String) (autoReviewed : Option Bool) :
    Fold PUnit := do
  changeState (putInteraction · key { interaction with
    state
    closedAt := some now
    resolution := resolution.or interaction.resolution
    resolvedBy := resolvedBy.or interaction.resolvedBy
    autoReviewed := autoReviewed.or interaction.autoReviewed })
  emit (.interactionClosed interaction.id state resolution resolvedBy autoReviewed now)

def closeInteraction (ctx : ApplyContext) (fact : InteractionClosedFact) : Fold PUnit := do
  match (← getState).interactions.get? fact.interaction with
  | none => return
  | some interaction =>
    if interaction.state ≠ .pending then return
    endInteraction fact.interaction interaction fact.state.state ctx.now fact.resolution
      fact.resolvedBy fact.autoReviewed

/-! ### Background tasks -/

/-- The link from a task's agent to the child that does its work. -/
def childLink (fact : BackgroundStartedFact) (child : Key) : AgentLinkedFact :=
  { agent := child, parent := some fact.agent, spawnedBy := fact.item }

/-- Point a tool call at its background task and announce it. -/
def attachTask (key : Key) (taskId : String) : Fold PUnit := do
  match (← getState).items.get? key with
  | some item =>
    if Item.isToolCall item then updateItem key (Item.setBackgroundTaskId item taskId)
  | none => return

/-- A task learns its child once the adapter names it. -/
def nameChild (ctx : ApplyContext) (childAgent : Option Key) (task : BackgroundTask) :
    Fold BackgroundTask :=
  match childAgent, task.childAgentId with
  | some child, none => do
    let child ← ensureAgent ctx child
    return { task with childAgentId := some child.agent.id }
  | _, _ => return task

/-- A task learns its tool call once the item is known. -/
def nameTool (item : Option Value) (task : BackgroundTask) : BackgroundTask :=
  match task.toolCallId, item.filter Item.isToolCall with
  | none, some item => { task with toolCallId := some (Item.id item) }
  | _, _ => task

/-- A task learns its output file, and that its end wakes nobody. -/
def nameOutput (fact : BackgroundStartedFact) (task : BackgroundTask) : BackgroundTask :=
  { task with
    outputPath := task.outputPath.or fact.outputPath
    wakesAgent := task.wakesAgent.or (fact.wakesAgent.filter (· = false)) }

/-- Re-announcing running work never restarts it: it learns its owning descendant, child
and tool once the adapter knows them. -/
def refineBackground (ctx : ApplyContext) (fact : BackgroundStartedFact)
    (task : BackgroundTask) : Fold PUnit := do
  let record ← ensureAgent ctx fact.agent
  let withChild ← nameChild ctx fact.childAgent { task with agentId := record.agent.id }
  let withTool := nameTool (fact.item.bind (← getState).items.get?) withChild
  when (withTool.toolCallId ≠ withChild.toolCallId) (attachTask (fact.item.getD "") task.id)
  let refined := nameOutput fact withTool
  if refined = task then return
  changeState fun state => { state with tasks := state.tasks.put fact.task refined }
  emit (.backgroundTaskStarted refined)
  whenSome fact.childAgent fun child => linkAgent ctx (childLink fact child)

def archiveTask (state : ThreadState) (key : Key) : ThreadState :=
  match state.tasks.get? key with
  | some previous => { state with taskHistory := state.taskHistory.put previous.id previous }
  | none => state

/-- The tool call of a task whose item is not known yet. -/
def taskDraft (fact : BackgroundStartedFact) : Value :=
  let call := match fact.kind, fact.childAgent with
    | .shell, _ => [("kind", Value.str "shell"),
        ("detail", .obj [("kind", .str "shell"), ("command", .str "")])]
    | _, some child => [("kind", .str "agent.spawn"),
        ("detail", .obj [("kind", .str "agent.spawn"), ("childAgent", .str child)])]
    | _, none => [("kind", .str "custom"), ("detail", .obj [("kind", .str "custom")])]
  .obj [("type", .str "tool_call"), ("call",
    .obj ([("title", .str fact.title), ("status", .str "running")] ++ call))]

/-- The child that does a task's work. -/
def ensureChild (ctx : ApplyContext) (childAgent : Option Key) : Fold (Option AgentRecord) :=
  match childAgent with
  | some child => some <$> ensureAgent ctx child
  | none => return none

def startedTask (fact : BackgroundStartedFact) (id agentId : String) (now : Nat)
    (item : Option Value) (child : Option AgentRecord) : BackgroundTask where
  id
  agentId
  kind := fact.kind
  owner := fact.owner
  title := fact.title
  status := .running
  ambient := fact.ambient.getD false
  internal := fact.internal
  stoppable := fact.stoppable
  startedAt := now
  raw := fact.raw.getD (.arr [])
  toolCallId := item.map Item.id
  childAgentId := child.map (·.agent.id)
  outputPath := fact.outputPath
  wakesAgent := fact.wakesAgent.filter (· = false)

def startBackground (ctx : ApplyContext) (fact : BackgroundStartedFact) : Fold PUnit := do
  let state ← getState
  match (state.tasks.get? fact.task).filter (·.status = .running) with
  | some task => refineBackground ctx fact task
  | none =>
    let completed := fact.item.bind state.items.get? |>.any Item.complete
    if fact.kind = .shell ∧ completed then return
    let record ← ensureAgent ctx fact.agent
    let child ← ensureChild ctx fact.childAgent
    let item ← ensureItem ctx fact.agent fact.item (taskDraft fact)
    let id ← nextId ctx .task
    let task := startedTask fact id record.agent.id ctx.now item child
    changeState fun state =>
      let state := archiveTask state fact.task
      putTask { state with uncertainTasks := state.uncertainTasks.erase fact.task } fact.task task
    emit (.backgroundTaskStarted task)
    whenSome fact.item (attachTask · id)
    whenSome fact.childAgent fun child => linkAgent ctx (childLink fact child)

/-- `[...new Set(ports)].toSorted((a, b) => a - b)`. -/
def sortedPorts (ports : List Nat) : List Nat := ports.dedup.mergeSort (· ≤ ·)

/-- The ports a running task's processes listen on. A change re-announces the task. -/
def listenBackground (key : Key) (ports : List Nat) : Fold PUnit := do
  match ((← getState).tasks.get? key).filter (·.status = .running) with
  | none => return
  | some task =>
    let ports := sortedPorts ports
    if ports = task.listening.getD [] then return
    let listening := { task with listening := if ports.isEmpty then none else some ports }
    changeState fun state => { state with tasks := state.tasks.put key listening }
    emit (.backgroundTaskStarted listening)

/-- Write the end of a task, with the uncertain tasks after it, and announce it. -/
def settleTask (key : Key) (task : BackgroundTask) (status : TaskStatus) (endedAt : Nat)
    (uncertainTasks : Dictionary Unit) : Fold PUnit := do
  changeState fun state => putTask { state with uncertainTasks } key
    { task with status, endedAt := some endedAt }
  emit (.backgroundTaskUpdated task.id status (some endedAt))

def endBackground (ctx : ApplyContext) (key : Key) (status : TaskEnd) (uncertain : Bool) :
    Fold PUnit := do
  let state ← getState
  match state.tasks.get? key with
  | none => return
  | some task =>
    let wasUncertain := task.status = .unknown ∧ state.uncertainTasks.contains key
    -- A task ace lost track of takes later terminal evidence; its end time stays.
    let lost := task.status = .unknown ∧ ¬ wasUncertain ∧ status ≠ .unknown
    if task.status ≠ .running ∧ ¬ wasUncertain ∧ ¬ lost then return
    let endedAt := if lost then task.endedAt.getD ctx.now else ctx.now
    settleTask key task status.status endedAt (mark state.uncertainTasks key uncertain)

/-! ### Cleanup -/

/-- The call of a tool that its turn left open. -/
def cancelledItem (item : Value) (now : Nat) : Value :=
  (Item.setCall item fun call =>
    ((call.setField "status" (.str "cancelled")).setField "error"
      (.str "turn ended without completion")).setField "endedAt" (.nat now)).setField
    "complete" (.bool true)

def cancelTool (key : Key) (now : Nat) : Fold PUnit := do
  match (← getState).items.get? key with
  | some item => if Item.isToolCall item then storeItem key (cancelledItem item now)
  | none => return

/-- Once the turn is over nothing streams into its text, so what arrived is final. -/
def closeText (key : Key) : Fold PUnit := do
  match ((← getState).items.get? key).filter (!Item.complete ·) with
  | none => changeState (refreshItemIndex · key)
  | some item => storeItem key (item.setField "complete" (.bool true))

def cancelInteraction (agentId : String) (now : Nat) (resolving : Option (List String))
    (key : Key) : Fold PUnit := do
  match (← getState).interactions.get? key with
  | none => throw .typeError
  | some interaction =>
    if interaction.agentId ≠ agentId ∨ !interaction.blocking ∨ interaction.state ≠ .pending then
      return
    -- Turn completion can precede the native answer: engine-owned answers stay pending.
    if resolving.any (·.contains interaction.id) then return
    endInteraction key interaction .cancelled now none none none

/-- The tool calls whose work goes on in the background. -/
def backgroundItems (state : ThreadState) : List String :=
  (runningTaskKeys state none).filterMap fun key =>
    (state.tasks.get? key).bind (·.toolCallId)

def cancelOpenWork (agentId : String) (now : Nat) (resolving : Option (List String)) :
    Fold PUnit := do
  let state ← getState
  let background := backgroundItems state
  (liveToolKeys state (some agentId)).forM fun key => do
    match (← getState).items.get? key with
    | none => throw .typeError
    | some item =>
      when (Item.agentId item = agentId ∧ Item.isLiveTool item ∧ Item.id item ∉ background)
        (cancelTool key now)
  (openTextKeys (← getState) (some agentId)).forM closeText
  (pendingInteractionKeys (← getState) (some agentId)).forM
    (cancelInteraction agentId now resolving)

/-! ### Runs -/

def matchingRun (state : ThreadState) (record : AgentRecord) (nativeId : String) : Option Run :=
  (record.nativeRuns.get? nativeId).bind state.runs.get?

/-- The active run of a record. -/
def activeRunOf (state : ThreadState) (record : AgentRecord) : Option Run :=
  record.activeRun.bind state.runs.get?

/-- The run that an end boundary is about. -/
def boundaryRun (state : ThreadState) (record : AgentRecord) (nativeId : Option String) :
    Option Run :=
  match nativeId with
  | none => activeRunOf state record
  | some nativeId => matchingRun state record nativeId

def storeRun (state : ThreadState) (key : Key) (run : Run) : ThreadState :=
  let state := { state with runs := state.runs.put run.id run }
  match run.nativeId with
  | none => state
  | some nativeId => { state with agents := state.agents.modify key fun record =>
      { record with nativeRuns := record.nativeRuns.put nativeId run.id } }

/-- Write a run's corrected trigger and announce it. -/
def retriggerRun (run : Run) (trigger : RunTrigger) (now : Nat) : Fold PUnit := do
  changeState fun state => { state with
    runs := state.runs.put run.id { run with trigger } }
  emit (.runEnded run.id run.state none (some trigger) (run.endedAt.getD now))

/-- A partial stream can contain the end boundary of a turn without its start. -/
def lateRun (ctx : ApplyContext) (fact : TurnEndedFact) (agentId : String) : Fold Run := do
  let id ← nextId ctx .run
  let run : Run :=
    { id
      threadId := (← getState).threadId
      agentId
      trigger := fact.trigger.getD .unknown
      state := .active
      startedAt := ctx.now
      nativeId := fact.nativeTurnId }
  changeState fun state => { storeRun state fact.agent run with hasRun := true }
  emit (.runStarted run)
  return run

/-- The run that a turn's end is about. -/
def runToEnd (ctx : ApplyContext) (fact : TurnEndedFact) (known : Option Run) (agentId : String) :
    Fold Run :=
  match known with
  | some run => return run
  | none => lateRun ctx fact agentId

/-- Write a run's end and announce it. -/
def closeRun (ctx : ApplyContext) (fact : TurnEndedFact) (run : Run) : Fold PUnit := do
  changeState fun state => { state with runs := state.runs.put run.id { run with
    state := fact.outcome.runState
    endedAt := some ctx.now
    endedBy := fact.endedBy.or run.endedBy
    trigger := fact.trigger.getD run.trigger } }
  emit (.runEnded run.id fact.outcome.runState fact.endedBy fact.trigger ctx.now)

/-- The record of an agent whose current turn ended. -/
def settledRecord (fact : TurnEndedFact) (run : Run) (order : Nat) (record : AgentRecord) :
    AgentRecord :=
  { record with
    limited :=
      match fact.error with
      | some error =>
        if !fact.historical && error.kind = .quota then
          some { (record.limited.getD {}) with message := some error.message }
        -- A turn the provider completed is proof the account could work.
        else if !fact.historical && fact.outcome = .completed then none
        else record.limited
      | none =>
        if !fact.historical && fact.outcome = .completed then none else record.limited
    processSettledStatus := none
    activeRun := none
    retry := none
    lastRun := some run.id
    lastOutcomeOrder := some order
    lastSuccessfulOutcomeOrder :=
      if fact.outcome = .completed then some order else record.lastSuccessfulOutcomeOrder
    lastError :=
      if fact.outcome = .failed then
        some (fact.error.getD { kind := .provider, message := "turn failed" })
      else none }

/-- The current turn of an agent is over: its record settles and its open work closes. -/
def settleTurn (ctx : ApplyContext) (fact : TurnEndedFact) (run : Run) (agentId : String) :
    Fold PUnit := do
  changeState fun state =>
    let order := state.outcomeOrder + 1
    { state with
      outcomeOrder := order
      agents := state.agents.modify fact.agent (settledRecord fact run order) }
  cancelOpenWork agentId ctx.now
    (if fact.outcome = .interrupted then none else ctx.resolvingInteractions)

/-- The end of a turn of a known agent. -/
def endTurnOf (ctx : ApplyContext) (fact : TurnEndedFact) (record : AgentRecord) :
    Fold PUnit := do
  let state ← getState
  let active := activeRunOf state record
  let known := boundaryRun state record fact.nativeTurnId
  let recoveredPast := fact.historical && known.isNone && record.lastRun.isSome
  match known.filter (·.state ≠ .active) with
  | some run =>
    match fact.trigger.filter (· ≠ run.trigger) with
    | some trigger => retriggerRun run trigger ctx.now
    | none => return
  | none =>
    if known.isNone ∧ fact.nativeTurnId.isNone ∧ record.lastRun.isSome then return
    let run ← runToEnd ctx fact known record.agent.id
    closeRun ctx fact run
    -- A delayed end for an older native turn cannot terminate the current turn.
    if recoveredPast || active.any (·.id ≠ run.id) then return
    settleTurn ctx fact run record.agent.id

def endTurn (ctx : ApplyContext) (fact : TurnEndedFact) : Fold PUnit := do
  let record ← ensureAgent ctx fact.agent
  endTurnOf ctx fact record

def startTurn (ctx : ApplyContext) (fact : TurnStartedFact) : Fold PUnit := do
  let record ← ensureAgent ctx fact.agent
  let state ← getState
  let active := activeRunOf state record
  -- Replayed native boundaries must not create runs or reopen completed ones.
  if (fact.nativeTurnId.bind (matchingRun state record)).isSome then return
  if active.isSome ∧ fact.nativeTurnId.isNone then return
  when (active.isNone ∧ record.lastRun.isSome) (announceAgentBranch fact.agent)
  whenSome active fun active =>
    endTurn ctx { agent := fact.agent, outcome := .interrupted, nativeTurnId := active.nativeId }
  let id ← nextId ctx .run
  let state ← getState
  let run : Run :=
    { id
      threadId := state.threadId
      agentId := record.agent.id
      trigger := fact.trigger
      provider := fact.permissionMode.map fun _ => state.config.provider.text
      permissionMode := fact.permissionMode
      state := .active
      startedAt := ctx.now
      nativeId := fact.nativeTurnId }
  changeState fun state => { storeRun state fact.agent run with hasRun := true }
  changeRecord fact.agent fun record => { record with
    activeRun := some run.id
    processSettledStatus := none
    activity := .starting_turn
    detail := none
    wakeUntil := none
    retry := none }
  emit (.runStarted run)

/-! ### The end of the process -/

def expireInteraction (now : Nat) (key : Key) : Fold PUnit := do
  match (← getState).interactions.get? key with
  | none => throw .typeError
  | some interaction =>
    if interaction.state ≠ .pending then return
    endInteraction key interaction .expired now none none none

/-- ace loses track of a task that ran in the process. -/
def loseTask (now : Nat) (key : Key) : Fold PUnit := do
  let state ← getState
  match state.tasks.get? key with
  | none => throw .typeError
  | some task =>
    if task.status ≠ .running ∨ task.owner = some .ace then return
    settleTask key task .unknown now state.uncertainTasks

def exitError (message : Option String) : AgentError :=
  { kind := .process_exit, message := message.getD "Provider process exited" }

/-- The status a process exit leaves an unsettled agent with. -/
def exitStatus (deliberate : Bool) (message : Option String) : AgentStatus :=
  if deliberate then .interrupted else .failed (exitError message)

/-- End the run of an agent whose process exited. -/
def exitRun (deliberate : Bool) (message : Option String) (now : Nat) (key : Key) (run : Run) :
    Fold PUnit := do
  let ended : RunState := if deliberate then .interrupted else .failed
  changeState fun state =>
    let order := state.outcomeOrder + 1
    { state with
      runs := state.runs.put run.id { run with state := ended, endedAt := some now }
      outcomeOrder := order
      agents := state.agents.modify key fun record => { record with
        activeRun := none
        lastRun := some run.id
        lastOutcomeOrder := some order
        lastError := if deliberate then record.lastError
          else some { kind := .process_exit
                      message := message.getD "provider process exited" } } }
  emit (.runEnded run.id ended none none now)

def exitAgent (deliberate : Bool) (message : Option String) (now : Nat) (key : Key) :
    Fold PUnit := do
  match (← getState).agents.get? key with
  | none => return
  | some record =>
    if record.externalStatus.isSome then return
    changeRecord key fun record =>
      { record with disconnectedAt := none, retry := none, wakeUntil := none }
    match record.activeRun with
    | none =>
      if !isSettled record.agent.status then
        changeState fun state =>
          let order := state.outcomeOrder + 1
          { state with
            outcomeOrder := order
            agents := state.agents.modify key fun record => { record with
              processSettledStatus := some (exitStatus deliberate message)
              lastOutcomeOrder := some order } }
    | some runId =>
      match (← getState).runs.get? runId with
      | some run => exitRun deliberate message now key run
      | none => changeRecord key fun record => { record with activeRun := none }

def exitProcess (ctx : ApplyContext) (deliberate : Bool) (message : Option String) :
    Fold PUnit := do
  let state ← getState
  if state.processExit.isSome then return
  let unsettled := (state.agents.entries.filter fun (_, record) =>
    record.externalStatus.isNone && !isSettled record.agent.status).map Prod.fst
  changeState fun state => { state with
    processExit := some { deliberate, message, unsettled } }
  (pendingInteractionKeys (← getState) none).forM (expireInteraction ctx.now)
  (runningTaskKeys (← getState) none).forM (loseTask ctx.now)
  -- All live tools belong to this process, even after their owner ended its turn.
  (liveToolKeys (← getState) none).forM (cancelTool · ctx.now)
  (openTextKeys (← getState) none).forM closeText
  (← getState).agents.keys.forM (exitAgent deliberate message ctx.now)

end Ace
