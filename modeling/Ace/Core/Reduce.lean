import Ace.Core.Diagnostics
import Ace.Core.Status
import Ace.Core.Validate
import Ace.Core.Work

/-!
# The reducer

`apply` folds one adapter fact into the thread state and returns the events it emitted.
`FactBatch` folds consecutive facts of one provider frame with fewer derivations.
-/

namespace Ace

open Script Script.Command

def touchSignal (now : Nat) (record : AgentRecord) : AgentRecord :=
  { record with lastSignalAt := now }

/-- The agent whose work a fact without an agent is about. -/
def factOwner (state : ThreadState) : Fact → Option Key
  | .backgroundEnded task .. =>
    ((state.tasks.get? task).map (·.agentId)).bind state.indexes.agentKeysById.get?
  | .interactionClosed fact =>
    ((state.interactions.get? fact.interaction).map (·.agentId)).bind
      state.indexes.agentKeysById.get?
  | _ => none

def signal (ctx : ApplyContext) (fact : Fact) : Fold PUnit := do
  match fact.agent? with
  | some agent =>
    let _ ← ensureAgent ctx agent
    changeRecord agent (touchSignal ctx.now)
  | none =>
    match fact with
    -- A transport heartbeat covers every agent.
    | .signal _ => (← getState).agents.keys.forM (changeRecord · (touchSignal ctx.now))
    | fact =>
      match factOwner (← getState) fact with
      | some key => changeRecord key (touchSignal ctx.now)
      | none => return

/-- Facts that are evidence of a live transport. -/
def Fact.movesTransport : Fact → Bool
  | tick | queueChanged .. | processExited .. => false
  | _ => true

/-- What an agent does after one of its items was written. -/
def itemActivity (item : Value) (activity : AgentActivity) : AgentActivity :=
  if Item.isToolCall item then
    if Item.isLiveStatus (Item.callStatus item) then .tool else .starting_turn
  else if !Item.complete item then
    if Item.hasType item "reasoning" then .thinking
    else if Item.hasType item "message" && Item.isAssistant item then .responding
    else if Item.hasType item "compaction" then .compacting
    else activity
  -- A finished compaction ends the compacting step even if no other frame follows it.
  else if Item.hasType item "compaction" && activity = .compacting then .starting_turn
  else activity

def writeItem (agent : Key) (write : Fold Value) : Fold PUnit := do
  let item ← write
  match (← getState).agents.get? agent with
  | none => return
  | some record =>
    if record.activeRun.isNone ∨ Item.runId item ≠ record.activeRun then return
    changeRecord agent fun record =>
      { record with activity := itemActivity item record.activity }

def changeQueue (count : Nat) (source : Option QueueSource) (held stopped : Bool)
    (state : ThreadState) : ThreadState :=
  let queueSources := match source with
    | some .provider => { state.queueSources with provider := count }
    | _ => { state.queueSources with engine := count }
  let state := { state with
    queueSources
    queueCount := queueSources.engine + queueSources.provider }
  if source = some .provider then state
  else { state with
    queueHeld := held && decide (0 < count)
    queueStopped := stopped && decide (0 < count) }

def seeExternal (ctx : ApplyContext) (agent : Key) (threadId : String) (status : ThreadStatus) :
    Fold PUnit := do
  let record ← ensureAgent ctx agent
  when (status = .failed ∧ record.externalStatus ≠ some .failed) <| changeState fun state =>
    let order := state.outcomeOrder + 1
    { state with
      outcomeOrder := order
      agents := state.agents.modify agent fun record =>
        { record with lastOutcomeOrder := some order } }
  changeRecord agent fun record => { record with externalStatus := some status }
  changeAgent agent { childThreadId := some threadId }

/-- Change the record of an agent, created when it is unknown. -/
def changeKnown (ctx : ApplyContext) (agent : Key) (f : AgentRecord → AgentRecord) :
    Fold PUnit := do
  let _ ← ensureAgent ctx agent
  changeRecord agent f

/-- The switch over fact types, for all but the two with a path of their own. -/
def carryOut (ctx : ApplyContext) : Fact → Fold PUnit
  | .agentExternal agent threadId status => seeExternal ctx agent threadId status
  | .agentDisconnected agent => changeKnown ctx agent fun record =>
      { record with disconnectedAt := some ctx.now }
  | .agentReconnected agent => changeKnown ctx agent fun record =>
      { record with disconnectedAt := none }
  | .agentSeen fact => seeAgent ctx fact
  | .agentLinked fact => linkAgent ctx fact
  | .turnStarted fact => startTurn ctx fact
  | .turnEnded fact => endTurn ctx fact
  | .inputAdmitted agent nativeInputId commandId => do
    let record ← ensureAgent ctx agent
    emit (.inputAdmitted record.agent.id nativeInputId commandId)
  | .activity agent activity detail => changeKnown ctx agent fun record =>
      { record with activity, detail }
  | .itemUpsert agent item draft => writeItem agent (upsertItem ctx agent item draft)
  | .itemReconciled agent item draft => writeItem agent (reconcileItem ctx agent item draft)
  | .subagentsWaiting _ item targets => changeState fun state =>
      let links := { (state.itemLinks.get? item).getD {} with waitingFor := some targets }
      { state with itemLinks := state.itemLinks.put item links }
  | .interactionOpened fact => openInteraction ctx fact
  | .interactionClosed fact => closeInteraction ctx fact
  | .backgroundStarted fact => startBackground ctx fact
  | .backgroundListening task ports => listenBackground task ports
  | .backgroundEnded task status uncertain => endBackground ctx task status uncertain
  | .retry agent retry => changeKnown ctx agent fun record => { record with
      retry := some retry
      limited := if retry.on = .rate_limit then some ⟨retry.until_, retry.message⟩
        else record.limited }
  | .limitCleared agent => changeKnown ctx agent fun record => { record with
      retry := record.retry.filter (·.on ≠ .rate_limit)
      limited := none }
  | .wakeExpected agent until_ => changeKnown ctx agent fun record =>
      { record with wakeUntil := some until_ }
  | .contextSample agent sample => do
    let record ← ensureAgent ctx agent
    emit (.contextSampled record.agent.id sample)
  | .usage agent usage => do
    let record ← ensureAgent ctx agent
    emit (.usageUpdated record.agent.id usage)
  | .processExited deliberate message => exitProcess ctx deliberate message
  | .processStarted => changeState fun state => { state with
      queueSources := { state.queueSources with provider := 0 }
      queueCount := state.queueSources.engine
      processExit := none }
  | .queueChanged count source held stopped => changeState (changeQueue count source held stopped)
  -- The engine lifts a goal onto the thread, and input binding belongs to its journal.
  | .goalUpdated _ | .inputConsumed .. | .signal _ | .tick => pure ⟨⟩
  | .itemDelta .. | .retryCleared _ => pure ⟨⟩

/-- A transport that was silent until this fact. -/
def transportSilent (state : ThreadState) (now : Nat) : Bool :=
  state.config.liveness = some .transport && silentSince state now (transportSignalAt state)

/-- The end of the paths that derive statuses only when `needed`. -/
def finishQuietly (ctx : ApplyContext) (needed : Bool) : Fold PUnit := do
  when needed do
    reconcileLinks ctx
    recomputeStatuses ctx.now
  flushNotices ctx

/-- The end of every other fact. -/
def finishFact (ctx : ApplyContext) (finish : Fold PUnit) : Fold PUnit := do
  flushNotices ctx
  reconcileLinks ctx
  finish

def foldFact (ctx : ApplyContext) (fact : Fact) (finish : Fold PUnit) : Fold PUnit := do
  ensureInitialRoot ctx
  let transportRecovered := transportSilent (← getState) ctx.now
  when fact.movesTransport <| changeState fun state =>
    { state with lastTransportSignalAt := some ctx.now }
  signal ctx fact
  match fact with
  | .itemDelta agent item field append =>
    let changed ← appendItem ctx agent item field append
    finishQuietly ctx
      (changed || transportRecovered || hasUnresponsiveAncestor (← getState) agent)
  | .retryCleared agent =>
    let record ← ensureAgent ctx agent
    if record.retry.all (·.on = .rate_limit) then
      finishQuietly ctx (transportRecovered || hasUnresponsiveAncestor (← getState) agent)
    else
      changeRecord agent fun record => { record with retry := none }
      finishFact ctx finish
  | fact =>
    carryOut ctx fact
    finishFact ctx finish

def fold (ctx : ApplyContext) (input : Value) (finish : Fold PUnit) : Fold PUnit := do
  refuse (maxSafeInteger < ctx.now) (.error "now must be a nonnegative integer")
  match validateFact (← getState) input ctx.now with
  | .error reason => rejectFact ctx input reason
  | .ok fact => foldFact ctx fact finish

/-- Run a fold from a state; the events of the result are those it emitted. -/
def runFold (command : Fold PUnit) (w : Work) : Except Fault Work :=
  (command { w with events := [] }).map Prod.snd

/-- Fold one adapter fact. The caller owns the clock, the id sequence and the envelope. -/
def apply (ctx : ApplyContext) (input : Value) (w : Work) : Except Fault Work :=
  runFold (fold ctx input (recomputeStatuses ctx.now)) w

/-! ### Batches -/

structure FactBatch where
  pendingAt : Option Nat := none
  signalDeadline : Option Nat := none
  preserveSignals : Bool := false
  deriving DecidableEq

/-- `new FactBatch(state, { deadline })`. -/
def FactBatch.stable (deadline : Option Nat) : FactBatch :=
  { signalDeadline := deadline, preserveSignals := true }

def FactBatch.flush (batch : FactBatch) (w : Work) : Except Fault (FactBatch × Work) :=
  match batch.pendingAt with
  | none => .ok (batch, { w with events := [] })
  | some at_ => (runFold (recomputeStatuses at_) w).map ({ batch with pendingAt := none }, ·)

/-- Facts that need one derived status for all of a batch. -/
def isBatchable (state : ThreadState) (fact : Value) : Bool :=
  let draft := fact.field "draft"
  fact.field "type" == .str "signal" ||
  (fact.field "type" == .str "interaction.opened" && (fact.field "item").isUndefined) ||
  (fact.field "type" == .str "item.upsert" &&
    (draft.field "type" == .str "message" || draft.field "type" == .str "notice") &&
    draft.field "complete" == .bool true &&
    !(state.items.get? ((fact.field "item").string?.getD "")).any Item.isToolCall)

/-- A signal that cannot change a status while the batch's deadline holds. -/
def FactBatch.isStableSignal (batch : FactBatch) (state : ThreadState) (fact : Value)
    (now : Nat) : Bool :=
  batch.preserveSignals && fact.field "type" == .str "signal" &&
    ((fact.field "agent").string?.any fun agent =>
      state.agents.contains agent && !hasUnresponsiveAncestor state agent) &&
    state.processExit.isNone &&
    state.statusObservedAt.any (· ≤ now) &&
    decide (state.lastTransportSignalAt.getD now ≤ now) &&
    batch.signalDeadline.all (now < ·) &&
    !transportSilent state now

def isDelta : EventPayload → Bool
  | .itemDelta .. => true
  | _ => false

/-- How a batch ends the fold of a fact. -/
def FactBatch.finish (stable batchable : Bool) (now : Nat) : Fold PUnit := do
  let w ← get
  if stable && w.events.isEmpty then
    changeState fun state => { state with statusObservedAt := some now }
  else if batchable then pure ⟨⟩
  else recomputeStatuses now

/-- Whether the fold of a fact ran `finish` without deriving statuses. -/
def FactBatch.defers (state : ThreadState) (fact : Value) (now : Nat) : Bool :=
  match validateFact state fact now with
  | .error _ => false
  | .ok _ => true

def FactBatch.apply (batch : FactBatch) (ctx : ApplyContext) (fact : Value) (w : Work) :
    Except Fault (FactBatch × Work) := do
  let batchable := isBatchable w.state fact
  let (batch, before) ←
    if !batchable ∨ batch.pendingAt ≠ some ctx.now then batch.flush w
    else .ok (batch, { w with events := [] })
  let stable := batch.isStableSignal before.state fact ctx.now
  let after ← runFold (fold ctx fact (FactBatch.finish stable batchable ctx.now)) before
  let pending := FactBatch.defers before.state fact ctx.now && batchable &&
    !(stable && after.events.isEmpty)
  let kept := (fact.field "type" == .str "signal" || fact.field "type" == .str "item.delta") &&
    after.events.all isDelta
  return (
    { batch with
      pendingAt := if pending then some ctx.now else batch.pendingAt
      preserveSignals := batch.preserveSignals && kept },
    { after with events := before.events ++ after.events })

end Ace
