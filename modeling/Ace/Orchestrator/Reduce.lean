import Ace.Orchestrator.Lifecycle
import Ace.Script.Doubles

/-!
# The orchestration reducer

What the host reports becomes a fact, and `apply` folds it into the run. Facts come in any
order: a lane that was over can turn out to be at work again, and is taken up with all its
ancestors.
-/

namespace Ace.Orchestrator

open Script Script.Command

inductive Operation where
  | start | check | merge
  deriving DecidableEq, Repr

def Operation.type : Operation → EffectType
  | start => .start
  | check => .check
  | merge => .merge

/-- What is reported about one attempt of a lane. -/
inductive LaneReport where
  | bound (threadId worktree : String)
  | thread (status : ThreadStatus)
  | artifact (artifact : Artifact)
  | checked (intentId : String) (commandPassed : Bool) (reviewPassed : Option Bool)
  | usage (usage : Usage)
  | stopped (intentId : String)
  | executionFailed (intentId : String) (operation : Operation) (error : String)
  | merged (intentId : String) (safetyCheckpoint : String)
  deriving DecidableEq, Repr

inductive Fact where
  | report (laneId : String) (attempt : Nat) (report : LaneReport)
  | spawn (parentId : String) (attempt : Nat) (requestId : String) (spec : LaneSpec)
      (prompt : String)
  | pick (laneId : String) (merge : Bool)
  | ack (intentId : String)
  | cancel
  | tick
  deriving DecidableEq, Repr

def isAttempt (attempt : Nat) : Bool := decide (1 ≤ attempt ∧ attempt ≤ 10)

def LaneReport.valid : LaneReport → Bool
  | bound threadId worktree => threadId != "" && isRef worktree
  | thread _ => true
  | artifact result => result.valid
  | checked intentId .. => isOrchestrationId intentId
  | usage spent => spent.valid
  | stopped intentId => isOrchestrationId intentId
  | executionFailed intentId _ error => isOrchestrationId intentId && lengthWithin 0 8192 error
  | merged intentId safetyCheckpoint => isOrchestrationId intentId && isRef safetyCheckpoint

def Fact.valid : Fact → Bool
  | report laneId attempt news => isOrchestrationId laneId && isAttempt attempt && news.valid
  | spawn parentId attempt requestId spec prompt =>
    isOrchestrationId parentId && isAttempt attempt && isOrchestrationId requestId &&
      spec.valid && lengthWithin 1 32768 prompt
  | pick laneId _ => isOrchestrationId laneId
  | ack intentId => isOrchestrationId intentId
  | cancel | tick => true

/-! ### Taking up work -/

def overBudget (s : State) (ctx : Context) : Bool :=
  let budget := s.input.template.budget
  decide ((budget.durationMs : Int) ≤ ctx.now - s.startedAt) ||
    decide (budget.tokens ≤ s.usage.tokens) || decide (budget.cost ≤ s.usage.cost)

def invalidate (id : String) : Reducer PUnit := do
  changeLane id fun lane => { lane with threadDone := false, artifact := none }
  clearChecks id

/-- The winner is at work again. -/
def revokeWinner (id : String) : Reducer PUnit := do
  when ((← getState).winner = some id) do
    changeState fun s => { s with mergeRequested := false }
    dropMerge
    changeState fun s => { s with winner := none }

/-- A child is at work again. -/
def rejoinParent (parentId : String) (wasUnsuccessful : Bool) : Reducer PUnit := do
  changeLane parentId fun parent => { parent with children := parent.children + 1 }
  clearChecks parentId
  when (wasUnsuccessful = true) <| changeLane parentId fun parent =>
    { parent with failedChildren := parent.failedChildren - 1 }
  when ((← getLane parentId).phase ≠ .cancelling) (phase parentId .joining)

/-- Reopened work is cancelled in a run that stops. -/
def stopReopened (ctx : Context) (id : String) : Reducer PUnit := do
  let s ← getState
  if s.stopReason.isSome then cancelLane ctx id
  else when (overBudget s ctx = true) (cancelAll ctx .budget_exhausted none)

def reopenWith (ctx : Context) (reopen : String → Reducer PUnit) (id : String) : Reducer PUnit := do
  let lane ← getLane id
  if !terminal lane.phase then return
  phase id .working
  changeLane id fun lane => { lane with endedAt := none }
  revokeWinner id
  let s ← getState
  whenSome (lane.parentId.filter s.lanes.contains) fun parentId => do
    reopen parentId
    rejoinParent parentId (lane.phase ≠ .succeeded)
  stopReopened ctx id

/-- `reopen`, with a bound on how deep it goes. -/
def reopenWithin (ctx : Context) : Nat → String → Reducer PUnit
  | 0, _ => throw .depth
  | fuel + 1, id => reopenWith ctx (reopenWithin ctx fuel) id

def reopen (ctx : Context) (id : String) : Reducer PUnit := do
  reopenWithin ctx ((← getLane id).depth + 1) id

/-! ### Reports about a lane -/

/-- Provider usage is cumulative per attempt, so a replay cannot charge twice. The sum is a
double before the earlier reports are taken off. -/
def Usage.charge (total before spent : Usage) : Usage where
  tokens := min maxSafeInteger
    (addCounts total.tokens (max before.tokens spent.tokens) - before.tokens)
  cost := min maxSafeInteger (total.cost + max before.cost spent.cost - before.cost)

def applyUsage (ctx : Context) (lane : Lane) (spent : Usage) : Reducer PUnit := do
  let before := lane.attemptUsage
  changeState fun s => { s with usage := s.usage.charge before spent }
  changeLane lane.id fun lane => { lane with
    usage := lane.usage.charge before spent
    attemptUsage :=
      { tokens := max before.tokens spent.tokens, cost := max before.cost spent.cost } }
  let s ← getState
  when ((s.stopReason = none ∨ s.stopReason = some .winner) ∧ overBudget s ctx = true)
    (cancelAll ctx .budget_exhausted none)

def applyBound (lane : Lane) (threadId worktree : String) : Reducer PUnit :=
  if lane.threadId.any (· ≠ threadId) ∨ lane.worktree.any (· ≠ worktree) then
    reject "binding_conflict"
  else do
    changeLane lane.id fun lane => { lane with threadId := some threadId, worktree := some worktree }
    when (lane.phase = .starting) (phase lane.id .working)

/-- `["needs_you", "waiting", "limited", "unresponsive"].includes(status)`. -/
def restingPhase : ThreadStatus → LanePhase
  | .needs_you _ | .waiting _ | .limited _ | .unresponsive => .waiting
  | _ => .working

/-- Whether a status takes up a lane that was over. -/
def reopens (status : ThreadStatus) (phase : LanePhase) : Bool :=
  status != .done && terminal phase && (status != .failed || phase == .succeeded)

def applyThread (ctx : Context) (id : String) (status : ThreadStatus) : Reducer PUnit := do
  let lane ← getLane id
  when (reopens status lane.phase = true) (reopen ctx id)
  let lane ← getLane id
  when (!terminal lane.phase ∧ lane.phase ≠ .queued ∧ lane.phase ≠ .cancelling) do
    if status = .failed then fail ctx id "thread_failed"
    else if status = .done then do
      changeLane id fun lane => { lane with threadDone := true }
      reconcile ctx id
    else do
      when (lane.threadDone = true) (invalidate id)
      phase id (restingPhase status)

/-- Whether `intentId` is a pending intent of a type for a lane. -/
def State.pends (s : State) (intentId : String) (type : EffectType) (laneId : String) : Bool :=
  (s.intents.get? intentId).any fun entry =>
    entry.effect.type == type && entry.effect.laneId == laneId

def dropIntent (intentId : String) : Reducer PUnit :=
  changeState fun s => { s with intents := s.intents.erase intentId }

def applyChecked (ctx : Context) (id intentId : String) (commandPassed : Bool)
    (reviewPassed : Option Bool) : Reducer PUnit := do
  dropIntent intentId
  let s ← getState
  let passed := commandPassed &&
    (!s.input.template.checks.asksReview || reviewPassed == some true)
  changeLane id fun lane => { lane with checksPassed := some passed }
  if !passed then fail ctx id "check_failed" else reconcile ctx id

def applyReport (ctx : Context) (lane : Lane) (report : LaneReport) : Reducer PUnit := do
  let s ← getState
  match report with
  | .usage spent => applyUsage ctx lane spent
  | .bound threadId worktree =>
    when (lane.phase ≠ .queued) (applyBound lane threadId worktree)
  | .stopped intentId =>
    when (lane.phase = .cancelling ∧ s.pends intentId .cancel lane.id = true) do
      if lane.children = 0 then finish ctx lane.id .cancelled
      else changeLane lane.id fun lane => { lane with threadDone := true }
  | .thread status => applyThread ctx lane.id status
  | .artifact artifact =>
    when (!terminal lane.phase ∧ lane.phase ≠ .cancelling ∧ lane.phase ≠ .checking) do
      changeLane lane.id fun lane => { lane with artifact := some artifact }
      reconcile ctx lane.id
  | .checked intentId commandPassed reviewPassed =>
    when (lane.phase = .checking ∧ s.pends intentId .check lane.id = true)
      (applyChecked ctx lane.id intentId commandPassed reviewPassed)
  | .executionFailed intentId operation error =>
    when (s.pends intentId operation.type lane.id = true) do
      dropIntent intentId
      if operation = .merge then changeState fun s => { s with mergeStatus := .failed }
      else when (lane.phase ≠ .cancelling ∧ !terminal lane.phase) (fail ctx lane.id error)
  | .merged intentId safetyCheckpoint =>
    when (s.mergeStatus = .pending ∧ s.winner = some lane.id ∧
        (s.intents.get? intentId).any (·.effect.type == .merge)) do
      dropIntent intentId
      changeState fun s =>
        { s with mergeStatus := .applied, safetyCheckpoint := some safetyCheckpoint }
      emit (.merged lane.id safetyCheckpoint)

/-! ### Facts -/

def receiptKey (parentId : String) (attempt : Nat) (requestId : String) : String :=
  parentId ++ ":" ++ toString attempt ++ ":" ++ requestId

def applySpawn (ctx : Context) (parentId : String) (attempt : Nat) (requestId : String)
    (spec : LaneSpec) (prompt : String) : Reducer PUnit := do
  let s ← getState
  let receipt := receiptKey parentId attempt requestId
  if s.spawnReceipts.contains receipt then return
  match (s.lanes.get? parentId).filter fun parent =>
      s.input.template.kind = .coordinator ∧ parent.attempt = attempt ∧ !terminal parent.phase ∧
        parent.phase ≠ .cancelling ∧ s.stopReason = none with
  | none => reject "spawn_not_allowed"
  | some parent =>
    if s.input.template.budget.maxDepth ≤ parent.depth then reject "depth_limit"
    else if s.input.template.budget.maxLanes ≤ s.lanes.keys.length then reject "lane_limit"
    else do
      let child ← addLane ctx spec prompt 0 (some parent)
      changeState fun s => { s with spawnReceipts := s.spawnReceipts.put receipt child }
      start ctx child none
      when (parent.threadDone = true) do
        clearChecks parent.id
        phase parent.id .joining

def applyPick (ctx : Context) (laneId : String) (merge : Bool) : Reducer PUnit := do
  let s ← getState
  match (s.lanes.get? laneId).filter fun lane =>
      s.stopReason ≠ some .budget_exhausted ∧ s.stopReason ≠ some .cancelled ∧
        lane.phase = .succeeded ∧ lane.artifact.isSome ∧ s.mergeStatus ≠ .pending ∧
        s.mergeStatus ≠ .applied with
  | none => reject "winner_not_available"
  | some lane => do
    changeState fun s => { s with
      winner := some lane.id
      mergeStatus := if s.mergeStatus = .failed then .none else s.mergeStatus }
    emit (.winner lane.id)
    cancelAll ctx .winner (some lane.id)
    changeState fun s => { s with mergeRequested := merge }

def applyFact (ctx : Context) (fact : Fact) : Reducer PUnit := do
  let s ← getState
  match fact with
  | .ack intentId => dropIntent intentId
  | .cancel =>
    when (0 < s.open_ ∨ s.mergeStatus = .pending) (cancelAll ctx .cancelled none)
  | .spawn parentId attempt requestId spec prompt =>
    applySpawn ctx parentId attempt requestId spec prompt
  | .pick laneId merge => applyPick ctx laneId merge
  | .report laneId attempt report =>
    whenSome ((s.lanes.get? laneId).filter (·.attempt = attempt)) fun lane =>
      applyReport ctx lane report
  | .tick => return

/-- A run past its budget is cancelled before the fact is looked at. -/
def enforceBudget (ctx : Context) : Reducer PUnit := do
  let s ← getState
  when ((s.stopReason = none ∨ s.stopReason = some .winner) ∧
      (0 < s.open_ ∨ s.mergeStatus = .pending) ∧ overBudget s ctx = true)
    (cancelAll ctx .budget_exhausted none)

def foldFact (ctx : Context) (fact : Fact) : Reducer PUnit := do
  validateClock ctx
  refuse (fact.valid = false) (.invalid "OrchestrationFact")
  enforceBudget ctx
  applyFact ctx fact
  updateStatus ctx

def apply (ctx : Context) (fact : Fact) (s : State) : Except Fault Mutation :=
  (foldFact ctx fact { state := s }).map (·.2)

end Ace.Orchestrator
