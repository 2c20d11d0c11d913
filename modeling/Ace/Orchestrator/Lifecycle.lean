import Ace.Orchestrator.State

/-!
# The lifecycle of lanes

Finishing a lane settles its parent, which may finish in turn, and may cancel or start other
lanes. `finish` is the only function that calls itself, through the others; they take it as
a parameter. The recursion goes up the lane tree, and a root may drop queued lanes, so the
depth of a lane bounds it.
-/

namespace Ace.Orchestrator

open Script.Command

inductive Outcome where
  | succeeded | failed | cancelled
  deriving DecidableEq, Repr

def Outcome.phase : Outcome → LanePhase
  | succeeded => .succeeded
  | failed => .failed
  | cancelled => .cancelled

def dropMerge : Reducer PUnit := do
  when ((← getState).mergeStatus = .pending) do
    dropIntents (·.type == .merge)
    changeState fun s => { s with mergeStatus := .none }

section

variable (ctx : Context) (finish : String → Outcome → Reducer PUnit)

/-- Revived work gets a fresh cancellation intent; an existing cancellation keeps its
receipt. -/
def cancelLaneWith (id : String) : Reducer PUnit := do
  let lane ← getLane id
  if lane.phase = .cancelling then return
  if lane.phase = .queued then finish id .cancelled
  else do
    clearLaneIntents id
    changeLane id fun lane => { lane with threadDone := false }
    phase id .cancelling
    intent ctx (.cancel id lane.attempt)

/-- Cancel a lane that is not over yet. -/
def cancelOpen (except : Option String) (id : String) : Reducer PUnit := do
  let lane ← getLane id
  if some id = except ∨ terminal lane.phase ∨ lane.phase = .cancelling then return
  cancelLaneWith ctx finish id

def cancelAllWith (reason : StopReason) (except : Option String) : Reducer PUnit := do
  changeState fun s => { s with stopReason := some reason, mergeRequested := false }
  dropMerge
  (← getState).lanes.keys.forM (cancelOpen ctx finish except)

def failWith (id : String) (error : String) : Reducer PUnit := do
  changeLane id fun lane => { lane with error := some error }
  let lane ← getLane id
  let s ← getState
  if 0 < lane.children then
    changeLane id fun lane => { lane with checksPassed := some false, threadDone := true }
    phase id .joining
  else if s.stopReason = none ∧ lane.failedChildren = 0 ∧
      lane.attempt < s.input.template.budget.maxAttempts then
    clearLaneIntents id
    changeLane id fun lane => { lane with
      attempt := lane.attempt + 1
      threadDone := false
      attemptUsage := {}
      threadId := none
      worktree := none
      artifact := none
      checksPassed := none }
    start ctx id none
  else finish id .failed

def reconcileWith (id : String) : Reducer PUnit := do
  let lane ← getLane id
  if terminal lane.phase ∨ lane.phase = .cancelling ∨ !lane.threadDone then return
  if 0 < lane.children then phase id .joining
  else if 0 < lane.failedChildren ∨ lane.checksPassed = some false then
    failWith ctx finish id (lane.error.getD "descendant_failed")
  else
    match lane.artifact with
    | none => phase id .collecting
    | some artifact =>
      if lane.checksPassed = some true then finish id .succeeded
      else when (lane.phase ≠ .checking) do
        phase id .checking
        intent ctx (.check id lane.attempt artifact)

/-- A finished lane is no longer counted by its parent, which may be waiting for it. -/
def leaveParent (parentId : String) (outcome : Outcome) : Reducer PUnit := do
  match (← getState).lanes.get? parentId with
  | none => throw (.error "Missing parent")
  | some _ =>
    changeLane parentId fun parent => { parent with
      children := parent.children - 1
      failedChildren := if outcome ≠ .succeeded then parent.failedChildren + 1
        else parent.failedChildren }
    let parent ← getLane parentId
    if parent.phase = .cancelling ∧ parent.threadDone ∧ parent.children = 0 then
      finish parentId .cancelled
    else reconcileWith ctx finish parentId

/-- The first lane to succeed in a race wins it. -/
def winRace (id : String) (outcome : Outcome) : Reducer PUnit := do
  let s ← getState
  when (outcome = .succeeded ∧ s.input.template.kind = .race ∧ s.winner = none) do
    changeState fun s => { s with winner := some id }
    emit (.winner id)
    cancelAllWith ctx finish .winner (some id)

/-- The next stage of a pipeline starts with the artifact of the stage before it. -/
def continuePipeline (lane : Lane) (outcome : Outcome) : Reducer PUnit := do
  let s ← getState
  when (s.input.template.kind = .pipeline ∧ s.stopReason = none) do
    when (outcome = .failed) (cancelAllWith ctx finish .cancelled none)
    when (outcome = .succeeded) do
      let next := (← getState).lanes.values.find? fun l => l.stage == lane.stage + 1
      whenSome (next.filter (·.phase = .queued)) fun next => start ctx next.id lane.artifact

def finishWith (id : String) (outcome : Outcome) : Reducer PUnit := do
  let lane ← getLane id
  if terminal lane.phase then return
  clearLaneIntents id
  phase id outcome.phase
  changeLane id fun lane => { lane with endedAt := some ctx.time }
  whenSome lane.parentId fun parentId => leaveParent ctx finish parentId outcome
  winRace ctx finish id outcome
  continuePipeline ctx finish lane outcome

end

/-- `finish`, with a bound on how deep it goes. -/
def finishWithin (ctx : Context) : Nat → String → Outcome → Reducer PUnit
  | 0, _, _ => throw .depth
  | fuel + 1, id, outcome => finishWith ctx (finishWithin ctx fuel) id outcome

section

variable (ctx : Context)

def finish (id : String) (outcome : Outcome) : Reducer PUnit := do
  finishWithin ctx ((← getLane id).depth + 2) id outcome

def cancelAll (reason : StopReason) (except : Option String) : Reducer PUnit :=
  cancelAllWith ctx (finish ctx) reason except

def cancelLane (id : String) : Reducer PUnit := cancelLaneWith ctx (finish ctx) id

def fail (id : String) (error : String) : Reducer PUnit := failWith ctx (finish ctx) id error

def reconcile (id : String) : Reducer PUnit := reconcileWith ctx (finish ctx) id

end

/-! ### The status of a run -/

def runStatus (s : State) : RunStatus :=
  if 0 < s.open_ then
    if s.stopReason.isSome then .cancelling else if 0 < s.waiting then .waiting else .running
  else if s.mergeStatus = .pending then .running
  else if s.mergeStatus = .failed then .failed
  else if s.stopReason = some .budget_exhausted then .budget_exhausted
  else if s.stopReason = some .winner ∧ s.winner = none then
    if 0 < s.failed then .failed else .cancelled
  else if s.stopReason = some .cancelled then if 0 < s.failed then .failed else .cancelled
  else if s.winner.isSome ∨ (0 < s.succeeded ∧ s.input.template.kind = .fanout) ∨
      (s.failed = 0 ∧ 0 < s.succeeded) then .succeeded
  else .failed

/-- Ask for the merge of the winner once nothing is open. -/
def requestMerge (ctx : Context) : Reducer PUnit := do
  let s ← getState
  when (s.open_ = 0 ∧ s.mergeRequested ∧ s.mergeStatus = .none) do
    match s.winner.bind s.lanes.get? with
    | some lane => whenSome lane.artifact fun artifact => do
        changeState fun s => { s with mergeStatus := .pending }
        intent ctx (.merge lane.id lane.attempt artifact.checkpoint)
    | none => return

def updateStatus (ctx : Context) : Reducer PUnit := do
  requestMerge ctx
  let s ← getState
  when (runStatus s ≠ s.status) do
    changeState fun s => { s with status := runStatus s }
    emit (.status (runStatus s))

end Ace.Orchestrator
