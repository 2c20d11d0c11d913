import Ace.Orchestrator.Reduce

/-!
# Recovery

`recover` checks a durable state before a run goes on: its schema, the lane tree and its
counters, the spawn receipts, and that what is pending is what the phases ask for.
-/

namespace Ace.Orchestrator

open Script

/-! ### The schema of a state -/

/-- The bounds on a lane, its child counts aside. -/
def Lane.contentValid (lane : Lane) : Bool :=
  isOrchestrationId lane.id && lane.spec.valid && lengthWithin 1 33024 lane.prompt &&
    decide (lane.stage ≤ maxSafeInteger) && decide (lane.depth ≤ 8) &&
    lane.parentId.all isOrchestrationId && lane.threadId.all (· != "") && lane.worktree.all isRef &&
    isAttempt lane.attempt && decide (lane.startedAt ≤ maxSafeInteger) &&
    lane.endedAt.all (fun time => decide (time ≤ maxSafeInteger)) && lane.usage.valid &&
    lane.attemptUsage.valid && lane.artifact.all Artifact.valid && lane.input.all Artifact.valid &&
    lane.error.all (lengthWithin 0 8192)

/-- `z.number().int().nonnegative().max(64)`. -/
def isCount (n : Int) : Bool := decide (0 ≤ n ∧ n ≤ 64)

def Lane.valid (lane : Lane) : Bool :=
  lane.contentValid && isCount lane.children && isCount lane.failedChildren

def Effect.valid (effect : Effect) : Bool :=
  isOrchestrationId effect.laneId && isAttempt effect.attempt &&
    match effect with
    | .start _ _ prompt spec input =>
      lengthWithin 0 33024 prompt && spec.valid && input.all Artifact.valid
    | .check _ _ artifact => artifact.valid
    | .cancel .. => true
    | .merge _ _ checkpoint => lengthWithin 0 512 checkpoint

def Intent.valid (entry : Intent) : Bool := isOrchestrationId entry.id && entry.effect.valid

/-- The bounds on the members that are no record and no count. -/
def State.headValid (s : State) : Bool :=
  isOrchestrationId s.id && isOrchestrationId s.runId && s.input.valid &&
    decide (s.startedAt ≤ maxSafeInteger) && s.usage.valid && s.winner.all isOrchestrationId &&
    s.safetyCheckpoint.all (lengthWithin 0 512)

def State.valid (s : State) : Bool :=
  s.headValid &&
    s.lanes.entries.all (fun (key, lane) => isOrchestrationId key && lane.valid) &&
    decide (s.lanes.keys.length ≤ 64) &&
    s.intents.entries.all (fun (key, entry) => isOrchestrationId key && entry.valid) &&
    decide (s.intents.keys.length ≤ 129) &&
    s.spawnReceipts.entries.all
      (fun (key, child) => lengthWithin 0 300 key && isOrchestrationId child) &&
    decide (s.spawnReceipts.keys.length ≤ 64) &&
    isCount s.open_ && isCount s.waiting && isCount s.succeeded && isCount s.failed

/-! ### What may be executed -/

def canExecute (s : State) (lane : Lane) : Effect → Bool
  | .start .. => s.stopReason.isNone &&
      [LanePhase.starting, .working, .waiting, .collecting, .checking, .joining].contains lane.phase
  | .check _ _ artifact => s.stopReason.isNone && lane.phase == .checking && lane.threadDone &&
      lane.children == 0 && lane.checksPassed == none &&
      lane.artifact.map (·.checkpoint) == some artifact.checkpoint
  | .cancel .. => s.stopReason.isSome && lane.phase == .cancelling
  | .merge _ _ checkpoint => s.stopReason == some .winner && s.mergeRequested &&
      s.mergeStatus == .pending && s.winner == some lane.id && s.open_ == 0 &&
      lane.phase == .succeeded && lane.artifact.map (·.checkpoint) == some checkpoint

/-! ### The checks of a recovery -/

def require (condition : Bool) (fault : Fault) : Except Fault PUnit :=
  if condition then .ok ⟨⟩ else .error fault

def openChild (parentId : String) (lane : Lane) : Bool :=
  lane.parentId == some parentId && !terminal lane.phase

def failedChild (parentId : String) (lane : Lane) : Bool :=
  lane.parentId == some parentId && terminal lane.phase && lane.phase != .succeeded

/-- How many lanes pass `p`. -/
def State.laneCount (s : State) (p : Lane → Bool) : Int := s.lanes.values.countP p

def recoverPlace (s : State) (entry : String × Lane) : Except Fault PUnit := do
  let (key, lane) := entry
  require (key == lane.id && decide (lane.depth ≤ s.input.template.budget.maxDepth))
    (.error "Invalid lane identity or depth")
  match lane.parentId with
  | some parentId =>
    require ((s.lanes.get? parentId).any (·.depth + 1 == lane.depth)) (.error "Invalid parent tree")
  | none => require (lane.depth == 0) (.error "Invalid root depth")

def recoverLane (s : State) (lane : Lane) : Except Fault PUnit := do
  require (lane.children == s.laneCount (openChild lane.id) &&
    lane.failedChildren == s.laneCount (failedChild lane.id)) (.error "Invalid child count")
  require (!(s.stopReason.isSome && !terminal lane.phase && lane.phase != .cancelling))
    (.error "Invalid stopped lane phase")
  require (lane.threadId.isNone == lane.worktree.isNone) (.error "Incomplete binding")
  require (!(terminal lane.phase && decide (0 < lane.children))) (.error "Unfinished descendants")
  require (!(lane.phase == .succeeded &&
    (!lane.threadDone || lane.artifact.isNone || lane.checksPassed != some true)))
    (.error "Unchecked success")

/-- `String(Number(text)) === text` for a safe integer from 1 to `limit`. -/
def namesAttempt (limit : Nat) (text : String) : Bool :=
  (List.range limit).any fun n => toString (n + 1) == text

/-- `key.split(":")`. -/
def splitReceipt (key : String) : List String := (key.toList.splitOn ':').map String.ofList

def receiptHolds (s : State) (key childId : String) : Bool :=
  match splitReceipt key with
  | [parentId, attemptText, requestId] =>
    s.input.template.kind == .coordinator && isOrchestrationId parentId &&
      isOrchestrationId requestId &&
      (s.lanes.get? parentId).any (fun parent => namesAttempt parent.attempt attemptText) &&
      (s.lanes.get? childId).any (·.parentId == some parentId)
  | _ => false

/-- Check the receipts in order; the children they name. -/
def recoverReceipts (s : State) : List (String × String) → List String →
    Except Fault (List String)
  | [], seen => .ok seen
  | (key, childId) :: rest, seen => do
    require (receiptHolds s key childId && !seen.contains childId) (.error "Invalid spawn receipt")
    recoverReceipts s rest (childId :: seen)

/-- Check the intents in order; the operations that are pending. -/
def recoverIntents (s : State) : List (String × Intent) → List (String × EffectType) →
    Except Fault (List (String × EffectType))
  | [], seen => .ok seen
  | (key, entry) :: rest, seen => do
    match s.lanes.get? entry.effect.laneId with
    | none => throw (.error "Invalid intent ownership")
    | some lane =>
      require (key == entry.id && lane.attempt == entry.effect.attempt)
        (.error "Invalid intent ownership")
      require (canExecute s lane entry.effect) (.error "Invalid intent phase")
      require (!seen.contains (lane.id, entry.effect.type)) (.error "Duplicate intent operation")
      recoverIntents s rest ((lane.id, entry.effect.type) :: seen)

/-- The operation that a phase waits for. -/
def Lane.required (lane : Lane) : Option EffectType :=
  match lane.phase with
  | .starting => some .start
  | .checking => some .check
  | .cancelling => if lane.threadDone then none else some .cancel
  | _ => none

def recover (s : State) : Except Fault (State × List Intent) := do
  require s.valid (.invalid "OrchestrationState")
  let count := s.lanes.keys.length
  require (decide (count ≤ s.input.template.budget.maxLanes) && count != 0)
    (.error "Invalid lane count")
  s.lanes.entries.forM (recoverPlace s)
  s.lanes.values.forM (recoverLane s)
  let receipted ← recoverReceipts s s.spawnReceipts.entries []
  s.lanes.values.forM fun lane =>
    require (lane.parentId.isNone || receipted.contains lane.id) (.error "Missing spawn receipt")
  require (s.open_ == s.laneCount (!terminal ·.phase) &&
    s.waiting == s.laneCount (isWaiting ·.phase) &&
    s.succeeded == s.laneCount (·.phase == .succeeded) &&
    s.failed == s.laneCount (·.phase == .failed)) (.error "Invalid lifecycle counters")
  require (s.status == runStatus s) (.error "Invalid run status")
  require (s.winner.all fun winner => (s.lanes.get? winner).any (·.phase == .succeeded))
    (.error "Invalid winner")
  let operations ← recoverIntents s s.intents.entries []
  s.lanes.values.forM fun lane =>
    require (lane.required.all fun type => operations.contains (lane.id, type))
      (.error "Missing lifecycle intent")
  require (s.mergeStatus != .pending ||
    s.winner.any (fun winner => operations.contains (winner, .merge)))
    (.error "Missing merge intent")
  return (s, s.intents.values)

end Ace.Orchestrator
