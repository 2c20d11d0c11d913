import Ace.Core.State
import Ace.Script.Schema

/-!
# Orchestration state

A run of one template: its lanes, the intents that the host still has to carry out, and the
counters that are kept beside them. Protocol data is typed; the bounds that a schema puts on
it are the `valid` checks.
-/

namespace Ace.Orchestrator

open Script Script.Command

/-! ### Protocol data -/

/-- `/^[a-zA-Z0-9][a-zA-Z0-9_.-]*$/`, at most 128 characters, and no name of a prototype. -/
def isOrchestrationId (id : String) : Bool :=
  let alphanumeric (c : Char) : Bool := c.isAlphanum
  match id.toList with
  | [] => false
  | c :: rest => alphanumeric c &&
      rest.all (fun c => alphanumeric c || c == '_' || c == '.' || c == '-') &&
      decide (rest.length < 128) && !(["__proto__", "constructor", "prototype"].contains id)

def lengthWithin (low high : Nat) (text : String) : Bool :=
  decide (low ≤ utf16Length text ∧ utf16Length text ≤ high)

def isRef (text : String) : Bool := lengthWithin 1 512 text

inductive AccessMode where
  | readOnly | ask | autoReview | fullAccess
  deriving DecidableEq, Repr

structure LaneSpec where
  provider : ProviderKind
  model : String
  access : Option AccessMode := none
  deriving DecidableEq, Repr

def LaneSpec.valid (spec : LaneSpec) : Bool := isRef spec.model

structure Checks where
  command : List String
  review : Option String := none
  deriving DecidableEq, Repr

def Checks.valid (checks : Checks) : Bool :=
  decide (1 ≤ checks.command.length ∧ checks.command.length ≤ 64) &&
    checks.command.all (fun arg => lengthWithin 0 4096 arg && !arg.toList.contains '\x00') &&
    checks.command.head? != some "" && checks.review.all (lengthWithin 0 8192)

def Checks.asksReview (checks : Checks) : Bool := checks.review.any (· ≠ "")

structure Budget where
  maxLanes : Nat
  maxDepth : Nat
  maxAttempts : Nat
  durationMs : Nat
  tokens : Nat
  cost : ℚ
  deriving DecidableEq, Repr

def Budget.valid (budget : Budget) : Bool :=
  decide (1 ≤ budget.maxLanes ∧ budget.maxLanes ≤ 64) && decide (budget.maxDepth ≤ 8) &&
    decide (1 ≤ budget.maxAttempts ∧ budget.maxAttempts ≤ 10) &&
    decide (0 < budget.durationMs ∧ budget.durationMs ≤ maxSafeInteger) &&
    decide (0 < budget.tokens ∧ budget.tokens ≤ maxSafeInteger) &&
    decide (0 < budget.cost ∧ budget.cost ≤ maxSafeInteger)

inductive TemplateKind where
  | fanout | pipeline | race | coordinator
  deriving DecidableEq, Repr

structure Template where
  kind : TemplateKind
  lanes : List LaneSpec
  checks : Checks
  budget : Budget
  deriving DecidableEq, Repr

def Template.valid (template : Template) : Bool :=
  decide (1 ≤ template.lanes.length ∧ template.lanes.length ≤ 64) &&
    template.lanes.all LaneSpec.valid && template.checks.valid && template.budget.valid &&
    decide (template.lanes.length ≤ template.budget.maxLanes) &&
    (template.kind != .coordinator || template.lanes.length == 1)

structure Create where
  workspaceId : String
  prompt : String
  baseRef : String
  targetBranch : String
  template : Template
  deriving DecidableEq, Repr

/-- A pinned commit: 40 or 64 lowercase hexadecimal digits. -/
def isCommit (ref : String) : Bool :=
  (ref.toList.length == 40 || ref.toList.length == 64) &&
    ref.toList.all fun c => c.isDigit || ('a' ≤ c && c ≤ 'f')

def Create.valid (create : Create) : Bool :=
  create.workspaceId != "" && lengthWithin 1 32768 create.prompt && isCommit create.baseRef &&
    isRef create.targetBranch && create.template.valid

structure TestResults where
  passed : Nat
  failed : Nat
  outputRef : Option String := none
  deriving DecidableEq, Repr

structure Artifact where
  checkpoint : String
  summary : String
  diffRef : Option String := none
  tests : TestResults
  deriving DecidableEq, Repr

def Artifact.valid (artifact : Artifact) : Bool :=
  isRef artifact.checkpoint && lengthWithin 0 8192 artifact.summary &&
    artifact.diffRef.all isRef && decide (artifact.tests.passed ≤ maxSafeInteger) &&
    decide (artifact.tests.failed ≤ maxSafeInteger) && artifact.tests.outputRef.all isRef

structure Usage where
  tokens : Nat := 0
  cost : ℚ := 0
  deriving DecidableEq, Repr

def Usage.valid (usage : Usage) : Bool :=
  decide (usage.tokens ≤ maxSafeInteger) && decide (0 ≤ usage.cost ∧ usage.cost ≤ maxSafeInteger)

inductive LanePhase where
  | queued | starting | working | waiting | collecting | checking | joining
  | succeeded | failed | cancelling | cancelled
  deriving DecidableEq, Repr

structure Lane where
  id : String
  spec : LaneSpec
  prompt : String
  stage : Nat
  depth : Nat
  parentId : Option String := none
  threadId : Option String := none
  worktree : Option String := none
  phase : LanePhase
  attempt : Nat
  startedAt : Nat
  endedAt : Option Nat := none
  threadDone : Bool
  children : Int
  failedChildren : Int
  usage : Usage := {}
  attemptUsage : Usage := {}
  artifact : Option Artifact := none
  input : Option Artifact := none
  checksPassed : Option Bool := none
  error : Option String := none
  deriving DecidableEq, Repr

inductive Effect where
  | start (laneId : String) (attempt : Nat) (prompt : String) (spec : LaneSpec)
      (input : Option Artifact)
  | check (laneId : String) (attempt : Nat) (artifact : Artifact)
  | cancel (laneId : String) (attempt : Nat)
  | merge (laneId : String) (attempt : Nat) (checkpoint : String)
  deriving DecidableEq, Repr

inductive EffectType where
  | start | check | cancel | merge
  deriving DecidableEq, Repr

namespace Effect

def laneId : Effect → String
  | start laneId .. => laneId
  | check laneId .. => laneId
  | cancel laneId _ => laneId
  | merge laneId .. => laneId

def attempt : Effect → Nat
  | start _ attempt .. => attempt
  | check _ attempt _ => attempt
  | cancel _ attempt => attempt
  | merge _ attempt _ => attempt

def type : Effect → EffectType
  | start .. => .start
  | check .. => .check
  | cancel .. => .cancel
  | merge .. => .merge

end Effect

structure Intent where
  id : String
  effect : Effect
  deriving DecidableEq, Repr

inductive RunStatus where
  | running | waiting | cancelling | succeeded | failed | cancelled | budget_exhausted
  deriving DecidableEq, Repr

inductive StopReason where
  | cancelled | budget_exhausted | winner
  deriving DecidableEq, Repr

inductive MergeStatus where
  | none | pending | applied | failed
  deriving DecidableEq, Repr

structure State where
  id : String
  runId : String
  input : Create
  startedAt : Nat
  status : RunStatus := .running
  stopReason : Option StopReason := none
  lanes : Dictionary Lane := .empty
  intents : Dictionary Intent := .empty
  /-- The child of each spawn request, by `parent:attempt:request`. -/
  spawnReceipts : Dictionary String := .empty
  open_ : Int := 0
  waiting : Int := 0
  succeeded : Int := 0
  failed : Int := 0
  usage : Usage := {}
  winner : Option String := none
  mergeRequested : Bool := false
  mergeStatus : MergeStatus := .none
  safetyCheckpoint : Option String := none
  deriving DecidableEq

inductive Event where
  | lane (laneId : String) (phase : LanePhase)
  | status (status : RunStatus)
  | winner (laneId : String)
  | rejected (reason : String)
  | merged (laneId : String) (safetyCheckpoint : String)
  deriving DecidableEq, Repr

/-! ### Mutations -/

inductive IdKind where
  | orchestration | run | lane | intent
  deriving DecidableEq, Repr

/-- The clock, and the ids of one call in the order it asks for them. -/
structure Context where
  now : Int
  ids : IdKind → Nat → String

/-- The state that one call mutates, with the ids it has drawn and its result so far. -/
structure Mutation where
  state : State
  drawn : Nat := 0
  events : List Event := []
  intents : List Intent := []
  deriving DecidableEq

abbrev Reducer := Command Mutation Fault

def getState : Reducer State := do return (← get).state

def changeState (f : State → State) : Reducer PUnit := modify fun m => { m with state := f m.state }

def emit (event : Event) : Reducer PUnit := modify fun m => { m with events := m.events ++ [event] }

/-- A lane that code holds a reference to. -/
def getLane (id : String) : Reducer Lane := do
  match (← getState).lanes.get? id with
  | some lane => return lane
  | none => throw .typeError

def changeLane (id : String) (f : Lane → Lane) : Reducer PUnit :=
  changeState fun s => { s with lanes := s.lanes.modify id f }

/-- `OrchestrationId.parse(ctx.ids.next(kind))`. -/
def nextId (ctx : Context) (kind : IdKind) : Reducer String := do
  let m ← get
  set { m with drawn := m.drawn + 1 }
  let id := ctx.ids kind m.drawn
  if isOrchestrationId id then return id else throw (.invalid "OrchestrationId")

def validateClock (ctx : Context) : Reducer PUnit :=
  refuse (ctx.now < 0 ∨ (maxSafeInteger : Int) < ctx.now) (.error "Invalid injected clock")

/-- The clock as a count. -/
def Context.time (ctx : Context) : Nat := ctx.now.toNat

def terminal : LanePhase → Bool
  | .succeeded | .failed | .cancelled => true
  | _ => false

def isWaiting : LanePhase → Bool
  | .waiting | .joining => true
  | _ => false

/-- The counters after a lane went from one phase to another. -/
def State.recount (s : State) (before after : LanePhase) : State :=
  let change (p : LanePhase → Bool) : Int := (p after).toInt - (p before).toInt
  { s with
    open_ := s.open_ + change fun p => !terminal p
    waiting := s.waiting + change isWaiting
    succeeded := s.succeeded + change (· == .succeeded)
    failed := s.failed + change (· == .failed) }

def phase (id : String) (next : LanePhase) : Reducer PUnit := do
  let lane ← getLane id
  if lane.phase = next then return
  changeState (·.recount lane.phase next)
  changeLane id fun lane => { lane with phase := next }
  emit (.lane id next)

def intent (ctx : Context) (effect : Effect) : Reducer PUnit := do
  let id ← nextId ctx .intent
  refuse ((← getState).intents.contains id = true) (.error "Duplicate intent ID")
  changeState fun s => { s with intents := s.intents.put id { id, effect } }
  modify fun m => { m with intents := m.intents ++ [{ id, effect }] }

/-- Delete the intents whose effect passes `p`. -/
def dropIntents (p : Effect → Bool) : Reducer PUnit :=
  changeState fun s => { s with intents := s.intents.filter fun entry => !p entry.effect }

def clearChecks (id : String) : Reducer PUnit := do
  changeLane id fun lane => { lane with checksPassed := none }
  dropIntents fun effect => effect.laneId == id && effect.type == .check

def clearLaneIntents (id : String) : Reducer PUnit :=
  dropIntents fun effect => effect.laneId == id && effect.type != .merge

def start (ctx : Context) (id : String) (input : Option Artifact) : Reducer PUnit := do
  changeLane id fun lane => { lane with
    startedAt := if lane.attempt = 1 then ctx.time else lane.startedAt
    input := input.or lane.input }
  phase id .starting
  let lane ← getLane id
  intent ctx (.start id lane.attempt lane.prompt lane.spec lane.input)

/-- A new lane, queued. Its id. -/
def addLane (ctx : Context) (spec : LaneSpec) (prompt : String) (stage : Nat)
    (parent : Option Lane) : Reducer String := do
  let id ← nextId ctx .lane
  refuse ((← getState).lanes.contains id = true) (.error "Duplicate lane ID")
  let lane : Lane :=
    { id, spec, prompt, stage
      depth := parent.elim 0 (·.depth + 1)
      parentId := parent.map (·.id)
      phase := .queued
      attempt := 1
      startedAt := ctx.time
      threadDone := false
      children := 0
      failedChildren := 0 }
  changeState fun s => { s with lanes := s.lanes.put id lane, open_ := s.open_ + 1 }
  whenSome parent fun parent => changeLane parent.id fun lane =>
    { lane with children := lane.children + 1 }
  return id

def reject (reason : String) : Reducer PUnit := emit (.rejected reason)

/-! ### Starting a run -/

def pipelinePrompt (stage : Nat) (prompt : String) : String :=
  let instruction :=
    if stage = 0 then "Implement the task. Return a checkpoint, summary and test results."
    else if stage = 1 then "Review the input checkpoint and test results. " ++
      "Return a checkpoint and a summary of issues for the fix stage."
    else "Fix the issues in the input review artifact. " ++
      "Return a checkpoint, summary and test results."
  instruction ++ "\n\nTask:\n" ++ prompt

/-- The lanes of a template; all start at once, those of a pipeline one after another. -/
def startLane (ctx : Context) (input : Create) (entry : LaneSpec × Nat) : Reducer PUnit := do
  let (spec, stage) := entry
  let prompt := if input.template.kind = .pipeline then pipelinePrompt stage input.prompt
    else input.prompt
  let id ← addLane ctx spec prompt stage none
  when (input.template.kind ≠ .pipeline ∨ stage = 0) (start ctx id none)

def initializeRun (ctx : Context) (id : String) (input : Create) (drawn : Nat) :
    Except Fault Mutation :=
  let run : Reducer PUnit := do
    validateClock ctx
    let runId ← nextId ctx .run
    changeState fun s => { s with runId }
    (input.template.lanes.zipIdx).forM (startLane ctx input)
    emit (.status (← getState).status)
  (run { state := { id, runId := "", input, startedAt := ctx.time }, drawn }).map (·.2)

def create (ctx : Context) (input : Create) : Except Fault Mutation :=
  if !input.valid then .error (.invalid "OrchestrationCreate")
  else
    let id := ctx.ids .orchestration 0
    if isOrchestrationId id then initializeRun ctx id input 1
    else .error (.invalid "OrchestrationId")

def rerun (ctx : Context) (previous : State) : Except Fault Mutation :=
  if previous.open_ ≠ 0 ∨ previous.mergeStatus = .pending then .error (.error "run_still_active")
  else if !previous.input.valid then .error (.invalid "OrchestrationCreate")
  else initializeRun ctx previous.id previous.input 0

end Ace.Orchestrator
