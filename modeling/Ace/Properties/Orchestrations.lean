import Ace.Properties.RunSteps

/-!
# Counters and tree of an orchestration

Every state that a run reaches, by whatever facts, is at rest: its counters are the counts
they stand for, in the run and in each lane, nothing is open below a lane that is over, and
a run that stops leaves no lane at work.

## Main result

`consistent_of_reached`: every reached state is `Consistent`.
-/

namespace Ace.Orchestrator

open Script Script.Command

variable {ctx : Context} {s : State}

/-! ### Reached states -/

/-- A run starts with `create`, or with `rerun` of some earlier one. -/
inductive Started : Mutation → Prop where
  | create {ctx : Context} {input : Create} {m : Mutation} (ok : create ctx input = .ok m) :
      Started m
  | rerun {ctx : Context} {previous : State} {m : Mutation}
      (valid : isOrchestrationId previous.id = true) (ok : rerun ctx previous = .ok m) : Started m

/-- The states of runs: any facts, in any order. -/
inductive Reached : State → Prop where
  | start {m : Mutation} (started : Started m) : Reached m.state
  | step {ctx : Context} {fact : Fact} {s : State} {m : Mutation} (before : Reached s)
      (ok : apply ctx fact s = .ok m) : Reached m.state

theorem Started.beginning (strict : Prop) {m : Mutation} (started : Started m) :
    ∃ input, Beginning strict input [] m.state ∧ 1 ≤ input.template.lanes.length := by
  have nonempty : ∀ {input : Create}, input.valid = true → 1 ≤ input.template.lanes.length := by
    intro input valid
    simp only [Create.valid, Template.valid, Bool.and_eq_true, decide_eq_true_eq] at valid
    exact valid.2.1.1.1.1.1.1
  cases started with
  | @create ctx input m ok =>
    unfold Orchestrator.create at ok
    split at ok
    next => cases ok
    next checked =>
      have valid : input.valid = true := by simpa using checked
      dsimp only at ok
      split at ok
      next id_valid =>
        have run := initializeRun_spec ctx strict id_valid valid 1
        rw [ok] at run
        exact ⟨input, run, nonempty valid⟩
      next => cases ok
  | @rerun ctx previous m id_valid ok =>
    unfold Orchestrator.rerun at ok
    split at ok
    next => cases ok
    next =>
      split at ok
      next => cases ok
      next checked =>
        have valid : previous.input.valid = true := by simpa using checked
        have run := initializeRun_spec ctx strict id_valid valid 0
        rw [ok] at run
        exact ⟨previous.input, run, nonempty valid⟩

theorem Beginning.status {strict : Prop} {input : Create} (beginning : Beginning strict input [] s)
    (nonempty : 1 ≤ input.template.lanes.length) : s.status = runStatus s := by
  have total := beginning.total
  simp only [List.length_nil, Nat.add_zero] at total
  have busy : 0 < s.open_ := by
    rw [beginning.open_eq]
    omega
  simp [runStatus, busy, beginning.running, beginning.unwaiting, beginning.status_eq]

theorem apply_eq_ok {fact : Fact} {m : Mutation} :
    apply ctx fact s = .ok m ↔ foldFact ctx fact { state := s } = .ok (⟨⟩, m) := by
  unfold apply
  cases foldFact ctx fact { state := s } with
  | error e => simp [Except.map]
  | ok result =>
    obtain ⟨_, m'⟩ := result
    simp [Except.map]

theorem apply_spec {strict : Prop} {fact : Fact} {m : Mutation} (rest : Rest strict s)
    (permitted : strict → ∀ s₁, Rest strict s₁ →
      (s₁ = s ∨ overBudget s ctx = true ∧ Stops .budget_exhausted s s₁) → Permitted s₁ fact)
    (ok : apply ctx fact s = .ok m) :
    Rest strict m.state ∧ m.state.status = runStatus m.state ∧
      ∀ l lane', m.state.lanes.get? l = some lane' → lane'.phase = .succeeded →
        Succeeds s l fact ∨ ∃ lane, s.lanes.get? l = some lane ∧ lane.phase = .succeeded :=
  (foldFact_spec (w := { state := s }) rest fact permitted).ensures ⟨⟩ m (apply_eq_ok.mp ok)

/-- What every reached state is like; acknowledgements may come at any time, so that nothing
is known of the intents that a lane waits for. -/
theorem Reached.rest (reached : Reached s) : Rest False s ∧ s.status = runStatus s := by
  induction reached with
  | start started =>
    obtain ⟨input, beginning, nonempty⟩ := started.beginning False
    exact ⟨beginning.rest, beginning.status nonempty⟩
  | @step ctx fact s m before ok ih =>
    obtain ⟨rest, status, -⟩ := apply_spec ih.1 (fun impossible => impossible.elim) ok
    exact ⟨rest, status⟩

/-- The facts applied one after another, each in its context. -/
def applyAll : List (Context × Fact) → State → Except Fault State
  | [], s => .ok s
  | (ctx, fact) :: rest, s => do
    let m ← apply ctx fact s
    applyAll rest m.state

theorem Reached.applyAll {steps : List (Context × Fact)} {s' : State} (reached : Reached s)
    (ok : applyAll steps s = .ok s') : Reached s' := by
  induction steps generalizing s with
  | nil =>
    cases ok
    exact reached
  | cons first rest ih =>
    obtain ⟨ctx, fact⟩ := first
    simp only [Orchestrator.applyAll] at ok
    cases step : apply ctx fact s with
    | error e =>
      rw [step] at ok
      cases ok
    | ok m =>
      rw [step] at ok
      exact ih (reached.step step) ok

/-! ### The counters -/

/-- The counters of the run and of each lane are exact, and phases fit the tree and the run. -/
structure Consistent (s : State) : Prop where
  open_eq : s.open_ = s.laneCount (!terminal ·.phase)
  waiting_eq : s.waiting = s.laneCount (isWaiting ·.phase)
  succeeded_eq : s.succeeded = s.laneCount (·.phase == .succeeded)
  failed_eq : s.failed = s.laneCount (·.phase == .failed)
  children_eq : ∀ l lane, s.lanes.get? l = some lane → lane.children = s.laneCount (openChild l)
  failedChildren_eq : ∀ l lane, s.lanes.get? l = some lane →
    lane.failedChildren = s.laneCount (failedChild l)
  closed : ∀ l lane k child, s.lanes.get? l = some lane → terminal lane.phase = true →
    s.lanes.get? k = some child → child.parentId = some l → terminal child.phase = true
  stopped : s.stopReason.isSome = true → ∀ l lane, s.lanes.get? l = some lane →
    terminal lane.phase = false → lane.phase = .cancelling
  winner : ∀ l, s.winner = some l → ∃ lane, s.lanes.get? l = some lane ∧ lane.phase = .succeeded
  status_eq : s.status = runStatus s

theorem Rest.childless {strict : Prop} (rest : Rest strict s) {l k : String} {lane child : Lane}
    (here : s.lanes.get? l = some lane) (none_open : lane.children = 0)
    (below : s.lanes.get? k = some child) (nested : child.parentId = some l) :
    terminal child.phase = true := by
  have count := rest.children_eq l lane here
  have nothing : tally (openChild l) s.lanes = 0 := by
    rw [← count, none_open]
    rfl
  have closed := (tally_eq_zero_iff _ _).mp nothing k child below
  simpa [openChild, nested] using closed

theorem Rest.consistent {strict : Prop} (rest : Rest strict s) (status : s.status = runStatus s) :
    Consistent s where
  open_eq := rest.open_eq
  waiting_eq := rest.waiting_eq
  succeeded_eq := rest.succeeded_eq
  failed_eq := rest.failed_eq
  children_eq l lane here := by
    have count := rest.children_eq l lane here
    rw [show ({ strict } : Ghost).debt l = 0 from rfl, Int.add_zero] at count
    exact count
  failedChildren_eq l lane here := by
    have count := rest.failedChildren_eq l lane here
    rw [show ({ strict } : Ghost).stale l = 0 from rfl, Int.add_zero] at count
    exact count
  closed l lane k child here isOver below nested :=
    rest.childless here ((rest.proper l lane here).isOver isOver) below nested
  stopped stop l lane here going := by
    rcases (rest.proper l lane here).halted stop going with cancelling | impossible
    · exact cancelling
    · exact impossible.elim
  winner := rest.winner
  status_eq := status

/-- Whatever facts a run is given, its counters are exact. -/
theorem consistent_of_reached (s : State) (reached : Reached s) : Consistent s :=
  reached.rest.1.consistent reached.rest.2

/-! ### A sample run -/

/-- At each moment of the sample, ids that name the moment. -/
def sampleContext (moment : Nat) : Context where
  now := moment
  ids kind drawn :=
    let letter := match kind with
      | .orchestration => "o"
      | .run => "r"
      | .lane => "l"
      | .intent => "i"
    letter ++ toString moment ++ "-" ++ toString drawn

def sampleSpec : LaneSpec := { provider := .codex, model := "model" }

def sampleCreate (kind : TemplateKind) (lanes : Nat) : Create where
  workspaceId := "workspace"
  prompt := "Build it"
  baseRef := "0123456789012345678901234567890123456789"
  targetBranch := "main"
  template := {
    kind
    lanes := List.replicate lanes sampleSpec
    checks := { command := ["test"] }
    budget := { maxLanes := 4, maxDepth := 2, maxAttempts := 2, durationMs := 1000, tokens := 1000,
                cost := 10 } }

def atMoments (first : Nat) (facts : List Fact) : List (Context × Fact) :=
  facts.zipIdx.map fun (fact, n) => (sampleContext (first + n), fact)

/-- A new run, and facts for it. -/
def sampleRun (input : Create) (facts : List Fact) : Except Fault State := do
  let m ← create (sampleContext 0) input
  applyAll (atMoments 1 facts) m.state

theorem reached_sampleRun {input : Create} {facts : List Fact} (ok : sampleRun input facts = .ok s) :
    Reached s := by
  unfold sampleRun at ok
  cases created : create (sampleContext 0) input with
  | error e =>
    rw [created] at ok
    cases ok
  | ok m =>
    rw [created] at ok
    exact (Reached.start (.create created)).applyAll ok

/-- The lead of a coordinator has asked for a helper and waits for it. -/
def sampleFacts : List Fact := [
  .report "l0-2" 1 (.bound "thread" "tree"),
  .spawn "l0-2" 1 "request" sampleSpec "Help",
  .report "l0-2" 1 (.thread .done)]

theorem sampleRun_reaches {input : Create} {facts : List Fact} {p : State → Bool}
    (ok : (sampleRun input facts).toOption.any p = true) :
    ∃ s, sampleRun input facts = .ok s ∧ p s = true := by
  cases run : sampleRun input facts with
  | error e =>
    rw [run] at ok
    cases ok
  | ok s =>
    rw [run] at ok
    exact ⟨s, rfl, ok⟩

theorem consistent_of_sampleFacts :
    ∃ s lead, Reached s ∧ Consistent s ∧ s.lanes.get? "l0-2" = some lead ∧
      lead.phase = .joining ∧ lead.children = 1 ∧ s.open_ = 2 ∧ s.status = .waiting := by
  obtain ⟨s, run, holds⟩ := sampleRun_reaches
    (show (sampleRun (sampleCreate .coordinator 1) sampleFacts).toOption.any (fun s =>
      (s.lanes.get? "l0-2").any (fun lead => lead.phase = .joining ∧ lead.children = 1) &&
        decide (s.open_ = 2 ∧ s.status = .waiting)) = true by decide +kernel)
  simp only [Bool.and_eq_true, Option.any_eq_true, decide_eq_true_eq] at holds
  obtain ⟨⟨lead, here, joining, one⟩, two, waiting⟩ := holds
  have reached := reached_sampleRun run
  exact ⟨s, lead, reached, consistent_of_reached s reached, here, joining, one, two, waiting⟩

end Ace.Orchestrator
