import Ace.Orchestrator.Executor
import Ace.Properties.CheckedSuccess
import Ace.Properties.Recoverable

/-!
# Recovery of durable runs

A host reports the outcome of an intent as `execute` returns it, with the acknowledgement
right after it, and draws ids that were never used. In such a run every state can be
recovered, as long as no thread that reports work again takes up a finished lane beside a
pending merge: the merge is dropped only for the winner and what is below it.

## Main result

`recovers_of_hosted`: the states that `recover` returns unchanged, with their pending intents.
-/

namespace Ace.Orchestrator

open Script Script.Command

variable {ctx : Context} {s : State}

/-! ### Hosts -/

/-- The ids of the context name no intent of these states. -/
def NewIds (ctx : Context) (states : List State) : Prop :=
  ∀ n, ∀ s ∈ states, s.intents.get? (ctx.ids .intent n) = none

/-- What a host may report in `s`, after what is past, latest first. Outcomes may come late:
the intent was executed in `s` or in a state before it. -/
def Delivered (past : List (State × Fact)) (s : State) : Fact → Prop
  | .ack key => ∃ last outcome rest executed executor, past = (last, outcome) :: rest ∧
      executed ∈ past.map Prod.fst ∧ execute executed key executor = [outcome, .ack key]
  | .report l attempt report =>
    match report with
    | .executionFailed key .. => (s.intents.get? key).isSome = true
    | .bound .. | .checked .. | .stopped .. | .merged .. => ∃ executed key executor,
        executed ∈ s :: past.map Prod.fst ∧
          execute executed key executor = [.report l attempt report, .ack key]
    | .thread _ | .artifact _ | .usage _ => True
  | .spawn .. | .pick .. | .cancel | .tick => True

/-- Runs of a host all of whose steps meet a condition. -/
inductive Hosted (P : Context → Fact → State → Prop) : List (State × Fact) → State → Prop where
  | start {m : Mutation} (started : Started m) : Hosted P [] m.state
  | step {ctx : Context} {fact : Fact} {past : List (State × Fact)} {s : State} {m : Mutation}
      (before : Hosted P past s) (delivered : Delivered past s fact)
      (new : NewIds ctx (s :: past.map Prod.fst)) (meets : P ctx fact s)
      (ok : apply ctx fact s = .ok m) : Hosted P ((s, fact) :: past) m.state

/-- No thread takes up a finished lane beside a pending merge: within the budget, such a lane
is the winner or below it. -/
def Calm (ctx : Context) (fact : Fact) (s : State) : Prop :=
  ∀ l lane status, s.lanes.get? l = some lane → fact = .report l lane.attempt (.thread status) →
    reopens status lane.phase = true → s.mergeStatus = .pending → overBudget s ctx = false →
    ∃ winner, s.winner = some winner ∧ (l = winner ∨ Below s winner l)

/-! ### The parts of a step -/

theorem apply_parts {fact : Fact} {m : Mutation} (ok : apply ctx fact s = .ok m) :
    ∃ w₁ w₂, ctx.time ≤ maxSafeInteger ∧ fact.valid = true ∧
      enforceBudget ctx { state := s } = .ok (⟨⟩, w₁) ∧ applyFact ctx fact w₁ = .ok (⟨⟩, w₂) ∧
      updateStatus ctx w₂ = .ok (⟨⟩, m) := by
  have folded : Ensures (foldFact ctx fact) { state := s } fun _ m =>
      ∃ w₁ w₂, ctx.time ≤ maxSafeInteger ∧ fact.valid = true ∧
        enforceBudget ctx { state := s } = .ok (⟨⟩, w₁) ∧ applyFact ctx fact w₁ = .ok (⟨⟩, w₂) ∧
        updateStatus ctx w₂ = .ok (⟨⟩, m) := by
    rw [foldFact, ensures_bind, validateClock, ensures_refuse]
    intro sane
    rw [ensures_bind, ensures_refuse]
    intro valid
    rw [ensures_bind]
    intro _ w₁ first
    rw [ensures_bind]
    intro _ w₂ second
    intro _ w₃ third
    refine ⟨w₁, w₂, ?_, by simpa using valid, first, second, third⟩
    simp only [not_or, not_lt] at sane
    unfold Context.time
    omega
  exact folded ⟨⟩ m (apply_eq_ok.mp ok)

theorem enforceBudget_parts {w w₁ : Mutation} (run : enforceBudget ctx w = .ok (⟨⟩, w₁)) :
    (w₁ = w ∧ ¬ ((w.state.stopReason = none ∨ w.state.stopReason = some .winner) ∧
      (0 < w.state.open_ ∨ w.state.mergeStatus = .pending) ∧ overBudget w.state ctx = true)) ∨
      cancelAll ctx .budget_exhausted none w = .ok (⟨⟩, w₁) := by
  have parts : Ensures (enforceBudget ctx) w fun _ w₁ =>
      (w₁ = w ∧ ¬ ((w.state.stopReason = none ∨ w.state.stopReason = some .winner) ∧
        (0 < w.state.open_ ∨ w.state.mergeStatus = .pending) ∧ overBudget w.state ctx = true)) ∨
        cancelAll ctx .budget_exhausted none w = .ok (⟨⟩, w₁) := by
    simp only [enforceBudget, getState, bind_assoc, ensures_bind, ensures_get, pure_bind,
      ensures_when]
    refine ⟨fun _ => ?_, fun within => .inl ⟨trivial, within⟩⟩
    intro _ w₁ stopped
    exact .inr stopped
  exact parts ⟨⟩ w₁ run

theorem execute_parts {key : String} {executor : Executor} {outcome : Fact}
    (executed : execute s key executor = [outcome, .ack key]) :
    ∃ entry lane, s.intents.get? key = some entry ∧
      s.lanes.get? entry.effect.laneId = some lane ∧
      outcome = .report lane.id entry.effect.attempt (executor.outcome key entry.effect) := by
  unfold execute at executed
  split at executed
  next => cases executed
  next entry pending =>
    split at executed
    next => cases executed
    next lane chosen =>
      obtain ⟨here, -⟩ := Option.filter_eq_some_iff.mp chosen
      simp only [List.cons.injEq, and_true] at executed
      exact ⟨entry, lane, pending, here, executed.symm⟩

/-! ### After an outcome -/

theorem required_eq_some {lane : Lane} {type : EffectType} (required : lane.required = some type) :
    (type = .start ∧ lane.phase = .starting) ∨ (type = .check ∧ lane.phase = .checking) ∨
      (type = .cancel ∧ lane.phase = .cancelling ∧ lane.threadDone = false) := by
  unfold Lane.required at required
  split at required
  next starting => exact .inl ⟨(Option.some.inj required).symm, starting⟩
  next checking => exact .inr (.inl ⟨(Option.some.inj required).symm, checking⟩)
  next stopping =>
    split at required
    next => cases required
    next undone =>
      exact .inr (.inr ⟨(Option.some.inj required).symm, stopping, by simpa using undone⟩)
  next => cases required

theorem answered_of_outcome {w₁ w₂ : Mutation} (clock : ctx.time ≤ maxSafeInteger)
    (rest : Rest True w₁.state) {key : String} {entry : Intent}
    (pending : w₁.state.intents.get? key = some entry) {executor : Executor}
    (valid : (executor.outcome key entry.effect).valid = true)
    (applied : applyFact ctx (.report entry.effect.laneId entry.effect.attempt
      (executor.outcome key entry.effect)) w₁ = .ok (⟨⟩, w₂)) :
    (entry.effect.type = .merge → w₂.state.mergeStatus = .applied) ∧
      ∀ lane, w₂.state.lanes.get? entry.effect.laneId = some lane →
        lane.required ≠ some entry.effect.type := by
  obtain ⟨lane₁, here₁⟩ := Option.isSome_iff_exists.mp (rest.owner key entry pending)
  have named := rest.id_eq _ lane₁ here₁
  obtain ⟨current, suits⟩ := (rest.tended _ lane₁ here₁).suits key entry pending rfl
  have reported : Meets Ordinary (applyFact ctx (.report entry.effect.laneId entry.effect.attempt
      (executor.outcome key entry.effect))) w₁ fun _ w₂ =>
      (entry.effect.type = .merge → w₂.state.mergeStatus = .applied) ∧
        ∀ lane, w₂.state.lanes.get? entry.effect.laneId = some lane →
          lane.required ≠ some entry.effect.type := by
    have chosen : (w₁.state.lanes.get? entry.effect.laneId).filter
        (·.attempt = entry.effect.attempt) = some lane₁ := by
      rw [here₁]
      simp [Option.filter, current]
    simp only [applyFact, meets_bind, meets_getState, chosen, meets_whenSome]
    refine ⟨?_, fun impossible => by cases impossible⟩
    rintro _ ⟨⟩
    simp only [applyReport, meets_bind, meets_getState]
    obtain ⟨id, effect⟩ := entry
    cases effect with
    | start laneId attempt prompt spec input =>
      have started : lane₁.phase ≠ .queued := by
        intro queued
        simp [Suits, Active, queued] at suits
      simp only [Executor.outcome, LaneReport.valid, Bool.and_eq_true, bne_iff_ne] at valid
      simp only [Executor.outcome, meets_when]
      refine ⟨fun _ => ?_, fun impossible => absurd started impossible⟩
      apply Meets.mono (applyBound_spec rest here₁ started valid.1 valid.2)
      rintro _ w₂ ⟨-, bound⟩
      refine ⟨fun merge => (by cases merge), fun lane here required => ?_⟩
      rcases required_eq_some required with ⟨-, starting⟩ | ⟨type, -⟩ | ⟨type, -⟩
      · exact bound lane here starting
      · cases type
      · cases type
    | check laneId attempt artifact =>
      have pends : w₁.state.pends key .check lane₁.id = true := by
        rw [named]
        exact pends_iff.mpr ⟨_, pending, rfl, rfl⟩
      simp only [Executor.outcome, meets_when]
      refine ⟨fun _ => ?_, fun impossible => absurd ⟨suits.1, pends⟩ impossible⟩
      rw [named]
      apply Meets.mono (applyChecked_spec clock rest here₁ suits.1 pending rfl rfl _ _)
      rintro _ w₂ ⟨-, unchecked⟩
      refine ⟨fun merge => (by cases merge), fun lane here required => ?_⟩
      rcases required_eq_some required with ⟨type, -⟩ | ⟨-, checking⟩ | ⟨type, -⟩
      · cases type
      · exact unchecked lane here checking
      · cases type
    | cancel laneId attempt =>
      have stopping : lane₁.phase = .cancelling := suits
      have pends : w₁.state.pends key .cancel lane₁.id = true := by
        rw [named]
        exact pends_iff.mpr ⟨_, pending, rfl, rfl⟩
      simp only [Executor.outcome, meets_when]
      refine ⟨fun _ => ?_, fun impossible => absurd ⟨stopping, pends⟩ impossible⟩
      rw [named]
      apply Meets.mono (stopped_spec clock rest here₁ stopping)
      rintro _ w₂ ⟨-, settled⟩
      refine ⟨fun merge => (by cases merge), fun lane here required => ?_⟩
      rw [settled lane here] at required
      cases required
    | merge laneId attempt checkpoint =>
      obtain ⟨merging, -, won⟩ := rest.merging key _ pending rfl
      have winner : w₁.state.winner = some lane₁.id := by
        rw [named]
        exact won
      have found : (w₁.state.intents.get? key).any (·.effect.type == .merge) = true := by
        rw [pending]
        rfl
      simp only [Executor.outcome, meets_when]
      refine ⟨fun _ => ?_, fun impossible => absurd ⟨merging, winner, found⟩ impossible⟩
      simp only [meets_bind, dropIntent, meets_changeState, meets_emit]
      refine ⟨fun _ => trivial, fun lane here required => ?_⟩
      rcases required_eq_some required with ⟨type, -⟩ | ⟨type, -⟩ | ⟨type, -⟩ <;> cases type
  exact reported.ensures ⟨⟩ w₂ applied

/-! ### Below the winner -/

theorem Rest.under {strict : Prop} (rest : Rest strict s) {x l : String} {lane : Lane}
    (here : s.lanes.get? x = some lane) (isOver : terminal lane.phase = true) (below : Below s x l) :
    Under s x l := by
  have childless := (rest.proper x lane here).isOver isOver
  induction below with
  | child there nested =>
    exact .child there (rest.childless here childless there nested) nested (.self here isOver)
  | step there nested up ih =>
    obtain ⟨found, there', ended⟩ := rest.below_closed here childless (.step there nested up)
    rw [there] at there'
    cases there'
    exact .child there ended nested ih

/-! ### The invariant of a hosted run -/

/-- What holds of a state and of those before it. An id names one intent for good, and what
was answered last is waited for no more. -/
structure Durable (past : List (State × Fact)) (s : State) : Prop where
  rest : Rest True s
  status : s.status = runStatus s
  nonempty : ∃ l, (s.lanes.get? l).isSome = true
  before : ∀ s₀ ∈ past.map Prod.fst, Rest True s₀
  steady : ∀ s₀ ∈ s :: past.map Prod.fst, ∀ key entry entry', s₀.intents.get? key = some entry →
    s.intents.get? key = some entry' → entry = entry'
  answered : ∀ last outcome rest, past = (last, outcome) :: rest → ∀ executed executor key,
    executed ∈ past.map Prod.fst → execute executed key executor = [outcome, .ack key] → Spent s key

theorem Issues.old {w w' : Mutation} (issues : Issues ctx w w') {states : List State}
    (new : NewIds ctx states) {s₀ : State} (member : s₀ ∈ states) {key : String}
    {entry entry' : Intent} (known : s₀.intents.get? key = some entry)
    (pending : w'.state.intents.get? key = some entry') :
    w.state.intents.get? key = some entry' := by
  rcases issues.source key entry' pending with before | ⟨-, n, rfl⟩
  · exact before
  · rw [new n s₀ member] at known
    cases known

section Step

variable {fact : Fact} {past : List (State × Fact)} {m w₁ w₂ : Mutation}
  (durable : Durable past s) (new : NewIds ctx (s :: past.map Prod.fst))
  (clock : ctx.time ≤ maxSafeInteger) (first : enforceBudget ctx { state := s } = .ok (⟨⟩, w₁))

include durable new clock first

theorem Durable.permitted (delivered : Delivered past s fact) (calm : Calm ctx fact s) :
    Rest True w₁.state ∧ Permitted w₁.state fact := by
  have issues : Issues ctx { state := s } w₁ := issues_frame.enforceBudget _ ⟨⟩ w₁ first
  rcases enforceBudget_parts first with ⟨rfl, within⟩ | stopped
  · refine ⟨durable.rest, ?_, ?_⟩
    · rintro key rfl
      obtain ⟨last, outcome, rest, executed, executor, past_eq, member, returned⟩ := delivered
      exact durable.answered last outcome rest past_eq executed executor key member returned
    · intro l lane status here reported reviving merging
      obtain ⟨x, won, pends⟩ := durable.rest.promised trivial merging
      -- A merge is pending for a picked winner only, so that the budget was looked at.
      have unspent : overBudget s ctx = false := by
        obtain ⟨key, entry, pending, -, merge⟩ := pends
        have requested := (durable.rest.merging key entry pending merge).2.1
        have stop := durable.rest.requested requested
        cases isOver : overBudget s ctx
        · rfl
        · exact absurd ⟨.inr stop, .inr merging, isOver⟩ within
      obtain ⟨winner, won', place⟩ := calm l lane status here reported reviving merging unspent
      obtain ⟨found, there, success⟩ := durable.rest.winner winner won'
      have isOver : terminal found.phase = true := by rw [success]; rfl
      refine ⟨winner, won', ?_⟩
      rcases place with rfl | below
      · exact .self there isOver
      · exact durable.rest.under there isOver below
  · obtain ⟨rest₁, stops⟩ := (cancelAll_spec (w := { state := s }) clock durable.rest
      .budget_exhausted none (fun _ h => by cases h)).ensures ⟨⟩ w₁ stopped
    refine ⟨rest₁, ?_, ?_⟩
    · rintro key rfl entry pending
      obtain ⟨last, outcome, rest, executed, executor, past_eq, member, returned⟩ := delivered
      have spent := durable.answered last outcome rest past_eq executed executor key member returned
      obtain ⟨entry₀, -, known, -, -⟩ := execute_parts returned
      have old := issues.old new (List.mem_cons_of_mem _ member) known pending
      obtain ⟨unmerged, unneeded⟩ := spent entry old
      refine ⟨unmerged, fun lane here required => ?_⟩
      -- In a stopped run only a cancellation is waited for, and that lane was stopping before.
      have stop : w₁.state.stopReason.isSome = true := by rw [stops.stopReason_eq]; rfl
      have going : terminal lane.phase = false → lane.phase = .cancelling := fun going => by
        rcases (rest₁.proper _ lane here).halted stop going with stopping | impossible
        · exact stopping
        · exact impossible.elim
      rcases required_eq_some required with ⟨-, starting⟩ | ⟨-, checking⟩ | ⟨type, -, undone⟩
      · have h := going (by rw [starting]; rfl)
        rw [starting] at h
        cases h
      · have h := going (by rw [checking]; rfl)
        rw [checking] at h
        cases h
      · obtain ⟨lane₀, here₀⟩ := Option.isSome_iff_exists.mp (durable.rest.owner key entry old)
        have suits := ((durable.rest.tended _ lane₀ here₀).suits key entry old rfl).2
        have stopping : lane₀.phase = .cancelling := by
          obtain ⟨id, effect⟩ := entry
          cases effect <;> cases type
          exact suits
        rw [stops.steady _ lane₀ here₀ stopping] at here
        cases here
        exact unneeded _ here₀ required
    · intro l lane status here reported reviving merging
      exact absurd merging stops.unmerged

end Step

theorem durable_of_hosted {past : List (State × Fact)} (hosted : Hosted Calm past s) :
    Durable past s := by
  induction hosted with
  | @start m started =>
    obtain ⟨input, beginning, some_lane⟩ := started.beginning True
    have total := beginning.total
    simp only [List.length_nil, Nat.add_zero] at total
    have known : ∃ l, l ∈ m.state.lanes.keys := by
      apply List.exists_mem_of_ne_nil
      intro empty
      rw [empty, List.length_nil] at total
      omega
    obtain ⟨l, member⟩ := known
    constructor
    · exact beginning.rest
    · exact beginning.status some_lane
    · exact ⟨l, (Dictionary.mem_keys_iff ..).mp member⟩
    · simp
    · intro s₀ member key entry entry' here here'
      simp only [List.map_nil, List.mem_singleton] at member
      subst member
      rw [here] at here'
      exact Option.some.inj here'
    · intro _ _ _ impossible
      cases impossible
  | @step ctx fact past s m before delivered new calm ok ih =>
    obtain ⟨w₁, w₂, clock, valid, first, second, third⟩ := apply_parts ok
    obtain ⟨rest₁, permitted⟩ := ih.permitted new clock first delivered calm
    obtain ⟨rest₂, -⟩ := (applyFact_spec clock rest₁ valid (fun _ => permitted)).ensures ⟨⟩ w₂ second
    obtain ⟨rest₃, updates⟩ := (updateStatus_spec rest₂).ensures ⟨⟩ m third
    have issues₁ : Issues ctx { state := s } w₁ := issues_frame.enforceBudget _ ⟨⟩ w₁ first
    have issues₂ : Issues ctx w₁ w₂ := keeps_applyFact fact _ ⟨⟩ w₂ second
    have issues₃ : Issues ctx w₂ m := issues_frame.updateStatus _ ⟨⟩ m third
    have issues : Issues ctx { state := s } m :=
      IsTrans.trans _ _ _ issues₁ (IsTrans.trans _ _ _ issues₂ issues₃)
    have steady : ∀ s₀ ∈ s :: past.map Prod.fst, ∀ key entry entry',
        s₀.intents.get? key = some entry → m.state.intents.get? key = some entry' →
          entry = entry' := fun s₀ member key entry entry' here here' =>
      ih.steady s₀ member key entry entry' here (issues.old new member here here')
    have rests : ∀ s₀ ∈ s :: past.map Prod.fst, Rest True s₀ := by
      intro s₀ member
      rcases List.mem_cons.mp member with rfl | member
      · exact ih.rest
      · exact ih.before s₀ member
    constructor
    · exact rest₃
    · exact updates.status_eq
    · obtain ⟨l, known⟩ := ih.nonempty
      exact ⟨l, issues.lanes l known⟩
    · exact rests
    · intro s₀ member key entry entry' here here'
      rcases List.mem_cons.mp member with rfl | member
      · rw [here] at here'
        exact Option.some.inj here'
      · exact steady s₀ member key entry entry' here here'
    · rintro _ outcome _ ⟨⟩ executed executor key member returned entry pending
      obtain ⟨entry₀, lane₀, known, here₀, rfl⟩ := execute_parts returned
      have same := steady executed member key entry₀ entry known pending
      subst same
      rw [(rests executed member).id_eq _ lane₀ here₀] at second valid
      -- The intent was pending all the way through the step.
      have pending₂ := issues₃.old new member known pending
      have pending₁ := issues₂.old new member known pending₂
      have news : (executor.outcome key entry₀.effect).valid = true := by
        simp only [Fact.valid, Bool.and_eq_true] at valid
        exact valid.2
      obtain ⟨merged, unneeded⟩ := answered_of_outcome clock rest₁ pending₁ news second
      refine ⟨fun merge => ?_, fun lane here => unneeded lane (updates.lanes_eq ▸ here)⟩
      have merging := (rest₃.merging key entry₀ pending merge).1
      rcases updates.mergeStatus with same | unmerged
      · rw [same, merged merge] at merging
        cases merging
      · rw [merged merge] at unmerged
        cases unmerged

/-! ### Recovery -/

/-- In a run of a host every state is recovered as it is, unless a finished lane was taken up
beside a pending merge. -/
theorem recovers_of_hosted (past : List (State × Fact)) (s : State) (hosted : Hosted Calm past s) :
    recover s = .ok (s, s.intents.values) ∧
      (∀ key entry, s.intents.get? key = some entry → ∃ lane,
        s.lanes.get? entry.effect.laneId = some lane ∧ canExecute s lane entry.effect = true) ∧
      (∀ l lane type, s.lanes.get? l = some lane → lane.required = some type →
        Pends s.intents l type) ∧
      (s.mergeStatus = .pending → ∃ l, s.winner = some l ∧ Pends s.intents l .merge) := by
  have durable := durable_of_hosted hosted
  have rest := durable.rest
  have nonempty : s.lanes.keys.length ≠ 0 := by
    obtain ⟨l, known⟩ := durable.nonempty
    have member := (Dictionary.mem_keys_iff ..).mpr known
    intro none_there
    rw [List.length_eq_zero_iff] at none_there
    rw [none_there] at member
    cases member
  refine ⟨recover_of_rest rest durable.status nonempty, ?_, ?_, ?_⟩
  · intro key entry pending
    obtain ⟨lane, here⟩ := Option.isSome_iff_exists.mp (rest.owner key entry pending)
    exact ⟨lane, here, rest.canExecute pending here⟩
  · intro l lane type here required
    exact (rest.tended l lane here).owed ⟨trivial, fun loosely => loosely.elim⟩ type required
  · exact fun merging => rest.promised trivial merging

/-! ### Sample runs of a host -/

/-- The sample context, with ten ids of each kind at a moment. -/
def hostContext (moment : Nat) : Context :=
  { sampleContext moment with ids := fun kind drawn => (sampleContext moment).ids kind (min drawn 9) }

/-- A fact at a moment, with the intent whose outcome or acknowledgement it is. -/
structure HostStep where
  moment : Nat
  fact : Fact
  executed : Option (String × Executor) := none

def HostStep.delivered (step : HostStep) (past : List (State × Fact)) (s : State) : Bool :=
  match step.fact, step.executed, past with
  | .ack key, some (_, executor), (last, outcome) :: _ =>
    decide (execute last key executor = [outcome, .ack key])
  | .report l attempt report, some (key, executor), _ =>
    decide (execute s key executor = [.report l attempt report, .ack key])
  | .report _ _ (.thread _), none, _ | .report _ _ (.artifact _), none, _
  | .pick .., none, _ | .cancel, none, _ | .tick, none, _ => true
  | _, _, _ => false

def newIds (moment : Nat) (states : List State) : Bool :=
  (List.range 10).all fun n => states.all fun s =>
    (s.intents.get? ((sampleContext moment).ids .intent n)).isNone

/-- Whether the host can report the facts one after another, to a state that passes `goal`. -/
def hostRun (allowed goal : State → Bool) : List HostStep → List (State × Fact) → State → Bool
  | [], _, s => goal s
  | step :: rest, past, s =>
    step.delivered past s && newIds step.moment (s :: past.map Prod.fst) && allowed s &&
      match apply (hostContext step.moment) step.fact s with
      | .ok m => hostRun allowed goal rest ((s, step.fact) :: past) m.state
      | .error _ => false

theorem HostStep.delivered_iff {step : HostStep} {past : List (State × Fact)}
    (reports : step.delivered past s = true) : Delivered past s step.fact := by
  unfold HostStep.delivered at reports
  split at reports
  next key _ executor last outcome rest fact executed =>
    rw [fact]
    exact ⟨last, outcome, rest, last, executor, rfl, by simp, by simpa using reports⟩
  next l attempt report key executor fact executed =>
    rw [fact]
    have returned : execute s key executor = [.report l attempt report, .ack key] := by
      simpa using reports
    obtain ⟨entry, lane, -, -, outcome⟩ := execute_parts returned
    obtain ⟨id, effect⟩ := entry
    cases report with
    | executionFailed => cases effect <;> cases outcome
    | thread => trivial
    | artifact => trivial
    | usage => trivial
    | bound => exact ⟨s, key, executor, by simp, returned⟩
    | checked => exact ⟨s, key, executor, by simp, returned⟩
    | stopped => exact ⟨s, key, executor, by simp, returned⟩
    | merged => exact ⟨s, key, executor, by simp, returned⟩
  next fact _ => rw [fact]; trivial
  next fact _ => rw [fact]; trivial
  next fact _ => rw [fact]; trivial
  next fact _ => rw [fact]; trivial
  next fact _ => rw [fact]; trivial
  next => cases reports

theorem newIds_iff {moment : Nat} {states : List State} (new : newIds moment states = true) :
    NewIds (hostContext moment) states := by
  intro n s member
  unfold newIds at new
  rw [List.all_eq_true] at new
  have among := new (min n 9) (List.mem_range.mpr (by omega))
  rw [List.all_eq_true] at among
  exact Option.isNone_iff_eq_none.mp (among s member)

theorem hosted_of_hostRun {P : Context → Fact → State → Prop} {allowed goal : State → Bool}
    (meets : ∀ ctx fact s, allowed s = true → P ctx fact s) {steps : List HostStep}
    {past : List (State × Fact)} (hosted : Hosted P past s)
    (runs : hostRun allowed goal steps past s = true) :
    ∃ past' s', Hosted P past' s' ∧ goal s' = true := by
  induction steps generalizing past s with
  | nil => exact ⟨past, s, hosted, runs⟩
  | cons step rest ih =>
    simp only [hostRun, Bool.and_eq_true] at runs
    obtain ⟨⟨⟨reports, new⟩, fits⟩, next⟩ := runs
    split at next
    next m ok =>
      exact ih (.step hosted (HostStep.delivered_iff reports) (newIds_iff new)
        (meets _ _ _ fits) ok) next
    next => cases next

/-- A new run of the host that passes `goal` after the steps. -/
def hostPasses (allowed goal : State → Bool) (input : Create) (steps : List HostStep) : Bool :=
  (create (hostContext 0) input).toOption.any fun m => hostRun allowed goal steps [] m.state

theorem hosted_of_hostPasses {P : Context → Fact → State → Prop} {allowed goal : State → Bool}
    (meets : ∀ ctx fact s, allowed s = true → P ctx fact s) {input : Create}
    {steps : List HostStep} (passes : hostPasses allowed goal input steps = true) :
    ∃ past s, Hosted P past s ∧ goal s = true := by
  unfold hostPasses at passes
  cases created : create (hostContext 0) input with
  | error e =>
    rw [created] at passes
    cases passes
  | ok m =>
    rw [created] at passes
    exact hosted_of_hostRun meets (.start (.create created)) passes

def sampleExecutor : Executor where
  threadId := "thread"
  worktree := "tree"
  commandPassed := true
  reviewPassed := none
  safetyCheckpoint := "safe"

/-- A lane is checked and picked, and the other one stops: its merge is pending. -/
def sampleMerge : List HostStep := [
  { moment := 1, fact := .report "l0-2" 1 (.bound "thread" "tree"),
    executed := some ("i0-3", sampleExecutor) },
  { moment := 2, fact := .ack "i0-3", executed := some ("i0-3", sampleExecutor) },
  { moment := 3, fact := .report "l0-2" 1 (.thread .done) },
  { moment := 4, fact := .report "l0-2" 1
      (.artifact { checkpoint := "c", summary := "", tests := ⟨1, 0, none⟩ }) },
  { moment := 5, fact := .report "l0-2" 1 (.checked "i4-0" true none),
    executed := some ("i4-0", sampleExecutor) },
  { moment := 6, fact := .pick "l0-2" true },
  { moment := 7, fact := .report "l0-4" 1 (.stopped "i6-0"),
    executed := some ("i6-0", sampleExecutor) }]

theorem recovers_of_sampleMerge :
    ∃ past s, Hosted Calm past s ∧ s.mergeStatus = .pending ∧
      recover s = .ok (s, s.intents.values) := by
  obtain ⟨past, s, hosted, merging⟩ := hosted_of_hostPasses (P := Calm)
    (fun ctx fact s unmerged l lane status _ _ _ merging => by
      rw [merging] at unmerged
      cases unmerged)
    (show hostPasses (fun s => s.mergeStatus != .pending) (fun s => s.mergeStatus == .pending)
      (sampleCreate .fanout 2) sampleMerge = true by decide +kernel)
  exact ⟨past, s, hosted, by simpa using merging, (recovers_of_hosted past s hosted).1⟩

/-- The stopped lane reports work again while the merge is pending: the run cannot be
recovered. -/
theorem revival_beside_merge_not_recovered :
    ¬ ∀ past s, Hosted (fun _ _ _ => True) past s → recover s = .ok (s, s.intents.values) := by
  intro always
  obtain ⟨past, s, hosted, fails⟩ := hosted_of_hostPasses (P := fun _ _ _ => True)
    (fun _ _ _ _ => trivial)
    (show hostPasses (fun _ => true) (fun s => (recover s).toOption.isNone)
      (sampleCreate .fanout 2)
      (sampleMerge ++ [{ moment := 8, fact := .report "l0-4" 1 (.thread (.working 8)) }]) = true by
      decide +kernel)
  rw [always past s hosted] at fails
  cases fails

end Ace.Orchestrator
