import Ace.Properties.DurableRuns
import Ace.Script.Metering

/-!
# Budgets of a run

Usage is reported for an attempt as a running total. The run is charged what a report exceeds
the earlier ones of its attempt by, and a run past one of its budgets stops.

## Main result

`budgets_of_metered`
-/

namespace Ace.Orchestrator

open Script Script.Command Script.Metering

/-! ### What leaves the meters alone -/

/-- The run is charged nothing; a lane keeps its meter or starts another attempt, which no
stopped run does. -/
structure Steady (s s' : State) : Prop where
  input : s'.input = s.input
  startedAt : s'.startedAt = s.startedAt
  usage : s'.usage = s.usage
  stopped : s.stopReason.isSome = true → s'.stopReason.isSome = true
  lane : ∀ l lane, s.lanes.get? l = some lane → ∃ lane', s'.lanes.get? l = some lane' ∧
    (lane'.attempt = lane.attempt ∧ lane'.attemptUsage = lane.attemptUsage ∨
      s.stopReason = none ∧ lane.attempt < lane'.attempt ∧ lane'.attemptUsage = {})
  fresh : ∀ l lane', s'.lanes.get? l = some lane' → s.lanes.get? l = none →
    lane'.attemptUsage = {}

theorem Steady.of_lanes {s s' : State} (lanes : s'.lanes = s.lanes) (input : s'.input = s.input)
    (startedAt : s'.startedAt = s.startedAt) (usage : s'.usage = s.usage)
    (stopped : s.stopReason.isSome = true → s'.stopReason.isSome = true) : Steady s s' where
  input := input
  startedAt := startedAt
  usage := usage
  stopped := stopped
  lane l lane here := ⟨lane, by rw [lanes]; exact here, .inl ⟨rfl, rfl⟩⟩
  fresh l lane' there absent := by
    rw [lanes, absent] at there
    cases there

theorem Steady.refl (s : State) : Steady s s := .of_lanes rfl rfl rfl rfl id

theorem Steady.trans {s s' s'' : State} (first : Steady s s') (second : Steady s' s'') :
    Steady s s'' where
  input := second.input.trans first.input
  startedAt := second.startedAt.trans first.startedAt
  usage := second.usage.trans first.usage
  stopped stop := second.stopped (first.stopped stop)
  lane l lane here := by
    obtain ⟨lane', here', change⟩ := first.lane l lane here
    obtain ⟨lane'', here'', change'⟩ := second.lane l lane' here'
    refine ⟨lane'', here'', ?_⟩
    -- A run that still goes on after the first step went on before it.
    have running : s'.stopReason = none → s.stopReason = none := by
      intro none_yet
      by_contra stop
      have stays := first.stopped (Option.isSome_iff_ne_none.mpr stop)
      simp [none_yet] at stays
    rcases change' with ⟨attempt', usage'⟩ | ⟨going, later', usage'⟩
    · rw [attempt', usage']
      exact change
    · right
      rcases change with ⟨attempt, -⟩ | ⟨-, later, -⟩
      · exact ⟨running going, by omega, usage'⟩
      · exact ⟨running going, by omega, usage'⟩
  fresh l lane'' there absent := by
    cases here' : s'.lanes.get? l with
    | none => exact second.fresh l lane'' there here'
    | some lane' =>
      have zero := first.fresh l lane' here' absent
      obtain ⟨found, found_there, change⟩ := second.lane l lane' here'
      rw [there] at found_there
      cases found_there
      rcases change with ⟨-, usage⟩ | ⟨-, -, usage⟩
      · rw [usage, zero]
      · exact usage

theorem Steady.modify {s : State} {l : String} {f : Lane → Lane}
    (change : ∀ lane, (f lane).attempt = lane.attempt ∧ (f lane).attemptUsage = lane.attemptUsage ∨
      s.stopReason = none ∧ lane.attempt < (f lane).attempt ∧ (f lane).attemptUsage = {}) :
    Steady s { s with lanes := s.lanes.modify l f } where
  input := rfl
  startedAt := rfl
  usage := rfl
  stopped := id
  lane k lane here := by
    by_cases same : l = k
    · subst same
      exact ⟨f lane, by simp [here], change lane⟩
    · exact ⟨lane, by simp [Dictionary.get?_modify, same, here], .inl ⟨rfl, rfl⟩⟩
  fresh k lane' there absent := by
    by_cases same : l = k
    · subst same
      simp [absent] at there
    · simp [Dictionary.get?_modify, same, absent] at there

theorem Steady.overBudget {s s' : State} (steady : Steady s s') (ctx : Context) :
    overBudget s' ctx = overBudget s ctx := by
  simp only [Orchestrator.overBudget, steady.input, steady.startedAt, steady.usage]

def SteadyCall (w w' : Mutation) : Prop := Steady w.state w'.state

instance : Std.Refl SteadyCall where
  refl w := Steady.refl w.state

instance : IsTrans Mutation SteadyCall where
  trans _ _ _ := Steady.trans

section

variable {ctx : Context} {w : Mutation}

theorem steady_changeState {f : State → State} (steady : Steady w.state (f w.state)) :
    Ensures (changeState f) w fun _ w' => SteadyCall w w' := by
  rw [changeState, ensures_modify]
  exact steady

theorem steady_changeLane (id : String) {f : Lane → Lane} (within : WithinAttempt f) :
    Keeps SteadyCall (changeLane id f) :=
  fun _ => steady_changeState (Steady.modify fun lane => .inl (within lane))

theorem steady_intent (effect : Effect) : Keeps SteadyCall (intent ctx effect) := by
  intro w
  rw [intent, ensures_bind]
  apply ensures_nextId
  simp only [getState, changeState, bind_assoc, ensures_bind, ensures_get, ensures_modify,
    ensures_refuse, ensures_pure]
  intro _
  exact Steady.of_lanes rfl rfl rfl rfl id

theorem steady_addLane (spec : LaneSpec) (prompt : String) (stage : Nat) (parent : Option Lane) :
    Keeps SteadyCall (addLane ctx spec prompt stage parent) := by
  intro w
  rw [addLane, ensures_bind]
  apply ensures_nextId
  simp only [getState, bind_assoc, pure_bind, ensures_bind, ensures_get, ensures_pure,
    ensures_refuse, Bool.not_eq_true]
  intro new
  refine Ensures.mono (steady_changeState ?_) fun _ w₁ first => ?_
  · refine ⟨rfl, rfl, rfl, id, fun k lane here => ?_, fun k lane' there absent => ?_⟩
    · refine ⟨lane, ?_, .inl ⟨rfl, rfl⟩⟩
      rw [Dictionary.get?_put, if_neg]
      · exact here
      · rintro rfl
        simp [Dictionary.contains, here] at new
    · rw [Dictionary.get?_put] at there
      split at there
      · cases there
        rfl
      · rw [show w.state.lanes.get? k = none from absent] at there
        cases there
  · refine Ensures.mono (Keeps.whenSome (fun _ _ => steady_changeLane _ ?_) w₁) fun _ w₂ second => ?_
    · exact fun _ => ⟨rfl, rfl⟩
    · exact Steady.trans first second

theorem steady_frame : Frame ctx SteadyCall where
  emit event := by
    intro w
    rw [Orchestrator.emit, ensures_modify]
    exact Steady.refl w.state
  intent := steady_intent
  addLane := steady_addLane
  run f change := fun w => steady_changeState (.of_lanes (change.lanes _) (change.input _)
    (change.startedAt _) (change.usage _) (change.stopReason _))
  lane id f within := steady_changeLane id within
  drop f _ := fun w => steady_changeState (.of_lanes rfl rfl rfl rfl id)
  retry id w running := by
    apply steady_changeState
    exact Steady.modify fun lane => .inr ⟨running, Nat.lt_succ_self _, rfl⟩

/-! ### Stopping -/

theorem cancelAll_steady (reason : StopReason) (except : Option String) :
    Ensures (cancelAll ctx reason except) w fun _ w' =>
      Steady { w.state with stopReason := some reason, mergeRequested := false } w'.state := by
  -- Once it is set, the reason stays while the lanes are cancelled.
  have rest : Keeps SteadyCall (do
      dropMerge
      (← getState).lanes.keys.forM (cancelOpen ctx (finish ctx) except)) :=
    Keeps.bind (@steady_frame ctx).dropMerge fun _ =>
      steady_frame.cancelOpenLanes steady_frame.finish except
  unfold cancelAll cancelAllWith
  rw [ensures_bind, changeState, ensures_modify]
  exact rest _

theorem cancelAll_stops (reason : StopReason) (except : Option String) :
    Ensures (cancelAll ctx reason except) w fun _ w' =>
      Steady w.state w'.state ∧ w'.state.stopReason.isSome = true := by
  refine Ensures.mono (cancelAll_steady reason except) ?_
  intro _ w' steady
  have first : Steady w.state { w.state with stopReason := some reason, mergeRequested := false } :=
    .of_lanes rfl rfl rfl rfl fun _ => rfl
  exact ⟨first.trans steady, steady.stopped rfl⟩

theorem Steady.attempt_of_stopped {s s' : State} (steady : Steady s s')
    (stopped : s.stopReason.isSome = true) {l : String} {lane : Lane}
    (here : s.lanes.get? l = some lane) : ∃ lane', s'.lanes.get? l = some lane' ∧
      lane'.attempt = lane.attempt ∧ lane'.attemptUsage = lane.attemptUsage := by
  obtain ⟨lane', there, same | ⟨running, -, -⟩⟩ := steady.lane l lane here
  · exact ⟨lane', there, same⟩
  · simp [running] at stopped

/-! ### Reports of usage -/

/-- The attempt whose meter a fact reads, and what it shows. -/
def counted (s : State) : Fact → Option ((String × Nat) × Nat)
  | .report l attempt (.usage spent) =>
    if (s.lanes.get? l).any (·.attempt = attempt) then some ((l, attempt), spent.tokens) else none
  | _ => none

theorem counted_congr {s s' : State} (same : ∀ l,
    (s'.lanes.get? l).map (fun lane => (lane.attempt, lane.attemptUsage)) =
      (s.lanes.get? l).map (fun lane => (lane.attempt, lane.attemptUsage))) (fact : Fact) :
    counted s' fact = counted s fact := by
  unfold counted
  split
  next l attempt spent =>
    have attempts : (s'.lanes.get? l).any (·.attempt = attempt) =
        (s.lanes.get? l).any (·.attempt = attempt) := by
      have here := same l
      cases h' : s'.lanes.get? l <;> cases h : s.lanes.get? l <;> simp_all
    rw [attempts]
  next => rfl

theorem counted_eq_some {s : State} {fact : Fact} {report : (String × Nat) × Nat}
    (read : counted s fact = some report) : ∃ l lane spent,
      fact = .report l lane.attempt (.usage spent) ∧ s.lanes.get? l = some lane ∧
        report = ((l, lane.attempt), spent.tokens) := by
  unfold counted at read
  split at read
  next l attempt spent =>
    split at read
    next current =>
      cases read
      obtain ⟨lane, here, same⟩ := (Option.any_eq_true ..).mp current
      obtain rfl : lane.attempt = attempt := of_decide_eq_true same
      exact ⟨l, lane, spent, rfl, here, rfl⟩
    next => cases read
  next => cases read

/-- What a report of usage does to a lane and its run. -/
def State.charged (s : State) (lane : Lane) (spent : Usage) : State :=
  { s with
    usage := s.usage.charge lane.attemptUsage spent
    lanes := s.lanes.modify lane.id fun lane' => { lane' with
      usage := lane'.usage.charge lane.attemptUsage spent
      attemptUsage :=
        { tokens := max lane.attemptUsage.tokens spent.tokens
          cost := max lane.attemptUsage.cost spent.cost } } }

theorem applyUsage_charges (lane : Lane) (spent : Usage) :
    Ensures (applyUsage ctx lane spent) w fun _ w' =>
      Steady (w.state.charged lane spent) w'.state ∧
        (overBudget w'.state ctx = true → w'.state.stopReason.isSome = true) := by
  simp only [applyUsage, changeLane, changeState, getState, ensures_bind, ensures_modify,
    ensures_get, ensures_pure, ensures_when]
  refine ⟨fun _ => ?_, fun within => ⟨Steady.refl _, fun over_ => ?_⟩⟩
  · refine Ensures.mono (cancelAll_stops _ _) ?_
    rintro _ w' ⟨steady, stopped⟩
    exact ⟨steady, fun _ => stopped⟩
  · -- Only a run that was stopped for another reason goes unchecked.
    by_contra running
    refine within ⟨.inl ?_, over_⟩
    simpa using running

theorem applyFact_steady {fact : Fact} (uncounted : counted w.state fact = none) :
    Ensures (applyFact ctx fact) w fun _ w' => Steady w.state w'.state := by
  by_cases metered : ∃ l attempt spent, fact = .report l attempt (.usage spent)
  · -- It is about an attempt that is over.
    obtain ⟨l, attempt, spent, rfl⟩ := metered
    have past : (w.state.lanes.get? l).filter (·.attempt = attempt) = none := by
      rw [Option.filter_eq_none_iff]
      intro lane here
      simpa [counted, here] using uncounted
    simp only [applyFact, getState, bind_assoc, pure_bind, ensures_bind, ensures_get]
    rw [past, ensures_whenSome]
    exact ⟨fun _ impossible => (by cases impossible), fun _ => Steady.refl _⟩
  · exact steady_frame.applyFact fact (fun l attempt spent same => absurd ⟨l, attempt, spent, same⟩ metered) w

theorem applyFact_charges {l : String} {lane : Lane} {spent : Usage}
    (here : w.state.lanes.get? l = some lane) :
    Ensures (applyFact ctx (.report l lane.attempt (.usage spent))) w fun _ w' =>
      Steady (w.state.charged lane spent) w'.state ∧
        (overBudget w'.state ctx = true → w'.state.stopReason.isSome = true) := by
  have current : (w.state.lanes.get? l).filter (·.attempt = lane.attempt) = some lane := by
    simp [here]
  simp only [applyFact, getState, bind_assoc, pure_bind, ensures_bind, ensures_get]
  rw [current, ensures_whenSome]
  refine ⟨fun _ same => ?_, fun impossible => by cases impossible⟩
  cases same
  simpa only [applyReport, getState, bind_assoc, pure_bind, ensures_bind, ensures_get,
    ensures_pure] using applyUsage_charges lane spent

end

/-! ### The account of a run -/

/-- The reports so far account for what the run and its lanes were charged. -/
structure Accounted (reports : List ((String × Nat) × Nat)) (s : State) : Prop where
  total : s.usage.tokens = min maxSafeInteger (spent reports)
  current : ∀ l lane, s.lanes.get? l = some lane →
    lane.attemptUsage.tokens = peak reports (l, lane.attempt)
  past : ∀ meter ∈ reports.map (·.1), ∃ lane, s.lanes.get? meter.1 = some lane ∧
    meter.2 ≤ lane.attempt

theorem Accounted.steady {reports : List ((String × Nat) × Nat)} {s s' : State}
    (accounted : Accounted reports s) (steady : Steady s s') : Accounted reports s' where
  total := by rw [steady.usage]; exact accounted.total
  current l lane' there := by
    cases here : s.lanes.get? l with
    | none =>
      have silent : peak reports (l, lane'.attempt) = 0 := peak_of_new fun member => by
        obtain ⟨lane, known, -⟩ := accounted.past _ member
        rw [here] at known
        cases known
      rw [steady.fresh l lane' there here, silent]
    | some lane =>
      obtain ⟨found, found_there, change⟩ := steady.lane l lane here
      rw [there] at found_there
      cases found_there
      rcases change with ⟨attempt, usage⟩ | ⟨-, later, usage⟩
      · rw [usage, attempt]
        exact accounted.current l lane here
      · -- Nothing was reported for an attempt that just started.
        have silent : peak reports (l, lane'.attempt) = 0 := peak_of_new fun member => by
          obtain ⟨lane₀, known, low⟩ := accounted.past _ member
          rw [here] at known
          cases known
          exact absurd low (not_le.mpr later)
        rw [usage, silent]
  past meter member := by
    obtain ⟨lane, here, low⟩ := accounted.past meter member
    obtain ⟨lane', there, ⟨attempt, -⟩ | ⟨-, later, -⟩⟩ := steady.lane meter.1 lane here
    · exact ⟨lane', there, by omega⟩
    · exact ⟨lane', there, by omega⟩

/-- The sum with the new report is rounded to what it is, or past the cap anyway. -/
def Countable (total before spent : Nat) : Prop :=
  let sum := total + max before spent
  sum ≤ 2 ^ 53 ∨ sum % 2 = 0 ∨ maxSafeInteger < sum - before ∨
    maxSafeInteger = sum - before ∧ sum % 4 = 3

theorem charge_tokens_iff {total before spent : Usage} (total_small : total.tokens ≤ maxSafeInteger)
    (before_small : before.tokens ≤ maxSafeInteger) (spent_small : spent.tokens ≤ maxSafeInteger) :
    (total.charge before spent).tokens =
        min maxSafeInteger (total.tokens + (max before.tokens spent.tokens - before.tokens)) ↔
      Countable total.tokens before.tokens spent.tokens := by
  simp only [Usage.charge, Countable]
  have covers : before.tokens ≤ max before.tokens spent.tokens := le_max_left _ _
  have peak_small : max before.tokens spent.tokens ≤ maxSafeInteger := max_le before_small spent_small
  generalize max before.tokens spent.tokens = most at *
  simp only [maxSafeInteger] at *
  rcases Nat.lt_or_ge (2 ^ 53) (total.tokens + most) with large | small
  · rw [addCounts, nearestCount_of_large large.le (by omega)]
    split <;> omega
  · rw [addCounts_of_small small]
    omega

theorem Accounted.charge {reports : List ((String × Nat) × Nat)} {s : State} {l : String}
    {lane : Lane} {spent : Usage} (accounted : Accounted reports s)
    (here : s.lanes.get? l = some lane) (id_eq : lane.id = l)
    (exact_ : (s.usage.charge lane.attemptUsage spent).tokens = min maxSafeInteger
      (s.usage.tokens + (max lane.attemptUsage.tokens spent.tokens - lane.attemptUsage.tokens))) :
    Accounted (reports ++ [((l, lane.attempt), spent.tokens)]) (s.charged lane spent) where
  total := by
    have more := spent_append reports (l, lane.attempt) spent.tokens
    have shown := accounted.current l lane here
    have total := accounted.total
    have covers : lane.attemptUsage.tokens ≤ max lane.attemptUsage.tokens spent.tokens :=
      le_max_left _ _
    rw [← shown] at more
    show (s.usage.charge lane.attemptUsage spent).tokens = _
    rw [exact_, total]
    omega
  current k lane' there := by
    by_cases same : l = k
    · subst same
      simp only [State.charged, id_eq, Dictionary.get?_modify_self, here, Option.map_some,
        Option.some.injEq] at there
      subst there
      rw [peak_append_self, ← accounted.current l lane here]
    · have other : (l, lane.attempt) ≠ (k, lane'.attempt) := fun equal =>
        same (congrArg Prod.fst equal)
      rw [peak_append_other reports _ other]
      simp only [State.charged, id_eq, Dictionary.get?_modify, same, if_false] at there
      exact accounted.current k lane' there
  past meter member := by
    have kept : ∀ k lane₀, s.lanes.get? k = some lane₀ →
        ∃ lane', (s.charged lane spent).lanes.get? k = some lane' ∧ lane'.attempt = lane₀.attempt := by
      intro k lane₀ known
      by_cases same : l = k
      · subst same
        simp [State.charged, id_eq, known]
      · exact ⟨lane₀, by simp [State.charged, id_eq, Dictionary.get?_modify, same, known], rfl⟩
    simp only [List.map_append, List.map_cons, List.map_nil, List.mem_append,
      List.mem_singleton] at member
    rcases member with old | rfl
    · obtain ⟨lane₀, known, low⟩ := accounted.past meter old
      obtain ⟨lane', there, attempt⟩ := kept meter.1 lane₀ known
      exact ⟨lane', there, by omega⟩
    · obtain ⟨lane', there, attempt⟩ := kept l lane here
      exact ⟨lane', there, attempt.ge⟩

/-! ### Over the budget -/

section

variable {ctx : Context} {w : Mutation}

theorem over_bind {α β : Type} {m : Reducer α} {f : α → Reducer β} {Q : β → Mutation → Prop}
    (first : Keeps SteadyCall m) (isOver : overBudget w.state ctx = true)
    (second : ∀ a w', overBudget w'.state ctx = true → Ensures (f a) w' Q) :
    Ensures (m >>= f) w Q := by
  rw [ensures_bind]
  refine Ensures.mono (first w) ?_
  intro a w' steady
  exact second a w' ((Steady.overBudget steady ctx).trans isOver)

theorem stopped_of_keeps {α : Type} {m : Reducer α} (keeps : Keeps SteadyCall m)
    (stopped : w.state.stopReason.isSome = true) :
    Ensures m w fun _ w' => w'.state.stopReason.isSome = true := by
  refine Ensures.mono (keeps w) ?_
  intro _ w' steady
  exact steady.stopped stopped

theorem stopReopened_stops (id : String) (isOver : overBudget w.state ctx = true) :
    Ensures (stopReopened ctx id) w fun _ w' => w'.state.stopReason.isSome = true := by
  simp only [stopReopened, getState, bind_assoc, pure_bind, ensures_bind, ensures_get]
  split
  next stopped => exact stopped_of_keeps (steady_frame.cancelLane id) stopped
  next =>
    rw [ensures_when]
    refine ⟨fun _ => ?_, fun within => absurd isOver within⟩
    refine Ensures.mono (cancelAll_stops _ _) ?_
    exact fun _ w' stops => stops.2

theorem reopen_stops {l : String} {lane : Lane} (here : w.state.lanes.get? l = some lane)
    (ended : terminal lane.phase = true) (isOver : overBudget w.state ctx = true) :
    Ensures (reopen ctx l) w fun _ w' => w'.state.stopReason.isSome = true := by
  have frame : Frame ctx SteadyCall := steady_frame
  rw [reopen, ensures_bind, ensures_getLane here, reopenWithin, reopenWith, ensures_bind,
    ensures_getLane here]
  simp only [ended, Bool.not_true, Bool.false_eq_true, if_false]
  refine over_bind (frame.phase l _) isOver fun _ w₁ isOver => ?_
  refine over_bind (frame.lane l _ fun _ => ⟨rfl, rfl⟩) isOver fun _ w₂ isOver => ?_
  refine over_bind (frame.revokeWinner l) isOver fun _ w₃ isOver => ?_
  refine over_bind keeps_getState isOver fun s w₄ isOver => ?_
  refine over_bind (Keeps.whenSome fun parentId _ => ?_) isOver fun _ w₅ isOver =>
    stopReopened_stops l isOver
  exact Keeps.bind (frame.reopenWithin _ parentId) fun _ => frame.rejoinParent _ _

def Settled (s : State) : Prop := ∀ l lane, s.lanes.get? l = some lane → terminal lane.phase = true

theorem Settled.of_lanes {s s' : State} (settled : Settled s) (lanes : s'.lanes = s.lanes) :
    Settled s' := fun l lane here => settled l lane (by rw [← lanes]; exact here)

/-- What a fact comes to in a run that is past its budget and has nothing open. -/
def Halted (ctx : Context) (s : State) : Prop :=
  (overBudget s ctx = true → s.stopReason.isSome = true) ∨ Settled s

theorem applyThread_halts {l : String} {lane : Lane} (here : w.state.lanes.get? l = some lane)
    (settled : Settled w.state) (isOver : overBudget w.state ctx = true) (status : ThreadStatus) :
    Ensures (applyThread ctx l status) w fun _ w' => Halted ctx w'.state := by
  have ended := settled l lane here
  rw [applyThread, ensures_bind, ensures_getLane here, ensures_bind, ensures_when]
  constructor
  · intro _
    refine Ensures.mono (reopen_stops here ended isOver) ?_
    intro _ w₁ stopped
    have frame : Frame ctx SteadyCall := steady_frame
    have after := Keeps.bind (keeps_getLane l) fun lane => frame.applyStatus l status lane
    refine Ensures.mono (stopped_of_keeps after stopped) ?_
    exact fun _ _ stopped => .inl fun _ => stopped
  · intro _
    rw [ensures_bind, ensures_getLane here, ensures_when]
    refine ⟨fun going => ?_, fun _ => .inr settled⟩
    simp [ended] at going

theorem settled_modify {s : State} (settled : Settled s) (l : String) {f : Lane → Lane}
    (same : ∀ lane, (f lane).phase = lane.phase) : Settled { s with lanes := s.lanes.modify l f } := by
  intro k lane there
  simp only [Dictionary.get?_modify] at there
  split at there
  · obtain ⟨lane₀, here, rfl⟩ := Option.map_eq_some_iff.mp there
    rw [same]
    exact settled l lane₀ here
  · exact settled k lane there

theorem applyReport_halts {l : String} {lane : Lane} (here : w.state.lanes.get? l = some lane)
    (id_eq : lane.id = l) (settled : Settled w.state) (isOver : overBudget w.state ctx = true)
    (unmerged : w.state.mergeStatus ≠ .pending) (report : LaneReport) :
    Ensures (applyReport ctx lane report) w fun _ w' => Halted ctx w'.state := by
  have ended := settled l lane here
  simp only [applyReport, getState, bind_assoc, pure_bind, ensures_bind, ensures_get]
  -- A lane that is over is in none of the phases that a report needs.
  cases report with
  | usage spent =>
    refine Ensures.mono (applyUsage_charges lane spent) ?_
    exact fun _ _ charges => .inl charges.2
  | bound threadId worktree =>
    refine (ensures_when ..).mpr ⟨fun _ => ?_, fun _ => .inr settled⟩
    unfold applyBound
    split
    · simp only [reject, emit, ensures_modify]
      exact .inr settled
    · have started : lane.phase ≠ .starting := by
        rintro starting
        simp [starting, terminal] at ended
      simp only [changeLane, changeState, ensures_bind, ensures_modify, ensures_when, started,
        false_implies, not_false_iff, true_implies, true_and]
      exact .inr (settled_modify settled _ fun _ => rfl)
  | stopped intentId =>
    refine (ensures_when ..).mpr ⟨fun stopping => ?_, fun _ => .inr settled⟩
    simp [stopping.1, terminal] at ended
  | thread status =>
    rw [id_eq]
    exact applyThread_halts here settled isOver status
  | artifact artifact =>
    refine (ensures_when ..).mpr ⟨fun going => ?_, fun _ => .inr settled⟩
    simp [ended] at going
  | checked intentId commandPassed reviewPassed =>
    refine (ensures_when ..).mpr ⟨fun checking => ?_, fun _ => .inr settled⟩
    simp [checking.1, terminal] at ended
  | executionFailed intentId operation error =>
    refine (ensures_when ..).mpr ⟨fun _ => ?_, fun _ => .inr settled⟩
    simp only [dropIntent, changeState, ensures_bind, ensures_modify]
    split
    · rw [ensures_modify]
      exact .inr settled
    · refine (ensures_when ..).mpr ⟨fun going => ?_, fun _ => .inr settled⟩
      simp [ended] at going
  | merged intentId safetyCheckpoint =>
    exact (ensures_when ..).mpr ⟨fun merging => absurd merging.1 unmerged, fun _ => .inr settled⟩

theorem applyFact_halts (rest : Rest False w.state) (settled : Settled w.state)
    (isOver : overBudget w.state ctx = true)
    (idle : ¬ (0 < w.state.open_ ∨ w.state.mergeStatus = .pending)) (fact : Fact) :
    Ensures (applyFact ctx fact) w fun _ w' => Halted ctx w'.state := by
  simp only [applyFact, getState, bind_assoc, pure_bind, ensures_bind, ensures_get]
  cases fact with
  | ack intentId =>
    simp only [dropIntent, changeState, ensures_modify]
    exact .inr settled
  | cancel => exact (ensures_when ..).mpr ⟨fun busy => absurd busy idle, fun _ => .inr settled⟩
  | tick =>
    rw [ensures_pure]
    exact .inr settled
  | report l attempt report =>
    rw [ensures_whenSome]
    refine ⟨fun lane current => ?_, fun _ => .inr settled⟩
    have here := (Option.filter_eq_some_iff.mp current).1
    exact applyReport_halts here (rest.id_eq l lane here) settled isOver
      (fun merging => idle (.inr merging)) report
  | spawn parentId attempt requestId spec prompt =>
    simp only [applySpawn, getState, bind_assoc, pure_bind, ensures_bind, ensures_get]
    split
    · rw [ensures_pure]
      exact .inr settled
    split
    next =>
      simp only [reject, emit, ensures_modify]
      exact .inr settled
    next parent allowed =>
      -- The parent would still have to be open.
      obtain ⟨here, going⟩ := Option.filter_eq_some_iff.mp allowed
      have ended := settled parentId parent here
      simp [ended] at going
  | pick laneId merge =>
    simp only [applyPick, getState, bind_assoc, pure_bind, ensures_bind, ensures_get]
    split
    next =>
      simp only [reject, emit, ensures_modify]
      exact .inr settled
    next lane chosen =>
      simp only [changeState, emit, ensures_bind, ensures_modify]
      refine Ensures.mono (cancelAll_stops _ _) ?_
      rintro _ w₁ ⟨-, stopped⟩
      exact .inl fun _ => stopped

theorem applyFact_stopped (stopped : w.state.stopReason.isSome = true) (fact : Fact) :
    Ensures (applyFact ctx fact) w fun _ w' => w'.state.stopReason.isSome = true := by
  cases read : counted w.state fact with
  | none =>
    refine Ensures.mono (applyFact_steady read) ?_
    exact fun _ _ steady => steady.stopped stopped
  | some report =>
    obtain ⟨l, lane, spent, rfl, here, -⟩ := counted_eq_some read
    refine Ensures.mono (applyFact_charges here) ?_
    exact fun _ _ charges => charges.1.stopped stopped

end

/-! ### Enforcement -/

/-- A run with open work that is past one of its budgets is stopping. -/
def Enforced (ctx : Context) (s : State) : Prop :=
  let budget := s.input.template.budget
  (∃ l lane, s.lanes.get? l = some lane ∧ terminal lane.phase = false) →
    ((budget.durationMs : Int) ≤ ctx.now - s.startedAt ∨ budget.tokens ≤ s.usage.tokens ∨
      budget.cost ≤ s.usage.cost) →
    s.stopReason.isSome = true ∧
    (∀ l lane, s.lanes.get? l = some lane → terminal lane.phase = false →
      lane.phase = .cancelling) ∧
    ∀ key entry lane, s.intents.get? key = some entry → entry.effect.type ≠ .cancel →
      s.lanes.get? entry.effect.laneId = some lane → canExecute s lane entry.effect = false

theorem Rest.enforced {s : State} {ctx : Context} (rest : Rest False s) (halted : Halted ctx s) :
    Enforced ctx s := by
  rintro ⟨l, lane, here, going⟩ past
  have isOver : overBudget s ctx = true := by
    simpa [overBudget, or_assoc] using past
  have stopped : s.stopReason.isSome = true := by
    rcases halted with stops | settled
    · exact stops isOver
    · rw [settled l lane here] at going
      cases going
  refine ⟨stopped, fun k lane' there going' => ?_, fun key entry lane' pending type _ => ?_⟩
  · exact ((rest.proper k lane' there).halted stopped going').resolve_right id
  · -- A stopped run starts and checks nothing, and nothing is merged beside open work.
    have busy : s.open_ ≠ 0 := by
      have positive := tally_pos (!terminal ·.phase) here (by simp [going])
      rw [rest.open_eq]
      omega
    have stops : s.stopReason.isNone = false := by
      rw [Option.isNone_eq_false_iff]
      exact stopped
    cases effect : entry.effect with
    | start => simp [Orchestrator.canExecute, stops]
    | check => simp [Orchestrator.canExecute, stops]
    | cancel =>
      rw [effect] at type
      exact absurd rfl type
    | merge => simp [Orchestrator.canExecute, busy]

section

variable {ctx : Context} {s : State} {fact : Fact} {m : Mutation}

theorem apply_enforced (reached : Reached s) (ok : apply ctx fact s = .ok m) :
    Enforced ctx m.state := by
  have rest := reached.rest.1
  have rest_after : Rest False m.state := (apply_spec rest (fun impossible => impossible.elim) ok).1
  apply rest_after.enforced
  obtain ⟨w₁, w₂, clock, valid, first, second, third⟩ := apply_parts ok
  obtain ⟨rest₁, -⟩ := (enforceBudget_spec clock rest).ensures ⟨⟩ w₁ first
  obtain ⟨rest₂, -⟩ := (applyFact_spec clock rest₁ valid
    (fun impossible => impossible.elim)).ensures ⟨⟩ w₂ second
  obtain ⟨-, updates⟩ := (updateStatus_spec rest₂).ensures ⟨⟩ m third
  have steady : Steady w₂.state m.state := steady_frame.updateStatus w₂ ⟨⟩ m third
  have kept : w₂.state.stopReason.isSome = true → Halted ctx m.state :=
    fun stopped => .inl fun _ => steady.stopped stopped
  -- The status changes no lane and stops nothing.
  suffices halted : Halted ctx w₂.state by
    rcases halted with stops | settled
    · exact .inl fun isOver => steady.stopped (stops ((steady.overBudget ctx).symm.trans isOver))
    · exact .inr (settled.of_lanes updates.lanes_eq)
  rcases enforceBudget_parts first with ⟨rfl, within⟩ | stopped
  · by_cases running : s.stopReason = none
    · by_cases isOver : overBudget s ctx = true
      · have idle : ¬ (0 < s.open_ ∨ s.mergeStatus = .pending) :=
          fun busy => within ⟨.inl running, busy, isOver⟩
        have settled : Settled s := by
          intro l lane here
          by_contra going
          have positive := tally_pos (!terminal ·.phase) here (by simpa using going)
          rw [← rest.open_eq] at positive
          exact idle (.inl positive)
        exact applyFact_halts rest₁ settled isOver idle fact ⟨⟩ w₂ second
      · -- Only a report of usage takes a run past its budget.
        left
        cases read : counted s fact with
        | none =>
          have same : Steady s w₂.state := applyFact_steady read ⟨⟩ w₂ second
          intro past
          rw [same.overBudget] at past
          exact absurd past isOver
        | some report =>
          obtain ⟨l, lane, spent, rfl, here, -⟩ := counted_eq_some read
          exact (applyFact_charges here ⟨⟩ w₂ second).2
    · have stopped : s.stopReason.isSome = true := Option.isSome_iff_ne_none.mpr running
      exact .inl fun _ => applyFact_stopped stopped fact ⟨⟩ w₂ second
  · have stopped₁ := (cancelAll_stops .budget_exhausted none ⟨⟩ w₁ stopped).2
    exact .inl fun _ => applyFact_stopped stopped₁ fact ⟨⟩ w₂ second

/-! ### Runs -/

theorem enforceBudget_meters {w w₁ : Mutation} (clock : ctx.time ≤ maxSafeInteger)
    (rest : Rest False w.state) (run : enforceBudget ctx w = .ok (⟨⟩, w₁)) (l : String) :
    (w₁.state.lanes.get? l).map (fun lane => (lane.attempt, lane.attemptUsage)) =
      (w.state.lanes.get? l).map (fun lane => (lane.attempt, lane.attemptUsage)) := by
  rcases enforceBudget_parts run with ⟨rfl, -⟩ | stopped
  · rfl
  · obtain ⟨-, stops⟩ := (cancelAll_spec clock rest .budget_exhausted none
      (fun _ impossible => by cases impossible)).ensures ⟨⟩ w₁ stopped
    have steady := cancelAll_steady .budget_exhausted none ⟨⟩ w₁ stopped
    cases here : w.state.lanes.get? l with
    | none =>
      have absent : w₁.state.lanes.get? l = none := by
        rw [← Option.not_isSome_iff_eq_none, ← Dictionary.mem_keys_iff, stops.keys_eq,
          Dictionary.mem_keys_iff, here]
        simp
      rw [absent]
    | some lane =>
      obtain ⟨lane', there, attempt, usage⟩ := steady.attempt_of_stopped rfl here
      rw [there, Option.map_some, Option.map_some, attempt, usage]

/-- A run whose steps are all allowed, with what was reported for the attempts of the time. -/
inductive Metered (allowed : State → Fact → Prop) :
    List ((String × Nat) × Nat) → State → Prop where
  | start {m : Mutation} (started : Started m) : Metered allowed [] m.state
  | step {ctx : Context} {fact : Fact} {reports : List ((String × Nat) × Nat)} {s : State}
      {m : Mutation} (before : Metered allowed reports s) (allows : allowed s fact)
      (ok : apply ctx fact s = .ok m) :
      Metered allowed (reports ++ (counted s fact).toList) m.state

theorem Metered.reached {allowed : State → Fact → Prop} {reports : List ((String × Nat) × Nat)}
    (metered : Metered allowed reports s) : Reached s := by
  induction metered with
  | start started => exact .start started
  | step before allows ok ih => exact .step ih ok

def Unrounded (s : State) (fact : Fact) : Prop :=
  ∀ l lane spent, fact = .report l lane.attempt (.usage spent) → s.lanes.get? l = some lane →
    Countable s.usage.tokens lane.attemptUsage.tokens spent.tokens

theorem steady_startLane (input : Create) (entry : LaneSpec × Nat) :
    Keeps SteadyCall (startLane ctx input entry) := by
  refine Keeps.bind (steady_addLane _ _ _ _) fun id => Keeps.when fun _ => ?_
  exact steady_frame.start id none

theorem Started.accounted (started : Started m) : Accounted [] m.state := by
  have begun : ∀ {ctx : Context} {id : String} {input : Create} {drawn : Nat},
      initializeRun ctx id input drawn = .ok m → Accounted [] m.state := by
    intro ctx id input drawn ok
    have empty : Accounted [] ({ id, runId := "", input, startedAt := ctx.time } : State) := by
      refine ⟨rfl, fun l lane impossible => ?_, fun _ impossible => by cases impossible⟩
      simp at impossible
    have run : Keeps SteadyCall (do
        validateClock ctx
        let runId ← nextId ctx .run
        changeState fun s => { s with runId }
        (input.template.lanes.zipIdx).forM (startLane ctx input)
        emit (.status (← getState).status)) := by
      refine Keeps.bind keeps_refuse fun _ => Keeps.bind (fun w => ?_) fun runId => ?_
      · apply ensures_nextId
        exact Steady.refl w.state
      · refine Keeps.bind (fun w => steady_changeState (.of_lanes rfl rfl rfl rfl fun h => h)) fun _ => ?_
        refine Keeps.bind (Keeps.forM fun entry _ => steady_startLane input entry) fun _ => ?_
        exact Keeps.bind keeps_getState fun _ => (@steady_frame ctx).emit _
    unfold initializeRun at ok
    dsimp only at ok
    generalize done : (do
        validateClock ctx
        let runId ← nextId ctx .run
        changeState fun s => { s with runId }
        (input.template.lanes.zipIdx).forM (startLane ctx input)
        emit (.status (← getState).status) : Reducer PUnit) _ = result at ok
    cases result with
    | error e => cases ok
    | ok result =>
      cases ok
      exact empty.steady (run _ ⟨⟩ result.2 done)
  cases started with
  | create ok =>
    unfold Orchestrator.create at ok
    split at ok
    next => cases ok
    next =>
      dsimp only at ok
      split at ok
      next => exact begun ok
      next => cases ok
  | rerun _ ok =>
    unfold Orchestrator.rerun at ok
    split at ok
    next => cases ok
    next =>
      split at ok
      next => cases ok
      next => exact begun ok

theorem Accounted.apply {reports : List ((String × Nat) × Nat)} (accounted : Accounted reports s)
    (rest : Rest False s) (unrounded : Unrounded s fact) (ok : apply ctx fact s = .ok m) :
    Accounted (reports ++ (counted s fact).toList) m.state := by
  obtain ⟨w₁, w₂, clock, valid, first, second, third⟩ := apply_parts ok
  obtain ⟨rest₁, -⟩ := (enforceBudget_spec clock rest).ensures ⟨⟩ w₁ first
  have steady₁ : Steady s w₁.state := steady_frame.enforceBudget { state := s } ⟨⟩ w₁ first
  have steady₃ : Steady w₂.state m.state := steady_frame.updateStatus w₂ ⟨⟩ m third
  have accounted₁ := accounted.steady steady₁
  have meters := enforceBudget_meters clock rest first
  rw [← counted_congr meters fact]
  cases read : counted w₁.state fact with
  | none =>
    have steady₂ : Steady w₁.state w₂.state := applyFact_steady read ⟨⟩ w₂ second
    rw [Option.toList_none, List.append_nil]
    exact (accounted₁.steady steady₂).steady steady₃
  | some report =>
    obtain ⟨l, lane, spent, rfl, here, rfl⟩ := counted_eq_some read
    have charges := (applyFact_charges here ⟨⟩ w₂ second).1
    -- The lane had the same meter before the budget was enforced.
    have before := meters l
    rw [here, Option.map_some] at before
    obtain ⟨lane₀, here₀, same⟩ := Option.map_eq_some_iff.mp before.symm
    simp only [Prod.mk.injEq] at same
    have countable : Countable w₁.state.usage.tokens lane.attemptUsage.tokens spent.tokens := by
      rw [steady₁.usage, ← same.2]
      exact unrounded l lane₀ spent (by rw [same.1]) here₀
    have total_valid := ((State.headValid_iff _).mp rest₁.head).2.2.2.2.1
    have content := (Lane.contentValid_iff lane).mp (rest₁.proper l lane here).content
    have before_valid := content.2.2.2.2.2.2.2.2.2.2.2.2.1
    have spent_valid : spent.valid = true := by
      simp only [Fact.valid, LaneReport.valid, Bool.and_eq_true] at valid
      exact valid.2
    rw [Usage.valid_iff] at total_valid before_valid spent_valid
    have exact_ := (charge_tokens_iff total_valid.1 before_valid.1 spent_valid.1).mpr countable
    rw [Option.toList_some]
    exact ((accounted₁.charge here (rest₁.id_eq l lane here) exact_).steady charges).steady steady₃

theorem Metered.accounted {reports : List ((String × Nat) × Nat)}
    (metered : Metered Unrounded reports s) : Accounted reports s := by
  induction metered with
  | start started => exact started.accounted
  | step before allows ok ih => exact ih.apply before.reached.rest.1 allows ok

end

/-! ### Sample runs -/

instance (total before spent : Nat) : Decidable (Countable total before spent) := by
  unfold Countable
  infer_instance

/-- Whether no sum of a report is rounded. -/
def unrounded (s : State) : Fact → Bool
  | .report l attempt (.usage spent) => (s.lanes.get? l).all fun lane =>
      decide (lane.attempt = attempt → Countable s.usage.tokens lane.attemptUsage.tokens spent.tokens)
  | _ => true

theorem unrounded_of_check {s : State} {fact : Fact} (check : unrounded s fact = true) :
    Unrounded s fact := by
  rintro l lane spent rfl here
  simpa [unrounded, here] using check

/-- Facts for a run, with the reports that count. -/
def meterRun (check : State → Fact → Bool) : List (Context × Fact) →
    List ((String × Nat) × Nat) × State → Option (List ((String × Nat) × Nat) × State)
  | [], result => some result
  | (ctx, fact) :: steps, (reports, s) =>
    if check s fact then
      match apply ctx fact s with
      | .ok m => meterRun check steps (reports ++ (counted s fact).toList, m.state)
      | .error _ => none
    else none

theorem metered_meterRun {check : State → Fact → Bool} {allowed : State → Fact → Prop}
    (sound : ∀ s fact, check s fact = true → allowed s fact) (steps : List (Context × Fact)) :
    ∀ {before after : List ((String × Nat) × Nat) × State}, Metered allowed before.1 before.2 →
      meterRun check steps before = some after → Metered allowed after.1 after.2 := by
  induction steps with
  | nil =>
    intro before after metered run
    cases run
    exact metered
  | cons step steps ih =>
    rintro ⟨reports, s⟩ after metered run
    obtain ⟨ctx, fact⟩ := step
    rw [meterRun] at run
    split at run
    next checked =>
      split at run
      next m ok => exact ih (metered.step (sound s fact checked) ok) run
      next => cases run
    next => cases run

/-- One lane, with a budget that no report reaches. -/
def meteredCreate : Create :=
  let input := sampleCreate .fanout 1
  { input with template := { input.template with
      budget := { input.template.budget with tokens := maxSafeInteger } } }

/-- Reports of usage for the first attempt of the lane. -/
def usageReports (tokens : List Nat) : List (Context × Fact) :=
  atMoments 1 (tokens.map fun tokens => .report "l0-2" 1 (.usage { tokens }))

/-- A new run, and reports of usage for it. -/
def meterSample (check : State → Fact → Bool) (tokens : List Nat) :
    Option (List ((String × Nat) × Nat) × State) :=
  match create (sampleContext 0) meteredCreate with
  | .ok m => meterRun check (usageReports tokens) ([], m.state)
  | .error _ => none

theorem metered_meterSample (check : State → Fact → Bool) {allowed : State → Fact → Prop}
    (sound : ∀ s fact, check s fact = true → allowed s fact) (tokens : List Nat)
    (p : List ((String × Nat) × Nat) × State → Bool)
    (run : (meterSample check tokens).any p = true) :
    ∃ reports s, Metered allowed reports s ∧ p (reports, s) = true := by
  obtain ⟨⟨reports, s⟩, result, holds⟩ := (Option.any_eq_true ..).mp run
  refine ⟨reports, s, ?_, holds⟩
  unfold meterSample at result
  split at result
  next m ok => exact metered_meterRun sound _ (.start (.create ok)) result
  next => cases result

end Ace.Orchestrator
