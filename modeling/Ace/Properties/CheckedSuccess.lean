import Ace.Properties.Emissions
import Ace.Properties.Orchestrations

/-!
# No unchecked success

A lane succeeds by a passed check only, and a check that is still pending was requested for
the work as it is: while its intent is pending the lane is `checking`, which a report of its
thread and an open descendant would both end.

## Main result

`checked_of_success`
-/

namespace Ace.Orchestrator

open Script.Command

variable {ctx : Context} {s : State} {w : Mutation} {strict : Prop}

/-! ### Runs -/

/-- A run with what each call returned: `result 0` is its start, and `fact n` leads from
`result n` to `result (n + 1)`. -/
structure Run where
  length : Nat
  result : Nat → Mutation
  context : Nat → Context
  fact : Nat → Fact
  started : Started (result 0)
  steps : ∀ n < length, apply (context n) (fact n) (result n).state = .ok (result (n + 1))

theorem Run.reached (run : Run) {n : Nat} (within : n ≤ run.length) :
    Reached (run.result n).state := by
  induction n with
  | zero => exact .start run.started
  | succ n ih => exact .step (ih (by omega)) (run.steps n within)

/-- What the calls return, one after another. -/
def follow : List (Context × Fact) → Mutation → Nat → Mutation
  | (ctx, fact) :: rest, m, n + 1 =>
    match apply ctx fact m.state with
    | .ok m' => follow rest m' n
    | .error _ => m
  | _, m, _ => m

theorem follow_steps {steps : List (Context × Fact)} {m : Mutation} {last : State}
    (ok : applyAll steps m.state = .ok last) {n : Nat} {ctx : Context} {fact : Fact}
    (step : steps[n]? = some (ctx, fact)) :
    apply ctx fact (follow steps m n).state = .ok (follow steps m (n + 1)) := by
  induction steps generalizing m n with
  | nil => cases step
  | cons first rest ih =>
    obtain ⟨ctx₁, fact₁⟩ := first
    simp only [applyAll] at ok
    cases applied : apply ctx₁ fact₁ m.state with
    | error e =>
      rw [applied] at ok
      cases ok
    | ok m' =>
      rw [applied] at ok
      cases n with
      | zero =>
        cases step
        simp only [follow, applied]
      | succ n =>
        simp only [follow, applied]
        exact ih ok (by simpa using step)

/-- The run of a list of facts. -/
def Run.follow {m : Mutation} (started : Started m) (steps : List (Context × Fact)) {last : State}
    (ok : applyAll steps m.state = .ok last) : Run where
  length := steps.length
  result := Orchestrator.follow steps m
  context n := (steps.getD n (sampleContext n, .tick)).1
  fact n := (steps.getD n (sampleContext n, .tick)).2
  started := by
    have first : Orchestrator.follow steps m 0 = m := by cases steps <;> rfl
    rw [first]
    exact started
  steps n within := by
    have step : steps[n]? = some (steps.getD n (sampleContext n, .tick)) := by
      simp [within]
    exact follow_steps ok step

theorem Run.source (run : Run) {n : Nat} (within : n < run.length) {key : String} {entry : Intent}
    (pending : (run.result (n + 1)).state.intents.get? key = some entry) :
    (run.result n).state.intents.get? key = some entry ∨ entry ∈ (run.result (n + 1)).intents := by
  have issues := keeps_foldFact (run.fact n) { state := (run.result n).state } ⟨⟩
    (run.result (n + 1)) (apply_eq_ok.mp (run.steps n within))
  exact (issues.source key entry pending).imp_right And.left

/-! ### The work below a lane -/

/-- `k` is a lane below `l`. -/
inductive Below (s : State) (l : String) : String → Prop where
  | child {k : String} {lane : Lane} (here : s.lanes.get? k = some lane)
      (nested : lane.parentId = some l) : Below s l k
  | step {k p : String} {lane : Lane} (here : s.lanes.get? k = some lane)
      (nested : lane.parentId = some p) (up : Below s l p) : Below s l k

theorem Rest.below_closed (rest : Rest strict s) {l k : String} {lane : Lane}
    (here : s.lanes.get? l = some lane) (childless : lane.children = 0) (below : Below s l k) :
    ∃ found, s.lanes.get? k = some found ∧ terminal found.phase = true := by
  induction below with
  | child there nested => exact ⟨_, there, rest.childless here childless there nested⟩
  | step there nested up ih =>
    -- The parent is over, so that it has no open child either.
    obtain ⟨parent, above, isOver⟩ := ih
    have none_open := (rest.proper _ parent above).isOver isOver
    exact ⟨_, there, rest.childless above none_open there nested⟩

theorem Rest.check_pending (rest : Rest strict s) {key l : String} {attempt : Nat}
    {artifact : Artifact}
    (pending : s.intents.get? key = some { id := key, effect := .check l attempt artifact }) :
    ∃ lane, s.lanes.get? l = some lane ∧ lane.attempt = attempt ∧ lane.phase = .checking ∧
      lane.children = 0 := by
  obtain ⟨lane, here⟩ := Option.isSome_iff_exists.mp (rest.owner key _ pending)
  obtain ⟨current, checking, -, childless, -⟩ := (rest.tended l lane here).suits key _ pending rfl
  exact ⟨lane, here, current.symm, checking, childless⟩

/-! ### A thread that is not done -/

theorem Rest.not_checking (rest : Rest strict s) (stopped : s.stopReason.isSome = true) {l : String}
    {lane : Lane} (here : s.lanes.get? l = some lane) : lane.phase ≠ .checking := by
  intro checking
  have going : terminal lane.phase = false := by rw [checking]; rfl
  rcases (rest.proper l lane here).halted stopped going with stopping | impossible
  · rw [checking] at stopping
    cases stopping
  · exact impossible

theorem foldFact_thread (rest : Rest False w.state) {l : String} {lane : Lane}
    {status : ThreadStatus} (undone : status ≠ .done) (here : w.state.lanes.get? l = some lane) :
    Meets Ordinary (foldFact ctx (.report l lane.attempt (.thread status))) w fun _ w' =>
      ∀ lane', w'.state.lanes.get? l = some lane' → lane'.phase ≠ .checking := by
  rw [foldFact, meets_bind]
  apply meets_validateClock
  intro clock
  rw [meets_bind, meets_refuse]
  refine ⟨fun _ => trivial, fun valid => ?_⟩
  rw [meets_bind]
  apply Meets.mono (enforceBudget_spec clock rest)
  rintro _ w₁ ⟨rest₁, budget⟩
  rw [meets_bind]
  -- Where the report is not about this attempt, the run was just stopped.
  have reported : Meets Ordinary (applyFact ctx (.report l lane.attempt (.thread status))) w₁
      fun _ w₂ => Rest False w₂.state ∧
        ∀ lane', w₂.state.lanes.get? l = some lane' → lane'.phase ≠ .checking := by
    simp only [applyFact, meets_bind, meets_getState, meets_whenSome]
    constructor
    · intro lane₁ chosen
      obtain ⟨here₁, _⟩ := Option.filter_eq_some_iff.mp chosen
      simp only [applyReport, meets_bind, meets_getState]
      rw [rest₁.id_eq l lane₁ here₁]
      apply Meets.mono (applyThread_spec clock rest₁ here₁ status (fun impossible => impossible.elim))
      rintro _ w₂ ⟨kept, unchecked⟩
      exact ⟨kept.1, unchecked undone⟩
    · intro absent
      refine ⟨rest₁, ?_⟩
      intro lane' there
      rcases budget with same | ⟨-, stops⟩
      · rw [same, here] at absent
        simp at absent
      · exact rest₁.not_checking (by rw [stops.stopReason_eq]; rfl) there
  apply Meets.mono reported
  rintro _ w₂ ⟨rest₂, unchecked⟩
  apply Meets.mono (updateStatus_spec rest₂)
  rintro _ w₃ ⟨-, updates⟩
  rw [updates.lanes_eq]
  exact unchecked

/-! ### Success -/

/-- Every lane that enters `succeeded` does so by a passed check of the artifact it has. Since
that check was requested, its thread was reported done if at all, and nothing below it was
open. -/
theorem checked_of_success (run : Run) (n : Nat) (within : n < run.length) (l : String)
    (lane' : Lane) (there : (run.result (n + 1)).state.lanes.get? l = some lane')
    (success : lane'.phase = .succeeded)
    (entered : ∀ lane, (run.result n).state.lanes.get? l = some lane → lane.phase ≠ .succeeded) :
    ∃ lane key reviewPassed artifact requested,
      (run.result n).state.lanes.get? l = some lane ∧ lane.artifact = some artifact ∧
      run.fact n = .report l lane.attempt (.checked key true reviewPassed) ∧
      ((run.result n).state.input.template.checks.asksReview = true → reviewPassed = some true) ∧
      requested ≤ n ∧
      { id := key, effect := .check l lane.attempt artifact } ∈ (run.result requested).intents ∧
      ∀ i, requested ≤ i → i ≤ n →
        (run.result i).state.intents.get? key =
          some { id := key, effect := .check l lane.attempt artifact } ∧
        (∀ k, Below (run.result i).state l k →
          ∃ found, (run.result i).state.lanes.get? k = some found ∧
            terminal found.phase = true) ∧
        ∀ status, i < n → run.fact i = .report l lane.attempt (.thread status) →
          status = .done := by
  have rests : ∀ {i}, i ≤ n → Rest False (run.result i).state :=
    fun le => (run.reached (by omega)).rest.1
  obtain ⟨-, -, successes⟩ := apply_spec (rests (le_refl n)) (fun impossible => impossible.elim)
    (run.steps n within)
  obtain ⟨lane, report, here, fact, key, reviewPassed, artifact, rfl, review, pending, -, has⟩ :
      Succeeds (run.result n).state l (run.fact n) := by
    rcases successes l lane' there success with succeeds | ⟨lane, here, already⟩
    · exact succeeds
    · exact absurd already (entered lane here)
  -- The check has been pending since some step put it there.
  let Pending (i : Nat) : Prop := (run.result i).state.intents.get? key =
    some { id := key, effect := .check l lane.attempt artifact }
  have some_start : ∃ j, j ≤ n ∧ ∀ i, j ≤ i → i ≤ n → Pending i :=
    ⟨n, le_refl n, fun i ge le => by rw [show i = n by omega]; exact pending⟩
  classical
  let first := Nat.find some_start
  obtain ⟨first_le, since⟩ := Nat.find_spec some_start
  have emitted : { id := key, effect := .check l lane.attempt artifact } ∈
      (run.result first).intents := by
    rcases Nat.eq_zero_or_pos first with zero | positive
    · -- A run starts without checks.
      obtain ⟨_, beginning, -⟩ := run.started.beginning False
      have here₀ := since 0 (by omega) (Nat.zero_le n)
      have start := beginning.starts key _ here₀
      cases start
    · have not_before : ¬ Pending (first - 1) := by
        intro before
        refine Nat.find_min some_start (show first - 1 < first by omega) ⟨by omega, ?_⟩
        intro i ge le
        rcases Nat.eq_or_lt_of_le ge with same | later
        · rw [← same]
          exact before
        · exact since i (by omega) le
      have step : first - 1 + 1 = first := by omega
      have put : Pending (first - 1 + 1) := by
        rw [step]
        exact since first (le_refl _) first_le
      rcases run.source (by omega) put with before | emitted
      · exact absurd before not_before
      · rw [step] at emitted
        exact emitted
  refine ⟨lane, key, reviewPassed, artifact, first, here, has, fact, review, first_le, emitted, ?_⟩
  intro i ge le
  have pending_i := since i ge le
  obtain ⟨lane_i, here_i, current, -, childless⟩ := (rests le).check_pending pending_i
  refine ⟨pending_i, fun k below => (rests le).below_closed here_i childless below, ?_⟩
  intro status before reported
  -- Such a report ends the check, which the next step still has pending.
  by_contra undone
  have next := (rests (show i + 1 ≤ n by omega)).check_pending (since (i + 1) (by omega) before)
  obtain ⟨lane_next, here_next, -, checking, -⟩ := next
  have applied := apply_eq_ok.mp (run.steps i (by omega))
  rw [reported, ← current] at applied
  have ended := (foldFact_thread (w := { state := (run.result i).state }) (rests le) undone
    here_i).ensures ⟨⟩ _ applied
  exact ended lane_next here_next checking

/-- A lane that is bound, done, and checked. -/
def sampleSuccess : List Fact := [
  .report "l0-2" 1 (.bound "thread" "tree"),
  .report "l0-2" 1 (.thread .done),
  .report "l0-2" 1 (.artifact { checkpoint := "c", summary := "", tests := ⟨1, 0, none⟩ }),
  .report "l0-2" 1 (.checked "i3-0" true none)]

theorem checked_of_sampleSuccess :
    ∃ (run : Run) (lane : Lane) (key : String) (reviewPassed : Option Bool) (artifact : Artifact)
      (requested : Nat), run.length = 4 ∧ requested ≤ 3 ∧
      run.fact 3 = .report "l0-2" lane.attempt (.checked key true reviewPassed) ∧
      { id := key, effect := .check "l0-2" lane.attempt artifact } ∈
        (run.result requested).intents := by
  let steps := atMoments 1 sampleSuccess
  have succeeds : (create (sampleContext 0) (sampleCreate .fanout 1)).toOption.any (fun m =>
      (applyAll steps m.state).toOption.isSome &&
        ((follow steps m 4).state.lanes.get? "l0-2").any (·.phase = .succeeded) &&
        ((follow steps m 3).state.lanes.get? "l0-2").all (·.phase ≠ .succeeded)) = true := by
    decide +kernel
  cases created : create (sampleContext 0) (sampleCreate .fanout 1) with
  | error e =>
    rw [created] at succeeds
    cases succeeds
  | ok m =>
    rw [created] at succeeds
    simp only [Except.toOption, Option.any_some, Bool.and_eq_true] at succeeds
    obtain ⟨⟨ran, after⟩, before⟩ := succeeds
    cases applied : applyAll steps m.state with
    | error e =>
      rw [applied] at ran
      cases ran
    | ok last =>
      obtain ⟨lane', there, success⟩ := (Option.any_eq_true ..).mp after
      obtain ⟨lane, key, reviewPassed, artifact, requested, -, -, fact, -, le, emitted, -⟩ :=
        checked_of_success (Run.follow (.create created) steps applied) 3 (Nat.lt_succ_self 3) "l0-2"
          lane' there (by simpa using success) (fun lane here => by
            have unfinished := (Option.all_eq_true ..).mp before lane here
            simpa using unfinished)
      exact ⟨_, lane, key, reviewPassed, artifact, requested, rfl, le, fact, emitted⟩

end Ace.Orchestrator
