import Ace.Properties.Budgets

/-!
# Stopped runs

Facts come late and in any order, and lanes that were over are taken up again. A stop is not
taken back all the same.

## Main result

`stopped_of_applyAll`
-/

namespace Ace.Orchestrator

open Script Script.Command

variable {ctx : Context} {s s' s'' : State}

/-- `s'` is stopped, and has every lane of `s` in the attempt it was in. -/
structure Final (s s' : State) : Prop where
  stopped : s'.stopReason.isSome = true
  lane : ∀ l lane, s.lanes.get? l = some lane →
    ∃ lane', s'.lanes.get? l = some lane' ∧ lane'.attempt = lane.attempt

theorem Final.trans (first : Final s s') (second : Final s' s'') : Final s s'' where
  stopped := second.stopped
  lane l lane here := by
    obtain ⟨lane', there, attempt'⟩ := first.lane l lane here
    obtain ⟨lane'', later, attempt''⟩ := second.lane l lane' there
    exact ⟨lane'', later, attempt''.trans attempt'⟩

theorem Steady.final (steady : Steady s s') (stopped : s.stopReason.isSome = true) :
    Final s s' where
  stopped := steady.stopped stopped
  lane l lane here := by
    obtain ⟨lane', there, attempt, -⟩ := steady.attempt_of_stopped stopped here
    exact ⟨lane', there, attempt⟩

theorem final_charged (stopped : s.stopReason.isSome = true) (charged : Lane) (spent : Usage) :
    Final s (s.charged charged spent) where
  stopped := stopped
  lane l lane here := by
    by_cases same : charged.id = l
    · subst same
      exact ⟨_, (Dictionary.get?_modify_self ..).trans (congrArg _ here), rfl⟩
    · exact ⟨lane, by simp [State.charged, Dictionary.get?_modify, same, here], rfl⟩

theorem applyFact_final {w : Mutation} (stopped : w.state.stopReason.isSome = true) (fact : Fact) :
    Ensures (applyFact ctx fact) w fun _ w' => Final w.state w'.state := by
  cases read : counted w.state fact with
  | none =>
    refine Ensures.mono (applyFact_steady read) ?_
    exact fun _ _ steady => steady.final stopped
  | some report =>
    -- The charge touches only meters, whatever it does to the budget.
    obtain ⟨l, lane, spent, rfl, here, -⟩ := counted_eq_some read
    refine Ensures.mono (applyFact_charges here) ?_
    exact fun _ _ charges => (final_charged stopped lane spent).trans (charges.1.final stopped)

theorem apply_final {fact : Fact} {m : Mutation} (stopped : s.stopReason.isSome = true)
    (ok : apply ctx fact s = .ok m) : Final s m.state := by
  obtain ⟨w₁, w₂, -, -, first, second, third⟩ := apply_parts ok
  have final₁ : Final s w₁.state :=
    (steady_frame.enforceBudget { state := s } ⟨⟩ w₁ first).final stopped
  have final₂ : Final w₁.state w₂.state := applyFact_final final₁.stopped fact ⟨⟩ w₂ second
  have final₃ : Final w₂.state m.state :=
    (steady_frame.updateStatus w₂ ⟨⟩ m third).final final₂.stopped
  exact (final₁.trans final₂).trans final₃

theorem applyAll_final {steps : List (Context × Fact)} (stopped : s.stopReason.isSome = true)
    (ok : applyAll steps s = .ok s') : Final s s' := by
  induction steps generalizing s with
  | nil =>
    cases ok
    exact ⟨stopped, fun l lane here => ⟨lane, here, rfl⟩⟩
  | cons first rest ih =>
    obtain ⟨ctx, fact⟩ := first
    unfold applyAll at ok
    cases step : apply ctx fact s with
    | error e =>
      rw [step] at ok
      cases ok
    | ok m =>
      rw [step] at ok
      have final := apply_final stopped step
      exact final.trans (ih final.stopped ok)

/-- Whatever facts follow, a stopped run stays stopped, every lane it has is over or being
cancelled, and no lane starts another attempt. -/
theorem stopped_of_applyAll (reached : Reached s) (stopped : s.stopReason.isSome = true)
    {steps : List (Context × Fact)} (ok : applyAll steps s = .ok s') :
    s'.stopReason.isSome = true ∧ s'.status ≠ .waiting ∧
      (s'.status = .running → s'.mergeStatus = .pending) ∧
      (∀ l lane', s'.lanes.get? l = some lane' →
        terminal lane'.phase = true ∨ lane'.phase = .cancelling) ∧
      ∀ l lane, s.lanes.get? l = some lane →
        ∃ lane', s'.lanes.get? l = some lane' ∧ lane'.attempt = lane.attempt := by
  obtain ⟨rest, status⟩ := (reached.applyAll ok).rest
  have consistent := rest.consistent status
  have final := applyAll_final stopped ok
  have stop := final.stopped
  -- What is open is being cancelled; else the status is final, or a merge is pending.
  have halted : s'.status ≠ .waiting ∧ (s'.status = .running → s'.mergeStatus = .pending) := by
    rw [status]
    unfold runStatus
    constructor <;> split_ifs <;> simp_all
  refine ⟨stop, halted.1, halted.2, fun l lane' there => ?_, final.lane⟩
  by_cases isOver : terminal lane'.phase = true
  · exact .inl isOver
  · exact .inr (consistent.stopped stop l lane' there (by simpa using isOver))

/-- The lead of a run that was cancelled is at work again. -/
def lateFacts : List Fact := [.report "l0-2" 1 (.thread (.working 5)), .tick]

theorem stopped_of_sampleFacts :
    ∃ s steps s', Reached s ∧ s.stopReason.isSome = true ∧ applyAll steps s = .ok s' ∧
      s'.stopReason.isSome = true ∧ steps.length = 2 := by
  obtain ⟨s, run, holds⟩ := sampleRun_reaches
    (show (sampleRun (sampleCreate .coordinator 1) (sampleFacts ++ [.cancel])).toOption.any
      (fun s => s.stopReason.isSome && (applyAll (atMoments 5 lateFacts) s).toOption.isSome) =
        true by decide +kernel)
  obtain ⟨stopped, later⟩ := Bool.and_eq_true_iff.mp holds
  have reached := reached_sampleRun run
  cases ok : applyAll (atMoments 5 lateFacts) s with
  | error e =>
    rw [ok] at later
    cases later
  | ok s' => exact ⟨s, _, s', reached, stopped, ok, (stopped_of_applyAll reached stopped ok).1, rfl⟩

end Ace.Orchestrator
