import Ace.Properties.RunSteps

/-!
# Frames of the reducer

A relation between the states before and after a call is kept by every command of the reducer
as soon as the few primitive changes keep it. Reports of usage are the only facts that a frame
leaves out: they change what the others never touch.
-/

namespace Ace.Orchestrator

open Script Script.Command

/-! ### Primitive changes -/

/-- A change of a lane within its attempt. -/
def WithinAttempt (f : Lane → Lane) : Prop :=
  ∀ lane, (f lane).attempt = lane.attempt ∧ (f lane).attemptUsage = lane.attemptUsage

/-- A change of the run beside its lanes and intents, which takes no stop back. -/
structure RunChange (f : State → State) : Prop where
  input : ∀ s, (f s).input = s.input := by intro _; rfl
  startedAt : ∀ s, (f s).startedAt = s.startedAt := by intro _; rfl
  usage : ∀ s, (f s).usage = s.usage := by intro _; rfl
  lanes : ∀ s, (f s).lanes = s.lanes := by intro _; rfl
  intents : ∀ s, (f s).intents = s.intents := by intro _; rfl
  stopReason : ∀ s, s.stopReason.isSome = true → (f s).stopReason.isSome = true := by
    intro _ stopped; exact stopped

theorem RunChange.apart {f : State → State}
    (same : ∀ s, ((f s).input, (f s).startedAt, (f s).usage, (f s).lanes, (f s).intents,
      (f s).stopReason) = (s.input, s.startedAt, s.usage, s.lanes, s.intents, s.stopReason)) :
    RunChange f := by
  simp only [Prod.mk.injEq] at same
  refine ⟨fun s => (same s).1, fun s => (same s).2.1, fun s => (same s).2.2.1,
    fun s => (same s).2.2.2.1, fun s => (same s).2.2.2.2.1, fun s stopped => ?_⟩
  rwa [(same s).2.2.2.2.2]

def Lane.retried (lane : Lane) : Lane :=
  { lane with
    attempt := lane.attempt + 1
    threadDone := false
    attemptUsage := {}
    threadId := none
    worktree := none
    artifact := none
    checksPassed := none }

/-- What a relation has to allow. -/
structure Frame (ctx : Context) (R : Mutation → Mutation → Prop) : Prop where
  emit : ∀ event, Keeps R (emit event)
  intent : ∀ effect, Keeps R (intent ctx effect)
  addLane : ∀ spec prompt stage parent, Keeps R (addLane ctx spec prompt stage parent)
  run : ∀ f, RunChange f → Keeps R (changeState f)
  lane : ∀ id f, WithinAttempt f → Keeps R (changeLane id f)
  drop : ∀ f : Dictionary Intent → Dictionary Intent,
    (∀ intents key entry, (f intents).get? key = some entry → intents.get? key = some entry) →
    Keeps R (changeState fun s => { s with intents := f s.intents })
  retry : ∀ id w, w.state.stopReason = none →
    Ensures (changeLane id Lane.retried) w fun _ w' => R w w'

section Frame

variable {ctx : Context} {R : Mutation → Mutation → Prop} [Std.Refl R] [IsTrans Mutation R]

theorem keeps_getState_bind {β : Type} {f : State → Reducer β}
    (next : ∀ w, Ensures (f w.state) w fun _ w' => R w w') : Keeps R (getState >>= f) := by
  intro w
  simp only [getState, ensures_bind, ensures_get, ensures_pure]
  exact next w

omit [IsTrans Mutation R] in
theorem keeps_getState : Keeps R getState := by
  intro w
  simpa [getState] using Std.Refl.refl (r := R) w

theorem ensures_getLane {Q : Lane → Mutation → Prop} {w : Mutation} {id : String} {lane : Lane}
    (here : w.state.lanes.get? id = some lane) : Ensures (getLane id) w Q ↔ Q lane w := by
  simp [getLane, getState, here]

omit [IsTrans Mutation R] in
theorem keeps_refuse {c : Prop} [Decidable c] {e : Fault} :
    Keeps R (refuse c e : Reducer PUnit) := by
  intro w
  rw [ensures_refuse]
  exact fun _ => Std.Refl.refl w

theorem keeps_getLane (id : String) : Keeps R (getLane id) := by
  refine Keeps.bind keeps_getState fun s => ?_
  split
  · exact keeps_pure _
  · exact keeps_throw _

theorem Ensures.after {α β : Type} {m : Reducer α} {f : α → Reducer β} {w : Mutation}
    (first : Ensures m w fun _ w' => R w w') (second : ∀ a, Keeps R (f a)) :
    Ensures (m >>= f) w fun _ w' => R w w' := by
  rw [ensures_bind]
  refine Ensures.mono first ?_
  intro a w' before
  refine Ensures.mono (second a w') ?_
  intro _ w'' after
  exact IsTrans.trans w w' w'' before after

namespace Frame

variable (frame : Frame ctx R)

include frame

/-! ### The commands of one lane -/

omit [Std.Refl R] [IsTrans Mutation R] in
theorem reject (reason : String) : Keeps R (reject reason) := frame.emit _

theorem phase (id : String) (next : LanePhase) : Keeps R (phase id next) := by
  refine Keeps.bind (keeps_getLane id) fun lane => ?_
  split
  · exact keeps_pure _
  · exact Keeps.bind (frame.run _ (.apart fun _ => rfl)) fun _ =>
      Keeps.bind (frame.lane id _ fun _ => ⟨rfl, rfl⟩) fun _ => frame.emit _

omit [Std.Refl R] [IsTrans Mutation R] in
theorem dropIntents (p : Effect → Bool) : Keeps R (dropIntents p) :=
  frame.drop _ fun _ _ _ pending => ((Dictionary.get?_filter_eq_some ..).mp pending).1

omit [Std.Refl R] [IsTrans Mutation R] in
theorem dropIntent (intentId : String) : Keeps R (dropIntent intentId) :=
  frame.drop _ fun _ _ _ pending => (get?_erase_some.mp pending).2

theorem clearChecks (id : String) : Keeps R (clearChecks id) :=
  Keeps.bind (frame.lane id _ fun _ => ⟨rfl, rfl⟩) fun _ => frame.dropIntents _

theorem start (id : String) (input : Option Artifact) : Keeps R (start ctx id input) :=
  Keeps.bind (frame.lane id _ fun _ => ⟨rfl, rfl⟩) fun _ => Keeps.bind (frame.phase id _) fun _ =>
    Keeps.bind (keeps_getLane id) fun _ => frame.intent _

/-! ### The lifecycle -/

theorem dropMerge : Keeps R dropMerge := by
  refine Keeps.bind keeps_getState fun s => Keeps.when fun _ => ?_
  exact Keeps.bind (frame.dropIntents _) fun _ => frame.run _ (.apart fun _ => rfl)

section Finish

variable {finish : String → Outcome → Reducer PUnit}
  (finishes : ∀ id outcome, Keeps R (finish id outcome))

include finishes

theorem cancelLaneWith (id : String) : Keeps R (cancelLaneWith ctx finish id) := by
  refine Keeps.bind (keeps_getLane id) fun lane => ?_
  split
  · exact keeps_pure _
  · split
    · exact finishes id .cancelled
    · refine Keeps.bind (frame.dropIntents _) fun _ => ?_
      refine Keeps.bind (frame.lane id _ fun _ => ⟨rfl, rfl⟩) fun _ => ?_
      exact Keeps.bind (frame.phase id _) fun _ => frame.intent _

theorem cancelOpenLanes (except : Option String) :
    Keeps R (do (← getState).lanes.keys.forM (cancelOpen ctx finish except)) := by
  refine Keeps.bind keeps_getState fun s => Keeps.forM fun id _ => ?_
  refine Keeps.bind (keeps_getLane id) fun lane => ?_
  split
  · exact keeps_pure _
  · exact frame.cancelLaneWith finishes id

theorem cancelAllWith (reason : StopReason) (except : Option String) :
    Keeps R (cancelAllWith ctx finish reason except) := by
  have stop : RunChange fun s : State =>
      { s with stopReason := some reason, mergeRequested := false } :=
    ⟨fun _ => rfl, fun _ => rfl, fun _ => rfl, fun _ => rfl, fun _ => rfl, fun _ _ => rfl⟩
  exact Keeps.bind (frame.run _ stop) fun _ => Keeps.bind frame.dropMerge fun _ =>
    frame.cancelOpenLanes finishes except

theorem failWith (id error : String) : Keeps R (failWith ctx finish id error) := by
  refine Keeps.bind (frame.lane id _ fun _ => ⟨rfl, rfl⟩) fun _ => ?_
  refine Keeps.bind (keeps_getLane id) fun lane => keeps_getState_bind fun w => ?_
  split
  · refine Keeps.bind (frame.lane id _ ?_) (fun _ => frame.phase id _) w
    exact fun _ => ⟨rfl, rfl⟩
  · split
    next again =>
      rw [ensures_bind]
      have dropped : Ensures (clearLaneIntents id) w fun _ w' => w'.state.stopReason = none := by
        simp [clearLaneIntents, Orchestrator.dropIntents, changeState, again.1]
      refine Ensures.mono (Ensures.and (frame.dropIntents _ w) dropped) ?_
      rintro _ w₁ ⟨first, running⟩
      refine Ensures.mono (Ensures.after (frame.retry id w₁ running) fun _ => frame.start id none) ?_
      intro _ w₂ second
      exact IsTrans.trans w w₁ w₂ first second
    · exact finishes id .failed w

theorem reconcileWith (id : String) : Keeps R (reconcileWith ctx finish id) := by
  refine Keeps.bind (keeps_getLane id) fun lane => ?_
  split
  · exact keeps_pure _
  · split
    · exact frame.phase id _
    · split
      · exact frame.failWith finishes id _
      · split
        · exact frame.phase id _
        · split
          · exact finishes id .succeeded
          · exact Keeps.when fun _ => Keeps.bind (frame.phase id _) fun _ => frame.intent _

theorem leaveParent (parentId : String) (outcome : Outcome) :
    Keeps R (leaveParent ctx finish parentId outcome) := by
  refine Keeps.bind keeps_getState fun s => ?_
  split
  · exact keeps_throw _
  · refine Keeps.bind (frame.lane parentId _ fun _ => ⟨rfl, rfl⟩) fun _ => ?_
    refine Keeps.bind (keeps_getLane parentId) fun parent => ?_
    split
    · exact finishes parentId .cancelled
    · exact frame.reconcileWith finishes parentId

theorem winRace (id : String) (outcome : Outcome) : Keeps R (winRace ctx finish id outcome) := by
  refine Keeps.bind keeps_getState fun s => Keeps.when fun _ => ?_
  exact Keeps.bind (frame.run _ (.apart fun _ => rfl)) fun _ => Keeps.bind (frame.emit _) fun _ =>
    frame.cancelAllWith finishes _ _

theorem continuePipeline (lane : Lane) (outcome : Outcome) :
    Keeps R (continuePipeline ctx finish lane outcome) := by
  refine Keeps.bind keeps_getState fun s => Keeps.when fun _ => ?_
  refine Keeps.bind (Keeps.when fun _ => frame.cancelAllWith finishes _ _) fun _ => ?_
  refine Keeps.when fun _ => Keeps.bind keeps_getState fun s => ?_
  exact Keeps.whenSome fun _ _ => frame.start _ _

theorem finishWith (id : String) (outcome : Outcome) :
    Keeps R (finishWith ctx finish id outcome) := by
  refine Keeps.bind (keeps_getLane id) fun lane => ?_
  split
  · exact keeps_pure _
  · refine Keeps.bind (frame.dropIntents _) fun _ => Keeps.bind (frame.phase id _) fun _ => ?_
    refine Keeps.bind (frame.lane id _ fun _ => ⟨rfl, rfl⟩) fun _ => ?_
    refine Keeps.bind (Keeps.whenSome fun _ _ => frame.leaveParent finishes _ _) fun _ => ?_
    exact Keeps.bind (frame.winRace finishes id outcome) fun _ =>
      frame.continuePipeline finishes lane outcome

end Finish

theorem finishWithin (fuel : Nat) (id : String) (outcome : Outcome) :
    Keeps R (finishWithin ctx fuel id outcome) := by
  induction fuel generalizing id outcome with
  | zero => exact keeps_throw _
  | succ fuel ih => exact frame.finishWith ih id outcome

theorem finish (id : String) (outcome : Outcome) : Keeps R (finish ctx id outcome) :=
  Keeps.bind (keeps_getLane id) fun _ => frame.finishWithin _ id outcome

theorem cancelAll (reason : StopReason) (except : Option String) :
    Keeps R (cancelAll ctx reason except) := frame.cancelAllWith frame.finish reason except

theorem cancelLane (id : String) : Keeps R (cancelLane ctx id) :=
  frame.cancelLaneWith frame.finish id

theorem fail (id error : String) : Keeps R (fail ctx id error) :=
  frame.failWith frame.finish id error

theorem reconcile (id : String) : Keeps R (reconcile ctx id) :=
  frame.reconcileWith frame.finish id

theorem updateStatus : Keeps R (updateStatus ctx) := by
  refine Keeps.bind (Keeps.bind keeps_getState fun s => Keeps.when fun _ => ?_) fun _ =>
    Keeps.bind keeps_getState fun s => Keeps.when fun _ => ?_
  · split
    · refine Keeps.whenSome fun artifact _ => ?_
      exact Keeps.bind (frame.run _ (.apart fun _ => rfl)) fun _ => frame.intent _
    · exact keeps_pure _
  · exact Keeps.bind (frame.run _ (.apart fun _ => rfl)) fun _ => frame.emit _

/-! ### The facts -/

theorem revokeWinner (id : String) : Keeps R (revokeWinner id) := by
  refine Keeps.bind keeps_getState fun s => Keeps.when fun _ => ?_
  exact Keeps.bind (frame.run _ (.apart fun _ => rfl)) fun _ =>
    Keeps.bind frame.dropMerge fun _ => frame.run _ (.apart fun _ => rfl)

theorem rejoinParent (parentId : String) (wasUnsuccessful : Bool) :
    Keeps R (rejoinParent parentId wasUnsuccessful) := by
  refine Keeps.bind (frame.lane _ _ fun _ => ⟨rfl, rfl⟩) fun _ => ?_
  refine Keeps.bind (frame.clearChecks _) fun _ => ?_
  refine Keeps.bind (Keeps.when fun _ => frame.lane _ _ fun _ => ⟨rfl, rfl⟩) fun _ => ?_
  exact Keeps.bind (keeps_getLane _) fun _ => Keeps.when fun _ => frame.phase _ _

theorem stopReopened (id : String) : Keeps R (stopReopened ctx id) := by
  refine Keeps.bind keeps_getState fun s => ?_
  split
  · exact frame.cancelLane id
  · exact Keeps.when fun _ => frame.cancelAll _ _

theorem reopenWithin (fuel : Nat) (id : String) : Keeps R (reopenWithin ctx fuel id) := by
  induction fuel generalizing id with
  | zero => exact keeps_throw _
  | succ fuel ih =>
    refine Keeps.bind (keeps_getLane id) fun lane => ?_
    split
    · exact keeps_pure _
    refine Keeps.bind (frame.phase id _) fun _ => ?_
    refine Keeps.bind (frame.lane id _ fun _ => ⟨rfl, rfl⟩) fun _ => ?_
    refine Keeps.bind (frame.revokeWinner id) fun _ => Keeps.bind keeps_getState fun s => ?_
    refine Keeps.bind (Keeps.whenSome fun parentId _ => ?_) fun _ => frame.stopReopened id
    exact Keeps.bind (ih parentId) fun _ => frame.rejoinParent _ _

theorem reopen (id : String) : Keeps R (reopen ctx id) :=
  Keeps.bind (keeps_getLane id) fun _ => frame.reopenWithin _ id

theorem applyStatus (id : String) (status : ThreadStatus) (lane : Lane) :
    Keeps R (when (!terminal lane.phase ∧ lane.phase ≠ .queued ∧ lane.phase ≠ .cancelling) do
      if status = .failed then Orchestrator.fail ctx id "thread_failed"
      else if status = .done then do
        changeLane id fun lane => { lane with threadDone := true }
        Orchestrator.reconcile ctx id
      else do
        when (lane.threadDone = true) (invalidate id)
        Orchestrator.phase id (restingPhase status)) := by
  refine Keeps.when fun _ => ?_
  split
  · exact frame.fail id _
  split
  · exact Keeps.bind (frame.lane id _ fun _ => ⟨rfl, rfl⟩) fun _ => frame.reconcile id
  · refine Keeps.bind (Keeps.when fun _ => ?_) fun _ => frame.phase id _
    exact Keeps.bind (frame.lane id _ fun _ => ⟨rfl, rfl⟩) fun _ => frame.clearChecks id

theorem applyThread (id : String) (status : ThreadStatus) :
    Keeps R (applyThread ctx id status) := by
  refine Keeps.bind (keeps_getLane id) fun lane => ?_
  refine Keeps.bind (Keeps.when fun _ => frame.reopen id) fun _ => ?_
  exact Keeps.bind (keeps_getLane id) fun lane => frame.applyStatus id status lane

theorem applyReport (lane : Lane) (report : LaneReport) (unmetered : ∀ spent, report ≠ .usage spent) :
    Keeps R (applyReport ctx lane report) := by
  refine Keeps.bind keeps_getState fun s => ?_
  cases report with
  | usage spent => exact absurd rfl (unmetered spent)
  | bound threadId worktree =>
    refine Keeps.when fun _ => ?_
    unfold applyBound
    split
    · exact frame.reject _
    · exact Keeps.bind (frame.lane _ _ fun _ => ⟨rfl, rfl⟩) fun _ => Keeps.when fun _ =>
        frame.phase _ _
  | stopped intentId =>
    refine Keeps.when fun _ => ?_
    split
    · exact frame.finish _ _
    · exact frame.lane _ _ fun _ => ⟨rfl, rfl⟩
  | thread status => exact frame.applyThread _ status
  | artifact artifact =>
    exact Keeps.when fun _ => Keeps.bind (frame.lane _ _ fun _ => ⟨rfl, rfl⟩) fun _ =>
      frame.reconcile _
  | checked intentId commandPassed reviewPassed =>
    refine Keeps.when fun _ => Keeps.bind (frame.dropIntent _) fun _ => ?_
    refine Keeps.bind keeps_getState fun s => ?_
    refine Keeps.bind (frame.lane _ _ fun _ => ⟨rfl, rfl⟩) fun _ => ?_
    split
    · exact frame.fail _ _
    · exact frame.reconcile _
  | executionFailed intentId operation error =>
    refine Keeps.when fun _ => Keeps.bind (frame.dropIntent _) fun _ => ?_
    split
    · exact frame.run _ (.apart fun _ => rfl)
    · exact Keeps.when fun _ => frame.fail _ _
  | merged intentId safetyCheckpoint =>
    refine Keeps.when fun _ => Keeps.bind (frame.dropIntent _) fun _ => ?_
    exact Keeps.bind (frame.run _ (.apart fun _ => rfl)) fun _ => frame.emit _

theorem applySpawn (parentId : String) (attempt : Nat) (requestId : String) (spec : LaneSpec)
    (prompt : String) : Keeps R (applySpawn ctx parentId attempt requestId spec prompt) := by
  refine Keeps.bind keeps_getState fun s => ?_
  dsimp only
  split
  · exact keeps_pure _
  split
  · exact frame.reject _
  split
  · exact frame.reject _
  split
  · exact frame.reject _
  refine Keeps.bind (frame.addLane _ _ _ _) fun child => ?_
  refine Keeps.bind (frame.run _ (.apart fun _ => rfl)) fun _ => ?_
  refine Keeps.bind (frame.start _ _) fun _ => Keeps.when fun _ => ?_
  exact Keeps.bind (frame.clearChecks _) fun _ => frame.phase _ _

theorem applyPick (laneId : String) (merge : Bool) : Keeps R (applyPick ctx laneId merge) := by
  refine Keeps.bind keeps_getState fun s => ?_
  split
  · exact frame.reject _
  · exact Keeps.bind (frame.run _ (.apart fun _ => rfl)) fun _ => Keeps.bind (frame.emit _) fun _ =>
      Keeps.bind (frame.cancelAll _ _) fun _ => frame.run _ (.apart fun _ => rfl)

theorem enforceBudget : Keeps R (enforceBudget ctx) :=
  Keeps.bind keeps_getState fun _ => Keeps.when fun _ => frame.cancelAll _ _

theorem applyFact (fact : Fact) (metered : ∀ l attempt spent, fact = .report l attempt (.usage spent) →
    ∀ lane, Keeps R (Orchestrator.applyReport ctx lane (.usage spent))) :
    Keeps R (applyFact ctx fact) := by
  refine Keeps.bind keeps_getState fun s => ?_
  cases fact with
  | ack intentId => exact frame.dropIntent intentId
  | cancel => exact Keeps.when fun _ => frame.cancelAll _ _
  | tick => exact keeps_pure _
  | spawn parentId attempt requestId spec prompt => exact frame.applySpawn _ _ _ _ _
  | pick laneId merge => exact frame.applyPick _ _
  | report laneId attempt report =>
    refine Keeps.whenSome fun lane _ => ?_
    cases report with
    | usage spent => exact metered laneId attempt spent rfl lane
    | _ => exact frame.applyReport lane _ fun _ same => by cases same

end Frame

end Frame

end Ace.Orchestrator
