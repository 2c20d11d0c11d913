import Ace.Properties.RunInvariant

/-!
# Cancelling and finishing lanes

Specifications of the lifecycle functions: each keeps the invariant of a run, and says how far
it goes. `Onward` is what no part of a step undoes: a lane that is over stays as it ended, and
no lane comes to have succeeded but those the step is about.
-/

namespace Ace.Orchestrator

open Script Script.Command

/-! ### How a step goes on -/

/-- `revived` lanes may have been taken up again, `fresh` ones may have succeeded. -/
structure Onward (revived fresh : String → Prop) (s s' : State) : Prop where
  input_eq : s'.input = s.input
  ended : ∀ l lane, s.lanes.get? l = some lane → terminal lane.phase = true →
    revived l ∨ ∃ lane', s'.lanes.get? l = some lane' ∧ lane'.phase = lane.phase
  success : ∀ l lane', s'.lanes.get? l = some lane' → lane'.phase = .succeeded →
    fresh l ∨ ∃ lane, s.lanes.get? l = some lane ∧ lane.phase = .succeeded
  merge : s'.mergeStatus = .pending → s.mergeStatus = .pending

section Onward

variable {revived fresh : String → Prop} {s s' s'' : State}

theorem Onward.refl (s : State) : Onward revived fresh s s where
  input_eq := rfl
  ended _ lane here _ := .inr ⟨lane, here, rfl⟩
  success _ lane here success := .inr ⟨lane, here, success⟩
  merge := id

theorem Onward.trans (first : Onward revived fresh s s') (second : Onward revived fresh s' s'') :
    Onward revived fresh s s'' where
  input_eq := second.input_eq.trans first.input_eq
  ended l lane here isOver := by
    rcases first.ended l lane here isOver with again | ⟨lane', here', same⟩
    · exact .inl again
    · rcases second.ended l lane' here' (by rw [same]; exact isOver) with again | ⟨last, there, same'⟩
      · exact .inl again
      · exact .inr ⟨last, there, same'.trans same⟩
  success l lane here success := by
    rcases second.success l lane here success with new | ⟨lane', here', success'⟩
    · exact .inl new
    · exact first.success l lane' here' success'
  merge := first.merge ∘ second.merge

theorem Onward.mono {revived' fresh' : String → Prop} (h : Onward revived fresh s s')
    (revived_le : ∀ l, revived l → revived' l) (fresh_le : ∀ l, fresh l → fresh' l) :
    Onward revived' fresh' s s' where
  input_eq := h.input_eq
  ended l lane here isOver := (h.ended l lane here isOver).imp_left (revived_le l)
  success l lane here success := (h.success l lane here success).imp_left (fresh_le l)
  merge := h.merge

theorem Onward.of_lanes (lanes : s'.lanes = s.lanes) (input : s'.input = s.input)
    (merge : s'.mergeStatus = .pending → s.mergeStatus = .pending) :
    Onward revived fresh s s' where
  input_eq := input
  ended l lane here _ := .inr ⟨lane, by rw [lanes]; exact here, rfl⟩
  success l lane here success := .inr ⟨lane, by rw [← lanes]; exact here, success⟩
  merge := merge

theorem Onward.touch {l : String} {lane now : Lane} {intents : Dictionary Intent}
    (here : s.lanes.get? l = some lane)
    (ended : terminal lane.phase = true → revived l ∨ now.phase = lane.phase)
    (success : now.phase = .succeeded → fresh l ∨ lane.phase = .succeeded) :
    Onward revived fresh s (s.touch l lane now intents) where
  input_eq := rfl
  ended k found there isOver := by
    rw [touch_lanes, Dictionary.get?_put]
    by_cases same : l = k
    · subst same
      rw [here] at there
      cases there
      exact (ended isOver).imp_right fun phase => ⟨now, by simp, phase⟩
    · exact .inr ⟨found, by simpa [same] using there, rfl⟩
  success k found there succeeded := by
    rcases get?_touch there with ⟨rfl, rfl⟩ | ⟨-, old⟩
    · exact (success succeeded).imp_right fun before => ⟨lane, here, before⟩
    · exact .inr ⟨found, old, succeeded⟩
  merge := id

end Onward

abbrev Subsides (s s' : State) : Prop := Onward (fun _ => False) (fun _ => False) s s'

/-! ### Cancelling -/

/-- How a phase changes when its run stops. -/
def Calms (before after : LanePhase) : Prop :=
  after = before ∨ (after = .cancelling ∧ terminal before = false ∧ before ≠ .queued) ∨
    (after = .cancelled ∧ before = .queued)

theorem Calms.trans {p q r : LanePhase} (first : Calms p q) (second : Calms q r) : Calms p r := by
  rcases first with rfl | ⟨rfl, going, started⟩ | ⟨rfl, rfl⟩
  · exact second
  · rcases second with rfl | ⟨rfl, -, -⟩ | ⟨-, impossible⟩
    · exact .inr (.inl ⟨rfl, going, started⟩)
    · exact .inr (.inl ⟨rfl, going, started⟩)
    · cases impossible
  · rcases second with rfl | ⟨-, isOver, -⟩ | ⟨-, impossible⟩
    · exact .inr (.inr ⟨rfl, rfl⟩)
    · cases isOver
    · cases impossible

structure Halts (s s' : State) : Prop where
  input_eq : s'.input = s.input
  stopReason_eq : s'.stopReason = s.stopReason
  winner_eq : s'.winner = s.winner
  mergeRequested_eq : s'.mergeRequested = s.mergeRequested
  mergeStatus_eq : s'.mergeStatus = s.mergeStatus
  keys_eq : s'.lanes.keys = s.lanes.keys
  calms : ∀ l lane, s.lanes.get? l = some lane → ∃ lane', s'.lanes.get? l = some lane' ∧
    Calms lane.phase lane'.phase ∧ lane'.parentId = lane.parentId
  steady : ∀ l lane, s.lanes.get? l = some lane → lane.phase = .cancelling →
    s'.lanes.get? l = some lane

theorem Halts.refl (s : State) : Halts s s where
  input_eq := rfl
  stopReason_eq := rfl
  winner_eq := rfl
  mergeRequested_eq := rfl
  mergeStatus_eq := rfl
  keys_eq := rfl
  calms _ lane here := ⟨lane, here, .inl rfl, rfl⟩
  steady _ _ here _ := here

theorem Halts.trans {s s' s'' : State} (first : Halts s s') (second : Halts s' s'') :
    Halts s s'' where
  input_eq := second.input_eq.trans first.input_eq
  stopReason_eq := second.stopReason_eq.trans first.stopReason_eq
  winner_eq := second.winner_eq.trans first.winner_eq
  mergeRequested_eq := second.mergeRequested_eq.trans first.mergeRequested_eq
  mergeStatus_eq := second.mergeStatus_eq.trans first.mergeStatus_eq
  keys_eq := second.keys_eq.trans first.keys_eq
  calms l lane here := by
    obtain ⟨lane', here', calm, kin⟩ := first.calms l lane here
    obtain ⟨lane'', here'', calm', kin'⟩ := second.calms l lane' here'
    exact ⟨lane'', here'', calm.trans calm', kin'.trans kin⟩
  steady l lane here stopping := second.steady l lane (first.steady l lane here stopping) stopping

theorem Halts.touch {s : State} {l : String} {lane now : Lane} {intents : Dictionary Intent}
    (here : s.lanes.get? l = some lane) (moved : lane.phase ≠ .cancelling)
    (calm : Calms lane.phase now.phase)
    (kin : now.parentId = lane.parentId) : Halts s (s.touch l lane now intents) where
  input_eq := rfl
  stopReason_eq := rfl
  winner_eq := rfl
  mergeRequested_eq := rfl
  mergeStatus_eq := rfl
  keys_eq := Dictionary.keys_put_of_mem now (by simp [here])
  calms k found there := by
    rw [touch_lanes, Dictionary.get?_put]
    by_cases same : l = k
    · subst same
      rw [here] at there
      cases there
      exact ⟨now, by simp, calm, kin⟩
    · exact ⟨found, by simpa [same] using there, .inl rfl, rfl⟩
  steady k found there stopping := by
    rw [touch_lanes, Dictionary.get?_put_ne]
    · exact there
    · rintro rfl
      rw [here] at there
      cases there
      exact moved stopping

theorem Halts.lane_of_lane {s s' : State} (h : Halts s s') {l : String} {lane' : Lane}
    (here : s'.lanes.get? l = some lane') :
    ∃ lane, s.lanes.get? l = some lane ∧ Calms lane.phase lane'.phase := by
  have known : (s.lanes.get? l).isSome := by
    rw [← Dictionary.mem_keys_iff, ← h.keys_eq, Dictionary.mem_keys_iff]
    simp [here]
  obtain ⟨lane, there⟩ := Option.isSome_iff_exists.mp known
  obtain ⟨found, here', calm, -⟩ := h.calms l lane there
  rw [here] at here'
  cases here'
  exact ⟨lane, there, calm⟩

theorem Halts.subsides {s s' : State} (h : Halts s s') : Subsides s s' where
  input_eq := h.input_eq
  ended l lane here isOver := by
    obtain ⟨lane', here', calm, -⟩ := h.calms l lane here
    rcases calm with same | ⟨-, going, -⟩ | ⟨-, queued⟩
    · exact .inr ⟨lane', here', same⟩
    · rw [isOver] at going
      cases going
    · rw [queued] at isOver
      cases isOver
  success l lane' here success := by
    obtain ⟨lane, there, calm⟩ := h.lane_of_lane here
    rcases calm with same | ⟨stopping, -, -⟩ | ⟨stopped, -⟩
    · exact .inr ⟨lane, there, same.symm.trans success⟩
    · rw [stopping] at success
      cases success
    · rw [stopped] at success
      cases success
  merge pending := by rwa [h.mergeStatus_eq] at pending

/-! ### A lane is over -/

/-- What a lane has to be like to end so. -/
def Fitting (stop : Option StopReason) (lane : Lane) : Outcome → Prop
  | .succeeded =>
    lane.threadDone = true ∧ lane.artifact.isSome = true ∧ lane.checksPassed = some true
  | .failed => lane.checksPassed = some true → lane.threadDone = true
  | .cancelled => stop.isSome = true

def Lane.ended (lane : Lane) (ctx : Context) (outcome : Outcome) : Lane :=
  { lane with phase := outcome.phase, endedAt := some ctx.time }

/-- The intents without those of a lane, merges aside. -/
def withoutLane (l : String) (intents : Dictionary Intent) : Dictionary Intent :=
  intents.filter fun entry => !(entry.effect.laneId == l && entry.effect.type != .merge)

@[simp] theorem terminal_outcome (outcome : Outcome) : terminal outcome.phase = true := by
  cases outcome <;> rfl

theorem Proper.ended {input : Create} {stop : Option StopReason} {loose loose' : Prop}
    {lane : Lane} {ctx : Context} (clock : ctx.time ≤ maxSafeInteger)
    (proper : Proper input stop loose lane) (childless : lane.children = 0) {outcome : Outcome}
    (fitting : Fitting stop lane outcome) : Proper input stop loose' (lane.ended ctx outcome) where
  content := by
    have old := proper.content
    rw [Lane.contentValid_iff] at old ⊢
    simp [Lane.ended, old, clock]
  attempts := proper.attempts
  deep := proper.deep
  queued h := by cases outcome <;> cases h
  isOver _ := childless
  checking h := by cases outcome <;> cases h
  unbound h := by cases outcome <;> rcases h with h | h <;> cases h
  bound := proper.bound
  success h := by
    cases outcome
    · exact fitting
    all_goals cases h
  approved passed := by
    left
    cases outcome
    · exact .inl rfl
    · exact .inr (.inr (.inr ⟨rfl, fitting passed⟩))
    · exact .inr (.inr (.inl rfl))
  stopping h := by
    cases outcome
    · rcases h with h | h <;> cases h
    · rcases h with h | h <;> cases h
    · exact fitting
  halted _ going := by
    rw [Lane.ended, terminal_outcome] at going
    cases going

theorem Inv.settle {g : Ghost} {s : State} {l : String} {lane : Lane} {ctx : Context}
    (clock : ctx.time ≤ maxSafeInteger) (inv : Inv g s) (here : s.lanes.get? l = some lane)
    (going : terminal lane.phase = false) (childless : lane.children = 0) (outcome : Outcome)
    (fitting : Fitting s.stopReason lane outcome) :
    Inv { g.after l lane (lane.ended ctx outcome) with loose := fun k => g.loose k ∧ k ≠ l }
      (s.touch l lane (lane.ended ctx outcome) (withoutLane l s.intents)) := by
  have unmerged : lane.phase ≠ .succeeded := by
    intro success
    rw [success] at going
    cases going
  have bare := (inv.tended l lane here).cleared unmerged
  apply inv.touch here
  · exact ⟨rfl, rfl, rfl, le_refl _⟩
  · exact fun k other loosely => ⟨loosely, other⟩
  · exact (inv.proper l lane here).ended clock childless fitting
  · exact spares_clearLaneIntents
  · apply Tended.bare bare
    intro _
    cases outcome <;> rfl
  · intro key entry pending own _
    exact absurd own (bare key entry pending)
  · intro won
    obtain ⟨first, there, success⟩ := inv.winner l won
    rw [here] at there
    cases there
    exact absurd success unmerged
  · intros
    simp [isOpen, Lane.ended, going]

section

variable {ctx : Context} {finish : String → Outcome → Reducer PUnit} {w : Mutation}

theorem meets_ending (ctx : Context) {l : String} {lane : Lane} (outcome : Outcome)
    {Q : PUnit → Mutation → Prop}
    (here : w.state.lanes.get? l = some lane)
    (next : ∀ w', Edits w.state l lane (lane.ended ctx outcome) (withoutLane l w.state.intents) w' →
      Q ⟨⟩ w') :
    Meets Ordinary (do
      clearLaneIntents l
      phase l outcome.phase
      changeLane l fun lane => { lane with endedAt := some ctx.time }) w Q := by
  rw [meets_bind]
  apply (Edits.first here).dropIntents
  intro w₁ cleared
  rw [meets_bind]
  apply cleared.phase
  intro w₂ moved
  apply moved.changeLane rfl
  exact next

/-- Finishing a queued lane of a run that stops concerns no other lane. -/
def Drops (ctx : Context) (finish : String → Outcome → Reducer PUnit) : Prop :=
  ∀ (g : Ghost) (w : Mutation) l lane, Inv g w.state → w.state.lanes.get? l = some lane →
    lane.phase = .queued → w.state.stopReason.isSome = true →
    Meets Ordinary (finish l .cancelled) w fun _ w' =>
      Edits w.state l lane (lane.ended ctx .cancelled) (withoutLane l w.state.intents) w'

theorem finishWith_drops : Drops ctx (finishWith ctx finish) := by
  intro g w l lane inv here queued stopped
  have root : lane.parentId = none := by
    cases nested : lane.parentId with
    | none => rfl
    | some parentId =>
      have coordinator := (inv.parent l lane parentId here nested).1
      exact absurd coordinator ((inv.proper l lane here).queued queued).1
  simp only [finishWith, meets_bind, meets_getLane here, queued, terminal, Bool.false_eq_true,
    meets_ite, meets_pure, false_implies, true_and, not_false_eq_true, true_implies]
  have ending := meets_ending ctx .cancelled here
    (Q := fun _ w' => Meets Ordinary (do
      whenSome lane.parentId fun parentId => leaveParent ctx finish parentId .cancelled
      winRace ctx finish l .cancelled
      continuePipeline ctx finish lane .cancelled) w' fun _ w' =>
        Edits w.state l lane (lane.ended ctx .cancelled) (withoutLane l w.state.intents) w') ?_
  · simpa only [meets_bind] using ending
  · intro w' edits
    have still : w'.state.stopReason ≠ none := by
      rw [edits.state, touch_stopReason]
      intro none_eq
      rw [none_eq] at stopped
      cases stopped
    simp only [root, meets_bind, meets_whenSome, winRace, continuePipeline, meets_getState,
      meets_when, reduceCtorEq, false_implies, implies_true, true_and, false_and,
      not_false_eq_true, true_implies, still, and_false]
    exact edits

theorem Inv.cancel {g : Ghost} {s : State} {l : String} {lane : Lane} (inv : Inv g s)
    (here : s.lanes.get? l = some lane) (going : terminal lane.phase = false)
    (stopped : s.stopReason.isSome = true) {key : String} (valid : isOrchestrationId key = true)
    (absent : (withoutLane l s.intents).get? key = none) :
    Inv { g with loose := fun k => g.loose k ∧ k ≠ l }
      (s.touch l lane { lane with threadDone := false, phase := .cancelling }
        ((withoutLane l s.intents).put key { id := key, effect := .cancel l lane.attempt })) := by
  have was := inv.proper l lane here
  have unmerged : lane.phase ≠ .succeeded := by
    intro success
    rw [success] at going
    cases going
  have bare := (inv.tended l lane here).cleared unmerged
  have content := was.content
  rw [Lane.contentValid_iff] at content
  apply inv.adjust here going rfl
  · exact ⟨rfl, rfl, rfl, le_refl _⟩
  · rfl
  · rfl
  · exact fun k other loosely => ⟨loosely, other⟩
  · exact { was with
      content := by rw [Lane.contentValid_iff]; exact content
      queued := fun h => by cases h
      isOver := fun h => by cases h
      checking := fun h => by cases h
      unbound := fun h => by rcases h with h | h <;> cases h
      success := fun h => by cases h
      approved := fun _ => .inl (.inr (.inl rfl))
      stopping := fun _ => stopped
      halted := fun _ _ => .inl rfl }
  · exact spares_clearLaneIntents.trans (Spares.put absent rfl)
  · refine Tended.put (Tended.bare bare fun impossible => impossible.elim) absent valid rfl ?_ rfl
      rfl ?_ ?_
    · rw [inv.id_eq l lane here] at content
      simp [Effect.valid, Effect.laneId, Effect.attempt, content]
    · rintro ⟨key', entry, pending, own, -⟩
      exact bare key' entry pending own
    · intro type required
      cases required
      exact .inl rfl

/-- What cancelling one lane comes to. -/
def Cancelled (g : Ghost) (l : String) (s s' : State) : Prop :=
  Inv { g with loose := fun k => g.loose k ∧ k ≠ l } s' ∧ Halts s s'

theorem cancelLaneWith_spec (clock : ctx.time ≤ maxSafeInteger) (drops : Drops ctx finish)
    {g : Ghost} {l : String} {lane : Lane} (inv : Inv g w.state)
    (here : w.state.lanes.get? l = some lane) (going : terminal lane.phase = false)
    (stopped : w.state.stopReason.isSome = true) :
    Meets Ordinary (cancelLaneWith ctx finish l) w fun _ w' => Cancelled g l w.state w'.state := by
  simp only [cancelLaneWith, meets_bind, meets_getLane here, meets_ite, meets_pure]
  constructor
  · -- It is being stopped already.
    intro stopping
    refine ⟨inv.tighten ?_, Halts.refl _⟩
    intro k found there loosely tight
    have same : k = l := by
      by_contra other
      exact tight ⟨loosely, other⟩
    subst same
    rw [here] at there
    cases there
    exact .inr stopping
  intro moving
  constructor
  · intro queued
    apply Meets.mono (drops g w l lane inv here queued stopped)
    intro _ w' edits
    have childless := ((inv.proper l lane here).queued queued).2
    have root : lane.parentId = none := by
      cases nested : lane.parentId with
      | none => rfl
      | some parentId =>
        have coordinator := (inv.parent l lane parentId here nested).1
        exact absurd coordinator ((inv.proper l lane here).queued queued).1
    have settled := inv.settle clock here going childless .cancelled stopped
    -- No parent is owed anything.
    have same : g.after l lane (lane.ended ctx .cancelled) = g := by
      simp only [Ghost.after, root]
      congr 1 <;> funext k <;> simp [shift, Lane.ended]
    rw [same] at settled
    rw [edits.state]
    exact ⟨settled, Halts.touch here moving (.inr (.inr ⟨rfl, queued⟩)) rfl⟩
  · intro started
    apply (Edits.first here).dropIntents
    intro w₁ cleared
    apply cleared.changeLane rfl
    intro w₂ quiet
    apply quiet.phase
    intro w₃ moved
    apply moved.intent
    intro w₄ key valid absent edits
    rw [edits.state]
    exact ⟨inv.cancel here going stopped valid absent,
      Halts.touch here moving (.inr (.inl ⟨rfl, going, started⟩)) rfl⟩

end

/-! ### Stopping the run -/

def State.unmerge (s : State) : State :=
  if s.mergeStatus = .pending then
    { s with
      intents := s.intents.filter fun entry => !(entry.effect.type == .merge)
      mergeStatus := .none }
  else s

theorem meets_dropMerge {w : Mutation} {Q : PUnit → Mutation → Prop} :
    Meets Ordinary dropMerge w Q ↔ Q ⟨⟩ { w with state := w.state.unmerge } := by
  by_cases pending : w.state.mergeStatus = .pending <;>
    simp [dropMerge, meets_bind, meets_getState, meets_when, dropIntents, meets_changeState,
      State.unmerge, pending]

section Unmerge

variable (s : State)

@[simp] theorem unmerge_lanes : s.unmerge.lanes = s.lanes := by
  unfold State.unmerge
  split <;> rfl

@[simp] theorem unmerge_input : s.unmerge.input = s.input := by
  unfold State.unmerge
  split <;> rfl

@[simp] theorem unmerge_stopReason : s.unmerge.stopReason = s.stopReason := by
  unfold State.unmerge
  split <;> rfl

@[simp] theorem unmerge_winner : s.unmerge.winner = s.winner := by
  unfold State.unmerge
  split <;> rfl

@[simp] theorem unmerge_mergeRequested : s.unmerge.mergeRequested = s.mergeRequested := by
  unfold State.unmerge
  split <;> rfl

theorem unmerge_mergeStatus : s.unmerge.mergeStatus ≠ .pending := by
  unfold State.unmerge
  split
  · exact fun h => by cases h
  · assumption

theorem unmerge_mergeStatus_le (status : MergeStatus) (some_status : status ≠ .none)
    (h : s.unmerge.mergeStatus = status) : s.mergeStatus = status := by
  unfold State.unmerge at h
  split at h
  · exact absurd h.symm some_status
  · exact h

end Unmerge

theorem Inv.unmerge {g : Ghost} {s : State} (inv : Inv g s) :
    Inv g { s with mergeRequested := false }.unmerge ∧
      ∀ key entry, { s with mergeRequested := false }.unmerge.intents.get? key = some entry →
        entry.effect.type ≠ .merge := by
  unfold State.unmerge
  by_cases pending : s.mergeStatus = .pending
  · rw [if_pos pending]
    have spares : ∀ key entry, (s.intents.filter fun entry =>
        !(entry.effect.type == .merge)).get? key = some entry ↔
        s.intents.get? key = some entry ∧ entry.effect.type ≠ .merge := by
      intro key entry
      simp [Dictionary.get?_filter_eq_some]
    have unmerged : ∀ key entry, (s.intents.filter fun entry =>
        !(entry.effect.type == .merge)).get? key = some entry → entry.effect.type ≠ .merge :=
      fun key entry here => ((spares key entry).mp here).2
    refine ⟨?_, unmerged⟩
    refine { inv with
      receipts := inv.receipts.congr rfl rfl rfl
      tended := ?_
      owner := fun key entry here => inv.owner key entry ((spares key entry).mp here).1
      merging := fun key entry here merge => absurd merge (unmerged key entry here)
      requested := fun h => by cases h
      promised := fun _ h => by cases h
      quiet := fun _ _ h => by cases h }
    intro l lane here
    refine (inv.tended l lane here).sub (fun key entry there _ => ((spares key entry).mp there).1)
      (fun _ _ _ _ => id) rfl ?_
    intro strictly type required
    obtain ⟨key, entry, there, own, typed⟩ := (inv.tended l lane here).owed strictly type required
    refine ⟨key, entry, (spares key entry).mpr ⟨there, ?_⟩, own, typed⟩
    rw [typed]
    rintro rfl
    -- No phase waits for a merge.
    unfold Lane.required at required
    split at required <;> simp at required
  · rw [if_neg pending]
    have unmerged : ∀ key entry, s.intents.get? key = some entry → entry.effect.type ≠ .merge :=
      fun key entry here merge => pending (inv.merging key entry here merge).1
    exact ⟨{ inv with
      receipts := inv.receipts.congr rfl rfl rfl
      merging := fun key entry here merge => absurd merge (unmerged key entry here)
      requested := fun h => by cases h }, unmerged⟩

theorem Inv.halt {g : Ghost} {s : State} (inv : Inv g s) (reason : StopReason)
    (idle : s.mergeRequested = false)
    (unmerged : ∀ key entry, s.intents.get? key = some entry → entry.effect.type ≠ .merge) :
    Inv { g with loose := fun k => k ∈ s.lanes.keys } { s with stopReason := some reason } := by
  have listed : ∀ l lane, s.lanes.get? l = some lane → l ∈ s.lanes.keys := by
    intro l lane here
    rw [Dictionary.mem_keys_iff]
    simp [here]
  refine { inv with
    receipts := inv.receipts.congr rfl rfl rfl
    proper := ?_
    tended := fun l lane here => (inv.tended l lane here).weaken fun ⟨strictly, stopping⟩ =>
      ⟨strictly, fun _ => stopping (listed l lane here)⟩
    merging := fun key entry here merge => absurd merge (unmerged key entry here)
    requested := fun h => by rw [show s.mergeRequested = true from h] at idle; cases idle }
  intro l lane here
  have was := inv.proper l lane here
  have known := listed l lane here
  exact { was with
    approved := fun passed => (was.approved passed).imp_right
      fun ⟨_, going, _⟩ => ⟨known, going, .inr rfl⟩
    stopping := fun _ => rfl
    halted := fun _ _ => .inr known }

/-- What stopping the run comes to. -/
structure Stops (reason : StopReason) (s s' : State) : Prop where
  input_eq : s'.input = s.input
  stopReason_eq : s'.stopReason = some reason
  winner_eq : s'.winner = s.winner
  mergeRequested_eq : s'.mergeRequested = false
  unmerged : s'.mergeStatus ≠ .pending
  keys_eq : s'.lanes.keys = s.lanes.keys
  calms : ∀ l lane, s.lanes.get? l = some lane → ∃ lane', s'.lanes.get? l = some lane' ∧
    Calms lane.phase lane'.phase ∧ lane'.parentId = lane.parentId
  steady : ∀ l lane, s.lanes.get? l = some lane → lane.phase = .cancelling →
    s'.lanes.get? l = some lane
  mergeStatus_le : ∀ status, status ≠ .none → s'.mergeStatus = status → s.mergeStatus = status

section

variable {ctx : Context} {finish : String → Outcome → Reducer PUnit} {w : Mutation}

theorem cancelAllWith_spec (clock : ctx.time ≤ maxSafeInteger) (drops : Drops ctx finish)
    {g : Ghost} (inv : Inv g w.state) (reason : StopReason) (except : Option String)
    (excepted : ∀ l, except = some l → ∃ lane, w.state.lanes.get? l = some lane ∧
      terminal lane.phase = true) :
    Meets Ordinary (cancelAllWith ctx finish reason except) w fun _ w' =>
      Inv { g with loose := fun _ => False } w'.state ∧ Stops reason w.state w'.state := by
  obtain ⟨idle, unmerged⟩ := inv.unmerge
  have halted := idle.halt reason (by simp) unmerged
  have stopped : { w.state with stopReason := some reason, mergeRequested := false }.unmerge =
      { { w.state with mergeRequested := false }.unmerge with stopReason := some reason } := by
    unfold State.unmerge
    split <;> simp_all
  rw [← stopped] at halted
  simp only [cancelAllWith, meets_bind, meets_changeState, meets_dropMerge, meets_getState]
  generalize start :
    { w.state with stopReason := some reason, mergeRequested := false }.unmerge = s at halted ⊢
  have keys : s.lanes.keys = w.state.lanes.keys := by simp [← start]
  have loop := meets_forM (E := Ordinary) (cancelOpen ctx finish except)
    (fun rest w' => Inv { g with loose := fun k => k ∈ rest } w'.state ∧ Halts s w'.state ∧
      ∀ k ∈ rest, k ∈ s.lanes.keys) ?_ s.lanes.keys { w with state := s } ?_
  · apply Meets.mono loop
    rintro _ w' ⟨last, halts, -⟩
    have same : Inv { g with loose := fun _ => False } w'.state := last.tighten
      (fun _ _ _ loosely => absurd loosely List.not_mem_nil)
    refine ⟨same, ?_⟩
    exact {
      input_eq := halts.input_eq.trans (by simp [← start])
      stopReason_eq := halts.stopReason_eq.trans (by simp [← start])
      winner_eq := halts.winner_eq.trans (by simp [← start])
      mergeRequested_eq := halts.mergeRequested_eq.trans (by simp [← start])
      unmerged := by
        rw [halts.mergeStatus_eq, ← start]
        exact unmerge_mergeStatus _
      keys_eq := halts.keys_eq.trans keys
      calms := fun l lane here => halts.calms l lane (by simpa [← start] using here)
      steady := fun l lane here => halts.steady l lane (by simpa [← start] using here)
      mergeStatus_le := fun status some_status h => by
        rw [halts.mergeStatus_eq, ← start] at h
        exact unmerge_mergeStatus_le
          { w.state with stopReason := some reason, mergeRequested := false } status some_status h }
  · -- One lane of the loop.
    rintro x rest w' ⟨here, halts, known⟩
    have present : (w'.state.lanes.get? x).isSome := by
      rw [← Dictionary.mem_keys_iff, halts.keys_eq]
      exact known x (List.mem_cons_self ..)
    obtain ⟨lane, there⟩ := Option.isSome_iff_exists.mp present
    have fewer : ∀ k ∈ rest, k ∈ s.lanes.keys :=
      fun k member => known k (List.mem_cons_of_mem _ member)
    simp only [cancelOpen, meets_bind, meets_getLane there, meets_ite, meets_pure]
    constructor
    · intro skipped
      refine ⟨here.tighten ?_, halts, fewer⟩
      intro k found there' loosely tight
      have same : k = x := by
        rcases List.mem_cons.mp loosely with same | member
        · exact same
        · exact absurd member tight
      subst same
      rw [there] at there'
      cases there'
      rcases skipped with exception | isOver | stopping
      · obtain ⟨first, was, isOver⟩ := excepted k exception.symm
        obtain ⟨found, now, calm, -⟩ := halts.calms k first (by simpa [← start] using was)
        rw [there] at now
        cases now
        rcases calm with same | ⟨-, going, -⟩ | ⟨-, queued⟩
        · exact .inl (by rw [same]; exact isOver)
        · rw [isOver] at going
          cases going
        · rw [queued] at isOver
          cases isOver
      · exact .inl isOver
      · exact .inr stopping
    · intro pursued
      have going : terminal lane.phase = false := by
        cases h : terminal lane.phase
        · rfl
        · exact absurd (.inr (.inl h)) pursued
      have stopping : w'.state.stopReason.isSome = true := by
        simp [halts.stopReason_eq, ← start]
      apply Meets.mono (cancelLaneWith_spec clock drops here there going stopping)
      rintro _ w'' ⟨next, halts'⟩
      refine ⟨next.tighten ?_, halts.trans halts', fewer⟩
      intro k found there' loosely tight
      rcases List.mem_cons.mp loosely.1 with same | member
      · exact absurd same loosely.2
      · exact absurd member tight
  · refine ⟨?_, Halts.refl s, fun k member => member⟩
    simpa [keys] using halted

end

end Ace.Orchestrator
