import Ace.Properties.Frames

/-!
# Where pending intents come from

An intent is pending because it was, or because the call emitted it under an id it drew.
`Issues` says so and is a frame of the reducer: only `intent` puts one, and the other changes
of the state drop some or leave them alone.
-/

namespace Ace.Orchestrator

open Script Script.Command

/-! ### The frame -/

/-- New intents are emitted, under ids of the context. No lane goes away. -/
structure Issues (ctx : Context) (w w' : Mutation) : Prop where
  lanes : ∀ l, (w.state.lanes.get? l).isSome = true → (w'.state.lanes.get? l).isSome = true
  emitted : ∀ entry ∈ w.intents, entry ∈ w'.intents
  source : ∀ key entry, w'.state.intents.get? key = some entry →
    w.state.intents.get? key = some entry ∨ entry ∈ w'.intents ∧ ∃ n, key = ctx.ids .intent n

variable {ctx : Context}

instance : Std.Refl (Issues ctx) where
  refl _ := ⟨fun _ => id, fun _ => id, fun _ _ => .inl⟩

instance : IsTrans Mutation (Issues ctx) where
  trans w w' w'' first second := by
    refine ⟨fun l known => second.lanes l (first.lanes l known),
      fun entry member => second.emitted entry (first.emitted entry member), ?_⟩
    intro key entry pending
    rcases second.source key entry pending with before | drawn
    · rcases first.source key entry before with earlier | ⟨member, drawn⟩
      · exact .inl earlier
      · exact .inr ⟨second.emitted entry member, drawn⟩
    · exact .inr drawn

/-! ### The commands of one lane -/

theorem keeps_changeState {f : State → State}
    (lanes : ∀ s l, (s.lanes.get? l).isSome = true → ((f s).lanes.get? l).isSome = true)
    (drops : ∀ s key entry, (f s).intents.get? key = some entry →
      s.intents.get? key = some entry) : Keeps (Issues ctx) (changeState f) := by
  intro w
  simp only [changeState, ensures_modify]
  exact ⟨lanes _, fun _ => id, fun key entry pending => .inl (drops _ key entry pending)⟩

theorem keeps_changeRun {f : State → State}
    (same : ∀ s, (f s).lanes = s.lanes ∧ (f s).intents = s.intents) :
    Keeps (Issues ctx) (changeState f) := by
  refine keeps_changeState (fun s l known => ?_) (fun s key entry pending => ?_)
  · rw [(same s).1]
    exact known
  · rw [(same s).2] at pending
    exact pending

theorem keeps_emit (event : Event) : Keeps (Issues ctx) (emit event) := by
  intro w
  simp only [emit, ensures_modify]
  exact ⟨fun _ => id, fun _ => id, fun _ _ => .inl⟩

theorem keeps_changeLane (id : String) (f : Lane → Lane) : Keeps (Issues ctx) (changeLane id f) :=
  keeps_changeState (fun s l known => by by_cases same : id = l <;> simp_all [Dictionary.get?_modify])
    (fun _ _ _ pending => pending)

theorem ensures_nextId {kind : IdKind} {w : Mutation} {Q : String → Mutation → Prop}
    (next : Q (ctx.ids kind w.drawn) { w with drawn := w.drawn + 1 }) :
    Ensures (nextId ctx kind) w Q := by
  simp only [nextId, ensures_bind, ensures_get, ensures_set]
  by_cases valid : isOrchestrationId (ctx.ids kind w.drawn) = true
  · simpa [valid] using next
  · simp [valid]

theorem keeps_nextId (kind : IdKind) : Keeps (Issues ctx) (nextId ctx kind) := by
  intro w
  apply ensures_nextId
  exact ⟨fun _ => id, fun _ => id, fun _ _ => .inl⟩

theorem keeps_intent (effect : Effect) : Keeps (Issues ctx) (intent ctx effect) := by
  intro w
  rw [intent, ensures_bind]
  apply ensures_nextId
  simp only [getState, changeState, bind_assoc, ensures_bind, ensures_get, ensures_modify,
    ensures_refuse, ensures_pure]
  intro _
  refine ⟨fun _ => id, fun entry member => List.mem_append_left _ member, ?_⟩
  intro key entry pending
  rw [Dictionary.get?_put] at pending
  split at pending
  next same =>
    cases pending
    exact .inr ⟨List.mem_append_right _ (List.mem_singleton_self _), w.drawn, same.symm⟩
  next => exact .inl pending

theorem keeps_addLane (spec : LaneSpec) (prompt : String) (stage : Nat) (parent : Option Lane) :
    Keeps (Issues ctx) (addLane ctx spec prompt stage parent) := by
  refine Keeps.bind (keeps_nextId _) fun id => Keeps.bind keeps_getState fun s => ?_
  refine Keeps.bind keeps_refuse fun _ => ?_
  refine Keeps.bind (keeps_changeState (fun s l known => ?_) fun _ _ _ pending => pending) fun _ => ?_
  · by_cases same : id = l
    · simp [same]
    · simpa [same, Dictionary.get?_put] using known
  · exact Keeps.bind (Keeps.whenSome fun _ _ => keeps_changeLane _ _) fun _ => keeps_pure _

/-! ### The facts -/

theorem issues_frame : Frame ctx (Issues ctx) where
  emit := keeps_emit
  intent := keeps_intent
  addLane := keeps_addLane
  run _ change := keeps_changeRun fun s => ⟨change.lanes s, change.intents s⟩
  lane id f _ := keeps_changeLane id f
  drop _ drops := keeps_changeState (fun _ _ known => known) fun s => drops s.intents
  retry id w _ := keeps_changeLane id _ w

theorem keeps_applyFact (fact : Fact) : Keeps (Issues ctx) (applyFact ctx fact) := by
  refine issues_frame.applyFact fact fun _ _ spent _ lane => ?_
  -- The total and the lane are charged; a run over its budget is stopped.
  refine Keeps.bind keeps_getState fun _ => Keeps.bind (keeps_changeRun fun _ => ⟨rfl, rfl⟩) fun _ => ?_
  refine Keeps.bind (keeps_changeLane _ _) fun _ => Keeps.bind keeps_getState fun _ => ?_
  exact Keeps.when fun _ => issues_frame.cancelAll _ _

theorem keeps_foldFact (fact : Fact) : Keeps (Issues ctx) (foldFact ctx fact) := by
  refine Keeps.bind keeps_refuse fun _ => Keeps.bind keeps_refuse fun _ => ?_
  refine Keeps.bind issues_frame.enforceBudget fun _ => ?_
  exact Keeps.bind (keeps_applyFact fact) fun _ => issues_frame.updateStatus

end Ace.Orchestrator
