import Ace.Orchestrator.Recovery
import Ace.Script.Tally

/-!
# Editing one lane

Most of what the reducer does to a run is done to one lane: it changes the lane, drops some
of its intents and adds at most one. `State.touch` is the result of such a stretch of code,
and `Edits` says that a mutation has come that far, so that a stretch is executed symbolically
one call at a time and ends in a single change of the state.
-/

namespace Ace.Orchestrator

open Script Script.Command

/-- The faults the source throws on purpose. A fault of the model, a missing lane or an
exhausted recursion bound, is none of them. -/
def Ordinary : Fault → Prop
  | .error message => message ≠ "Missing parent"
  | .invalid _ => True
  | .typeError | .depth => False

/-! ### One lane changes -/

/-- The lane at `l` went from `before` to `after`, and `intents` are pending. -/
def State.touch (s : State) (l : String) (before after : Lane) (intents : Dictionary Intent) :
    State :=
  { s.recount before.phase after.phase with lanes := s.lanes.put l after, intents }

section Touch

variable (s : State) (l : String) (before after : Lane) (intents : Dictionary Intent)

@[simp] theorem touch_lanes : (s.touch l before after intents).lanes = s.lanes.put l after := rfl

@[simp] theorem touch_intents : (s.touch l before after intents).intents = intents := rfl

@[simp] theorem touch_input : (s.touch l before after intents).input = s.input := rfl

@[simp] theorem touch_stopReason :
    (s.touch l before after intents).stopReason = s.stopReason := rfl

@[simp] theorem touch_winner : (s.touch l before after intents).winner = s.winner := rfl

@[simp] theorem touch_mergeStatus :
    (s.touch l before after intents).mergeStatus = s.mergeStatus := rfl

theorem touch_open : (s.touch l before after intents).open_ =
    s.open_ + ((!terminal after.phase).toInt - (!terminal before.phase).toInt) := rfl

theorem touch_touch (last : Lane) (pending : Dictionary Intent) :
    (s.touch l before after intents).touch l after last pending =
      s.touch l before last pending := by
  simp only [State.touch, State.recount, Dictionary.put_put]
  congr 1 <;> ring

end Touch

theorem touch_self {s : State} {l : String} {lane : Lane} (here : s.lanes.get? l = some lane) :
    s.touch l lane lane s.intents = s := by
  simp [State.touch, State.recount, Dictionary.put_eq_self here]

/-- The mutation has changed nothing but the lane at `l`, which was `lane` and is `now`. -/
structure Edits (s : State) (l : String) (lane now : Lane) (intents : Dictionary Intent)
    (w : Mutation) : Prop where
  here : s.lanes.get? l = some lane
  state : w.state = s.touch l lane now intents

section Edits

variable {s : State} {l : String} {lane now : Lane} {intents : Dictionary Intent} {w : Mutation}
  {Q : PUnit → Mutation → Prop}

theorem Edits.first (here : w.state.lanes.get? l = some lane) :
    Edits w.state l lane lane w.state.intents w :=
  ⟨here, (touch_self here).symm⟩

theorem Edits.lane_eq (e : Edits s l lane now intents w) : w.state.lanes.get? l = some now := by
  simp [e.state]

theorem meets_getState {Q : State → Mutation → Prop} :
    Meets Ordinary getState w Q ↔ Q w.state w := Iff.rfl

theorem meets_changeState (f : State → State) :
    Meets Ordinary (changeState f) w Q ↔ Q ⟨⟩ { w with state := f w.state } := Iff.rfl

theorem meets_emit (event : Event) :
    Meets Ordinary (emit event) w Q ↔ Q ⟨⟩ { w with events := w.events ++ [event] } := Iff.rfl

theorem meets_getLane {Q : Lane → Mutation → Prop} (here : w.state.lanes.get? l = some lane) :
    Meets Ordinary (getLane l) w Q ↔ Q lane w := by
  simp only [getLane, meets_bind, meets_getState, here, meets_pure]

theorem Edits.changeLane (e : Edits s l lane now intents w) {f : Lane → Lane}
    (phase : (f now).phase = now.phase)
    (next : ∀ w', Edits s l lane (f now) intents w' → Q ⟨⟩ w') :
    Meets Ordinary (Orchestrator.changeLane l f) w Q := by
  simp only [Orchestrator.changeLane, meets_changeState]
  apply next
  refine ⟨e.here, ?_⟩
  simp only [e.state, Dictionary.modify_of_get? (Dictionary.get?_put_self s.lanes l now),
    touch_lanes, Dictionary.put_put]
  simp [State.touch, phase]

theorem Edits.phase (e : Edits s l lane now intents w) (phase : LanePhase)
    (next : ∀ w', Edits s l lane { now with phase } intents w' → Q ⟨⟩ w') :
    Meets Ordinary (Orchestrator.phase l phase) w Q := by
  simp only [Orchestrator.phase, meets_bind, meets_getLane e.lane_eq, meets_ite, meets_pure,
    meets_changeState, meets_emit, Orchestrator.changeLane]
  constructor
  · intro same
    apply next
    refine ⟨e.here, ?_⟩
    rw [e.state, ← same]
  · intro _
    apply next
    refine ⟨e.here, ?_⟩
    have moved := touch_touch s l lane now intents { now with phase } intents
    rw [← moved]
    simp only [State.touch, e.state, State.recount, Dictionary.put_put,
      Dictionary.modify_of_get? (Dictionary.get?_put_self s.lanes l now)]

theorem Edits.dropIntents (e : Edits s l lane now intents w) (p : Effect → Bool)
    (next : ∀ w', Edits s l lane now (intents.filter fun entry => !p entry.effect) w' → Q ⟨⟩ w') :
    Meets Ordinary (Orchestrator.dropIntents p) w Q := by
  simp only [Orchestrator.dropIntents, meets_changeState]
  apply next
  refine ⟨e.here, ?_⟩
  simp [e.state, State.touch]

theorem Edits.dropIntent (e : Edits s l lane now intents w) (key : String)
    (next : ∀ w', Edits s l lane now (intents.erase key) w' → Q ⟨⟩ w') :
    Meets Ordinary (Orchestrator.dropIntent key) w Q := by
  simp only [Orchestrator.dropIntent, meets_changeState]
  apply next
  refine ⟨e.here, ?_⟩
  simp [e.state, State.touch]

theorem meets_intent (ctx : Context) (effect : Effect)
    (next : ∀ w' key, isOrchestrationId key = true → w.state.intents.get? key = none →
      w'.state = { w.state with intents := w.state.intents.put key { id := key, effect } } →
      Q ⟨⟩ w') :
    Meets Ordinary (Orchestrator.intent ctx effect) w Q := by
  simp only [Orchestrator.intent, nextId, meets_bind, meets_get, meets_set, meets_ite, meets_pure,
    meets_throw, meets_getState, meets_refuse, meets_changeState, meets_modify]
  refine ⟨?_, fun _ => trivial⟩
  intro valid
  refine ⟨fun _ => by simp [Ordinary], ?_⟩
  intro absent
  apply next _ (ctx.ids .intent w.drawn) valid
  · simpa [Dictionary.contains] using absent
  · rfl

theorem Edits.intent (e : Edits s l lane now intents w) (ctx : Context) (effect : Effect)
    (next : ∀ w' key, isOrchestrationId key = true → intents.get? key = none →
      Edits s l lane now (intents.put key { id := key, effect }) w' → Q ⟨⟩ w') :
    Meets Ordinary (Orchestrator.intent ctx effect) w Q := by
  apply meets_intent
  intro w' key valid absent state
  apply next w' key valid
  · simpa [e.state] using absent
  · refine ⟨e.here, ?_⟩
    rw [state, e.state]
    rfl

end Edits

end Ace.Orchestrator
