import Ace.Properties.LiveIndexes
import Ace.Properties.RunLifecycle

/-!
# Sound states

The invariants of the thread state together, and what they give a command: `Evolves` says
that from a sound state everything a command does is a chain of steps. It is reflexive and
transitive, so the commands of the reducer are followed one by one, and none of them is
looked into again.
-/

namespace Ace

open Script Script.Command

def FreshIds (ids : IdSource) : Prop := ∀ kind, Function.Injective (ids kind)

structure Sound (ids : IdSource) (w : Work) : Prop where
  tree : TreeSound ids w
  rows : RowSound ids w
  indexes : IndexSound w.state
  runs : RunSound ids w

section

variable {ids : IdSource} {w w' w'' : Work}

theorem Step.sound (sound : Sound ids w) (step : Step ids w w') : Sound ids w' where
  tree := step.treeSound sound.tree
  rows := step.rowSound sound.rows
  indexes := step.indexSound sound.rows sound.indexes
  runs := step.runSound sound.tree sound.runs

theorem Steps.sound (sound : Sound ids w) (steps : Steps ids w w') : Sound ids w' := by
  induction steps with
  | refl => exact sound
  | tail _ step ih => exact step.sound ih

theorem Steps.runsLater (sound : Sound ids w) (steps : Steps ids w w') :
    RunsLater w.state w'.state := by
  induction steps with
  | refl => exact .refl _
  | tail before step ih =>
    have here := Steps.sound sound before
    exact ih.trans (step.runsLater here.tree here.runs)

/-- From a sound state, `w'` is reached by steps. -/
def Evolves (ids : IdSource) (w w' : Work) : Prop := Sound ids w → Steps ids w w'

/-- From a sound state, `w'` is reached by steps on agents and items. -/
def TreeEvolves (ids : IdSource) (w w' : Work) : Prop := Sound ids w → TreeSteps ids w w'

instance : Std.Refl (Evolves ids) := ⟨fun _ _ => .refl⟩

instance : IsTrans Work (Evolves ids) where
  trans _ _ _ first second sound :=
    (first sound).trans (second (Steps.sound sound (first sound)))

instance : Std.Refl (TreeEvolves ids) := ⟨fun _ _ => .refl⟩

instance : IsTrans Work (TreeEvolves ids) where
  trans _ _ _ first second sound :=
    (first sound).trans (second (Steps.sound sound (first sound).steps))

theorem TreeEvolves.evolves (h : TreeEvolves ids w w') : Evolves ids w w' :=
  fun sound => (h sound).steps

theorem TreeEvolves.trans (h : TreeEvolves ids w w') (h' : TreeEvolves ids w' w'') :
    TreeEvolves ids w w'' := IsTrans.trans w w' w'' h h'

theorem TreeStep.evolves (step : TreeStep ids w w') : TreeEvolves ids w w' :=
  fun _ => .single step

theorem Step.evolves (step : Step ids w w') : Evolves ids w w' := fun _ => .single step

theorem Keeps.evolves {α : Type} {m : Fold α} (h : Keeps (TreeEvolves ids) m) :
    Keeps (Evolves ids) m := by
  intro w
  refine Ensures.mono (h w) ?_
  intro _ w' steps
  exact steps.evolves

/-! ### The primitive commands -/

@[simp] theorem ensures_getState (w : Work) (Q : ThreadState → Work → Prop) :
    Ensures getState w Q ↔ Q w.state w := by
  simp [getState]

@[simp] theorem ensures_changeState (f : ThreadState → ThreadState) (w : Work)
    (Q : PUnit → Work → Prop) : Ensures (changeState f) w Q ↔ Q ⟨⟩ (w.change f) := by
  simp [changeState]

@[simp] theorem ensures_emit (payload : EventPayload) (w : Work) (Q : PUnit → Work → Prop) :
    Ensures (emit payload) w Q ↔ Q ⟨⟩ (w.emit payload) := by
  simp [emit]

@[simp] theorem ensures_changeRecord (key : Key) (f : AgentRecord → AgentRecord) (w : Work)
    (Q : PUnit → Work → Prop) :
    Ensures (changeRecord key f) w Q ↔
      Q ⟨⟩ (w.change fun s => { s with agents := s.agents.modify key f }) := by
  simp [changeRecord]

theorem ensures_nextId (ctx : ApplyContext) (kind : EntityKind) (w : Work)
    (Q : String → Work → Prop) (h : Q (ctx.ids kind w.drawn) { w with drawn := w.drawn + 1 }) :
    Ensures (nextId ctx kind) w Q := by
  simp only [nextId, ensures_bind, ensures_get, ensures_set]
  split
  · simp
  · simpa using h

theorem keeps_getState (R : Work → Work → Prop) [Std.Refl R] : Keeps R getState := by
  intro w
  simpa using Std.Refl.refl w

theorem keeps_passive {f : ThreadState → ThreadState} (passive : ∀ s, Passive s (f s)) :
    Keeps (TreeEvolves ids) (changeState f) := by
  intro w
  rw [ensures_changeState]
  exact (TreeStep.passive w (f w.state) (passive w.state)).evolves

theorem keeps_soft (key : Key) {f : AgentRecord → AgentRecord} (soft : SoftChange f) :
    Keeps (TreeEvolves ids) (changeRecord key f) := by
  intro w
  rw [ensures_changeRecord]
  exact (TreeStep.touch w key f soft).evolves

/-! ### Fresh ids -/

variable (fresh : FreshIds ids)

theorem not_drawn (fresh : FreshIds ids) (w : Work) (kind : EntityKind) :
    ¬ Drawn ids w kind (ids kind w.drawn) := by
  rintro ⟨n, lt, same⟩
  exact absurd (fresh kind same) (by omega)

theorem drawn_next (ids : IdSource) (w : Work) (kind : EntityKind) :
    Drawn ids { w with drawn := w.drawn + 1 } kind (ids kind w.drawn) :=
  ⟨w.drawn, Nat.lt_succ_self _, rfl⟩

include fresh in
theorem freshAgent_next (sound : Sound ids w) :
    FreshAgent ids { w with drawn := w.drawn + 1 } (ids .agent w.drawn) := by
  refine ⟨drawn_next ids w .agent, ?_⟩
  intro key record known same
  apply not_drawn fresh w .agent
  rw [← same]
  exact sound.tree.drawn key record.row (by simp [agentRow, known])

include fresh in
theorem freshItem_next (sound : Sound ids w) :
    FreshItem ids { w with drawn := w.drawn + 1 } (ids .item w.drawn) :=
  ⟨drawn_next ids w .item,
    Ledger.fresh_of_not_drawn sound.rows.items (not_drawn fresh w .item)⟩

include fresh in
theorem freshInteraction_next (sound : Sound ids w) :
    FreshInteraction ids { w with drawn := w.drawn + 1 } (ids .interaction w.drawn) :=
  ⟨drawn_next ids w .interaction,
    Ledger.fresh_of_not_drawn sound.rows.interactions (not_drawn fresh w .interaction)⟩

include fresh in
theorem freshTask_next (sound : Sound ids w) :
    FreshTask ids { w with drawn := w.drawn + 1 } (ids .task w.drawn) :=
  ⟨drawn_next ids w .task,
    Ledger.fresh_of_not_drawn sound.rows.tasks (not_drawn fresh w .task)⟩

include fresh in
theorem freshRun_next (sound : Sound ids w) :
    FreshRun ids { w with drawn := w.drawn + 1 } (ids .run w.drawn) := by
  refine ⟨drawn_next ids w .run, ?_⟩
  cases stored : w.state.runs.get? (ids .run w.drawn) with
  | none => rfl
  | some run => exact absurd (sound.runs.run _ run stored).2.1 (not_drawn fresh w .run)

end

end Ace
