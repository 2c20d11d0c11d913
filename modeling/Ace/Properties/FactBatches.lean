import Ace.Properties.Reachability

/-!
# Batches of facts

A batch derives the statuses of consecutive facts once. What it leaves out breaks no invariant
of the thread, and what is owed is owed for the time of the last fact.
-/

namespace Ace

open Script Script.Command

/-- Calls on one batch after another, and on none, with the time of the last fact of a batch. -/
inductive Batched (ids : IdSource) (w : Work) : FactBatch → Option Nat → Work → Prop where
  | new : Batched ids w {} none w
  | renew {batch next : FactBatch} {last : Option Nat} {w' : Work}
      (before : Batched ids w batch last w') (idle : next.pendingAt = none) :
      Batched ids w next none w'
  | call {batch : FactBatch} {last : Option Nat} {w' w'' : Work}
      (before : Batched ids w batch last w') (ctx : ApplyContext) (same : ctx.ids = ids)
      (input : Value) (returned : Ace.apply ctx input w' = .ok w'') :
      Batched ids w batch last w''
  | apply {batch next : FactBatch} {last : Option Nat} {w' w'' : Work}
      (before : Batched ids w batch last w') (ctx : ApplyContext) (same : ctx.ids = ids)
      (fact : Value) (returned : batch.apply ctx fact w' = .ok (next, w'')) :
      Batched ids w next (some ctx.now) w''
  | flush {batch next : FactBatch} {last : Option Nat} {w' w'' : Work}
      (before : Batched ids w batch last w') (returned : batch.flush w' = .ok (next, w'')) :
      Batched ids w next last w''

variable {ids : IdSource} {w w' : Work} {batch next : FactBatch}

/-- What a call keeps. -/
def Intact (ids : IdSource) (w w' : Work) : Prop := Sound ids w' ∧ RunsLater w.state w'.state

theorem runFold_intact {command : Fold PUnit} (keeps : Keeps (Evolves ids) command)
    (sound : Sound ids w) (returned : runFold command w = .ok w') : Intact ids w w' :=
  have clean := sound.without_events
  have steps := runFold_steps keeps sound returned
  ⟨Steps.sound clean steps, (Steps.runsLater clean steps :)⟩

theorem flush_intact (sound : Sound ids w) (returned : batch.flush w = .ok (next, w')) :
    Intact ids w w' ∧ next.pendingAt = none := by
  unfold FactBatch.flush at returned
  cases pending : batch.pendingAt with
  | none =>
    simp only [pending, Except.ok.injEq, Prod.mk.injEq] at returned
    obtain ⟨rfl, rfl⟩ := returned
    exact ⟨⟨sound.without_events, .refl _⟩, pending⟩
  | some now =>
    simp only [pending] at returned
    cases ran : runFold (recomputeStatuses now) w with
    | error fault =>
      rw [ran] at returned
      cases returned
    | ok w₁ =>
      rw [ran] at returned
      cases returned
      exact ⟨runFold_intact (Keeps.evolves (recomputeStatuses_keeps now)) sound ran, rfl⟩

theorem finish_keeps (stable batchable : Bool) (now : Nat) :
    Keeps (Evolves ids) (FactBatch.finish stable batchable now) := by
  -- It writes no more than when statuses were last observed, or derives them.
  apply Keeps.evolves
  intro w
  rw [FactBatch.finish, ensures_bind, ensures_get]
  split
  · exact keeps_passive (fun _ => passive_bookkeeping ..) w
  · split
    · exact keeps_pure _ w
    · exact recomputeStatuses_keeps now w

theorem rest_intact {ctx : ApplyContext} (fresh : FreshIds ctx.ids) {fact : Value}
    {before : Work} (intact : Intact ctx.ids w before)
    (held : batch.pendingAt = none ∨ batch.pendingAt = some ctx.now)
    {stable batchable : Bool} {pending kept : Work → Bool}
    (returned : (do
      let after ← runFold (fold ctx fact (FactBatch.finish stable batchable ctx.now)) before
      return ({ batch with
          pendingAt := if pending after then some ctx.now else batch.pendingAt
          preserveSignals := batch.preserveSignals && kept after },
        { after with events := before.events ++ after.events })) = .ok (next, w')) :
    Intact ctx.ids w w' ∧ (next.pendingAt = none ∨ next.pendingAt = some ctx.now) := by
  cases ran : runFold (fold ctx fact (FactBatch.finish stable batchable ctx.now)) before with
  | error fault =>
    rw [ran] at returned
    cases returned
  | ok after =>
    rw [ran] at returned
    cases returned
    obtain ⟨sound', later⟩ :=
      runFold_intact (fold_keeps fresh fact (finish_keeps _ _ _)) intact.1 ran
    refine ⟨⟨sound'.with_events _, intact.2.trans later⟩, ?_⟩
    dsimp only
    split
    · exact .inr rfl
    · exact held

theorem apply_intact {ctx : ApplyContext} (fresh : FreshIds ctx.ids) {fact : Value}
    (sound : Sound ctx.ids w) (returned : batch.apply ctx fact w = .ok (next, w')) :
    Intact ctx.ids w w' ∧ (next.pendingAt = none ∨ next.pendingAt = some ctx.now) := by
  unfold FactBatch.apply at returned
  dsimp only at returned
  -- The batch is flushed first, unless what it owes is owed for this very time.
  split at returned
  next =>
    cases started : batch.flush w with
    | error fault =>
      rw [started] at returned
      cases returned
    | ok result =>
      obtain ⟨flushed, before⟩ := result
      obtain ⟨intact, idle⟩ := flush_intact sound started
      rw [started] at returned
      exact rest_intact fresh intact (.inl idle) returned
  next same =>
    have held : batch.pendingAt = some ctx.now := by simpa using (not_or.mp same).2
    exact rest_intact fresh ⟨sound.without_events, .refl _⟩ (.inr held) returned

/-- Whatever facts come in batches, the thread stays sound, and what has ended stays so. -/
theorem sound_of_batched {last : Option Nat} (fresh : FreshIds ids) (reachable : Reachable ids w)
    (batched : Batched ids w batch last w') :
    Intact ids w w' ∧ (batch.pendingAt = none ∨ batch.pendingAt = last) := by
  induction batched with
  | new => exact ⟨⟨reachable.sound fresh, .refl _⟩, .inl rfl⟩
  | renew before idle ih => exact ⟨ih.1, .inl idle⟩
  | call before ctx same input returned ih =>
    subst same
    have step := runFold_intact (fold_keeps fresh input (Keeps.evolves (recomputeStatuses_keeps _)))
      ih.1.1 returned
    exact ⟨⟨step.1, ih.1.2.trans step.2⟩, ih.2⟩
  | apply before ctx same fact returned ih =>
    subst same
    obtain ⟨step, pending⟩ := apply_intact fresh ih.1.1 returned
    exact ⟨⟨step.1, ih.1.2.trans step.2⟩, pending⟩
  | flush before returned ih =>
    obtain ⟨step, idle⟩ := flush_intact ih.1.1 returned
    exact ⟨⟨step.1, ih.1.2.trans step.2⟩, .inl idle⟩

theorem sound_of_batched_signal :
    ∃ batch w', Batched sampleIds (newThread "thread" none sampleConfig) batch (some 5) w' ∧
      batch.pendingAt = some 5 ∧ Sound sampleIds w' := by
  have new : Reachable sampleIds (newThread "thread" none sampleConfig) := ⟨_, _, _, _, .none⟩
  have pending : (FactBatch.apply {} { now := 5, ids := sampleIds } (.obj [("type", .str "signal")])
      (newThread "thread" none sampleConfig)).toOption.any (·.1.pendingAt = some 5) = true := by
    decide +kernel
  generalize ran : FactBatch.apply .. = result at pending
  cases result with
  | error fault => cases pending
  | ok result =>
    have batched := Batched.new.apply { now := 5, ids := sampleIds } rfl _ ran
    exact ⟨_, _, batched, of_decide_eq_true pending,
      (sound_of_batched freshIds_sampleIds new batched).1.1⟩

end Ace
