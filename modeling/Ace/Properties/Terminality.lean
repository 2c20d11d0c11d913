import Ace.Properties.Reachability

/-!
# Identity and terminality of entities

What two states of one thread have in common, the later one reached by any calls. An item
keeps its identity whatever is written under its key. An interaction that closed and a task
that ended stay as they are, and a key that is used again gets a row with a new id.
-/

namespace Ace

open Script

/-! ### What a later row may be -/

/-- The members of an item that never change. -/
structure SameItem (item next : Value) : Prop where
  id : Item.id next = Item.id item
  agentId : Item.agentId next = Item.agentId item
  createdAt : Item.createdAt next = Item.createdAt item
  runId : Item.runId next = Item.runId item

theorem SameItem.refl (item : Value) : SameItem item item := ⟨rfl, rfl, rfl, rfl⟩

theorem SameItem.trans {item next last : Value} (first : SameItem item next)
    (second : SameItem next last) : SameItem item last where
  id := second.id.trans first.id
  agentId := second.agentId.trans first.agentId
  createdAt := second.createdAt.trans first.createdAt
  runId := second.runId.trans first.runId

def InteractionLater (row next : Interaction) : Prop := row.state ≠ .pending → next = row

/-- A task that completed, failed or was stopped. -/
def TaskStatus.Ended (status : TaskStatus) : Prop :=
  status = .completed ∨ status = .failed ∨ status = .stopped

instance (status : TaskStatus) : Decidable status.Ended :=
  inferInstanceAs (Decidable (_ ∨ _ ∨ _))

theorem TaskStatus.not_ended {status : TaskStatus}
    (unsettled : status = .running ∨ status = .unknown) : ¬ status.Ended := by
  rcases unsettled with rfl | rfl <;> decide

/-- An ended task stays as it is, one that ace lost track of does not run again. -/
structure TaskLater (row next : BackgroundTask) : Prop where
  ended : row.status.Ended → next = row
  lost : row.status = .unknown → next.status = .unknown ∨ next.status.Ended

theorem InteractionLater.refl (row : Interaction) : InteractionLater row row := fun _ => rfl

theorem InteractionLater.trans {row next last : Interaction} (first : InteractionLater row next)
    (second : InteractionLater next last) : InteractionLater row last := by
  intro closed
  have same := first closed
  subst same
  exact second closed

theorem TaskLater.refl (row : BackgroundTask) : TaskLater row row := ⟨fun _ => rfl, .inl⟩

theorem TaskLater.trans {row next last : BackgroundTask} (first : TaskLater row next)
    (second : TaskLater next last) : TaskLater row last where
  ended ended := by
    have same := first.ended ended
    subst same
    exact second.ended ended
  lost lost := by
    rcases first.lost lost with still | ended
    · exact second.lost still
    · have same := second.ended ended
      subst same
      exact .inr ended

/-- A later state: items keep their identity, closed interactions and ended tasks stay. -/
structure EntitiesLater (s s' : ThreadState) : Prop where
  items : ∀ key item, s.items.get? key = some item →
    ∃ next, s'.items.get? key = some next ∧ SameItem item next
  interactions : Ledger.Later Interaction.id InteractionLater s.interactions s.interactionHistory
    s'.interactions s'.interactionHistory
  tasks : Ledger.Later BackgroundTask.id TaskLater s.tasks s.taskHistory s'.tasks s'.taskHistory

theorem EntitiesLater.refl (s : ThreadState) : EntitiesLater s s where
  items _ item known := ⟨item, known, .refl item⟩
  interactions := .refl InteractionLater.refl
  tasks := .refl TaskLater.refl

theorem EntitiesLater.trans {s s' s'' : ThreadState} (first : EntitiesLater s s')
    (second : EntitiesLater s' s'') : EntitiesLater s s'' where
  items key item known := by
    obtain ⟨next, known', same⟩ := first.items key item known
    obtain ⟨last, known'', same'⟩ := second.items key next known'
    exact ⟨last, known'', same.trans same'⟩
  interactions := first.interactions.trans InteractionLater.trans second.interactions
  tasks := first.tasks.trans TaskLater.trans second.tasks

/-! ### Steps -/

section

variable {ids : IdSource} {w w' : Work}

theorem EntitiesLater.of_sameWork {s s' : ThreadState} (same : SameWork s s')
    (items : ∀ key item, s.items.get? key = some item →
      ∃ next, s'.items.get? key = some next ∧ SameItem item next) : EntitiesLater s s' where
  items := items
  interactions := by
    rw [same.interactions, same.interactionHistory]
    exact .refl InteractionLater.refl
  tasks := by
    rw [same.tasks, same.taskHistory]
    exact .refl TaskLater.refl

theorem EntitiesLater.of_same {s s' : ThreadState} (items : s'.items = s.items)
    (same : SameWork s s') : EntitiesLater s s' := by
  refine .of_sameWork same ?_
  rw [items]
  exact fun _ item known => ⟨item, known, .refl item⟩

theorem KeepsIdentity.entitiesLater {s' : ThreadState} {key : Key} {item : Value}
    (identity : KeepsIdentity ids w key item) (items : s'.items = w.state.items.put key item)
    (same : SameWork w.state s') : EntitiesLater w.state s' := by
  refine .of_sameWork same ?_
  intro k old known
  rw [items, Dictionary.get?_put]
  split
  next here =>
    subst here
    unfold KeepsIdentity at identity
    simp only [known] at identity
    obtain ⟨id, agentId, createdAt, runId⟩ := identity
    exact ⟨item, rfl, id, agentId, createdAt, runId⟩
  next => exact ⟨old, known, .refl old⟩

theorem TreeStep.entitiesLater (sound : RowSound ids w) (step : TreeStep ids w w') :
    EntitiesLater w.state w'.state := by
  cases step with
  | passive s same =>
    exact .of_same same.items
      ⟨same.interactions, same.interactionHistory, same.tasks, same.taskHistory⟩
  | createAgent key id now => exact .of_same (addAgent_items ..) (addAgent_sameWork w.state key _)
  | move key record parentKey parentId clears =>
    refine .of_same (refreshAgentIndex_items ..) ?_
    obtain ⟨interactions, history, tasks, taskHistory⟩ :=
      refreshAgentIndex_sameWork (s := { w.state with agents := _ }) key record.agent.parentId
    exact ⟨interactions, history, tasks, taskHistory⟩
  | writeItem key item liveTools openText pendingItemLinks shape identity =>
    exact identity.entitiesLater rfl ⟨rfl, rfl, rfl, rfl⟩
  | deltaItem key item next field text known applied =>
    have edits := edits_applyDelta (sound.shape key item known) applied
    have identity : KeepsIdentity ids w key next := edits.keepsIdentity known
    exact identity.entitiesLater rfl ⟨rfl, rfl, rfl, rfl⟩
  | draw => exact .refl _
  | passiveEvent => exact .refl _
  | touch => exact .of_same rfl ⟨rfl, rfl, rfl, rfl⟩
  | changeAgent => exact .of_same rfl ⟨rfl, rfl, rfl, rfl⟩
  | setRoot => exact .of_same rfl ⟨rfl, rfl, rfl, rfl⟩
  | announce => exact .refl _
  | setStatus => exact .of_same rfl ⟨rfl, rfl, rfl, rfl⟩
  | threadStatus => exact .of_same rfl ⟨rfl, rfl, rfl, rfl⟩

theorem Step.entitiesLater (sound : RowSound ids w) (step : Step ids w w') :
    EntitiesLater w.state w'.state := by
  have same := EntitiesLater.refl w.state
  cases step with
  | tree step => exact step.entitiesLater sound
  | startRun => exact .of_same rfl ⟨rfl, rfl, rfl, rfl⟩
  | recordRun key record run known new state endedBy trigger endedAt =>
    obtain ⟨items, work⟩ := storeRun_frame w.state key (endedRun run state endedBy trigger endedAt)
    obtain ⟨interactions, history, tasks, taskHistory⟩ := work
    exact .of_same items ⟨interactions, history, tasks, taskHistory⟩
  | endRun => exact .of_same rfl ⟨rfl, rfl, rfl, rfl⟩
  | retrigger => exact .of_same rfl ⟨rfl, rfl, rfl, rfl⟩
  | openInteraction key interaction fresh pending free =>
    simp only [archiveInteraction_eq]
    exact { same with
      interactions := Ledger.later_open InteractionLater.refl sound.interactions fresh.2
        fresh.1 free }
  | closeInteraction key interaction known open_ state closed resolution resolvedBy autoReviewed
      closedAt =>
    -- only a pending interaction closes
    have forward : ∀ next, InteractionLater interaction next :=
      fun _ was_closed => absurd open_ was_closed
    exact { same with
      interactions := Ledger.later_replace InteractionLater.refl sound.interactions known rfl
        (forward _) }
  | startTask key task fresh running free =>
    simp only [archiveTask_eq]
    exact { same with
      tasks := Ledger.later_open TaskLater.refl sound.tasks fresh.2 fresh.1 free }
  | refineTask key task refined known running id still =>
    have forward : TaskLater task refined := by
      refine ⟨fun ended => absurd ended (TaskStatus.not_ended (.inl running)), fun lost => ?_⟩
      rw [running] at lost
      cases lost
    exact { same with
      tasks := Ledger.later_replace TaskLater.refl sound.tasks known id forward }
  | settleTask key task known status endedAt settled unsettled =>
    have forward : TaskLater task { task with status, endedAt := some endedAt } := by
      refine ⟨fun ended => absurd ended (TaskStatus.not_ended unsettled), fun _ => ?_⟩
      cases status with
      | running => exact absurd rfl settled
      | unknown => exact .inl rfl
      | completed => exact .inr (.inl rfl)
      | failed => exact .inr (.inr (.inl rfl))
      | stopped => exact .inr (.inr (.inr rfl))
    exact { same with
      tasks := Ledger.later_replace TaskLater.refl sound.tasks known rfl forward }

theorem Steps.entitiesLater (sound : Sound ids w) (steps : Steps ids w w') :
    EntitiesLater w.state w'.state := by
  induction steps with
  | refl => exact .refl _
  | tail before step ih =>
    have reached := Steps.sound sound before
    exact ih.trans (step.entitiesLater reached.rows)

/-! ### Whole runs -/

variable (fresh : FreshIds ids)

include fresh in
theorem Calls.entitiesLater {log : List EventPayload} (calls : Calls ids w log w')
    (sound : Sound ids w) : EntitiesLater w.state w'.state := by
  induction calls with
  | none => exact .refl _
  | apply before ctx same input returned ih =>
    subst same
    have reached := (before.keep fresh sound).1
    have steps := apply_steps fresh input reached returned
    have next := Steps.entitiesLater reached.without_events steps
    exact ih.trans next

/-- The interactions of a thread by id, current or archived. -/
def HasInteraction (s : ThreadState) (id : String) (row : Interaction) : Prop :=
  Ledger.Holds Interaction.id s.interactions s.interactionHistory id row

/-- The tasks of a thread by id, current or archived. -/
def HasTask (s : ThreadState) (id : String) (row : BackgroundTask) : Prop :=
  Ledger.Holds BackgroundTask.id s.tasks s.taskHistory id row

include fresh in
/-- **Entity identity and terminality.** Between a reachable state and any later one, an item
keeps its identity, a closed interaction and an ended task keep their rows, a lost task does
not run again, and a key that is used again has a row with a new id, the old row being in the
history. -/
theorem entities_of_reachable (reachable : Reachable ids w) {log : List EventPayload}
    (calls : Calls ids w log w') :
    (∀ key item, w.state.items.get? key = some item →
      ∃ next, w'.state.items.get? key = some next ∧ Item.id next = Item.id item ∧
        Item.agentId next = Item.agentId item ∧ Item.createdAt next = Item.createdAt item ∧
        Item.runId next = Item.runId item) ∧
    (∀ id row, HasInteraction w.state id row → row.state ≠ .pending →
      ∀ next, HasInteraction w'.state id next ↔ next = row) ∧
    (∀ id row, HasTask w.state id row → row.status.Ended →
      ∀ next, HasTask w'.state id next ↔ next = row) ∧
    (∀ id row, HasTask w.state id row → row.status = .unknown →
      (∃ next, HasTask w'.state id next) ∧
        ∀ next, HasTask w'.state id next → next.status = .unknown ∨ next.status.Ended) ∧
    (∀ key row next, w.state.interactions.get? key = some row → row.state ≠ .pending →
      w'.state.interactions.get? key = some next → next ≠ row →
      (∀ old, ¬ HasInteraction w.state next.id old) ∧
        w'.state.interactionHistory.get? row.id = some row) ∧
    ∀ key row next, w.state.tasks.get? key = some row → row.status.Ended →
      w'.state.tasks.get? key = some next → next ≠ row →
      (∀ old, ¬ HasTask w.state next.id old) ∧ w'.state.taskHistory.get? row.id = some row := by
  have sound := reachable.sound fresh
  have sound' := (calls.keep fresh sound).1
  have forward := calls.entitiesLater fresh sound
  refine ⟨?_, ?_, ?_, ?_, ?_, ?_⟩
  · intro key item known
    obtain ⟨next, known', same⟩ := forward.items key item known
    exact ⟨next, known', same.id, same.agentId, same.createdAt, same.runId⟩
  · intro id row held closed next
    obtain ⟨kept, held', same⟩ := forward.interactions.holds id row held
    have kept_eq := same closed
    subst kept_eq
    refine ⟨fun other => other.eq sound'.rows.interactions held', ?_⟩
    rintro rfl
    exact held'
  · intro id row held ended next
    obtain ⟨kept, held', same⟩ := forward.tasks.holds id row held
    have kept_eq := same.ended ended
    subst kept_eq
    refine ⟨fun other => other.eq sound'.rows.tasks held', ?_⟩
    rintro rfl
    exact held'
  · intro id row held lost
    obtain ⟨kept, held', same⟩ := forward.tasks.holds id row held
    refine ⟨⟨kept, held'⟩, fun next other => ?_⟩
    have kept_eq := other.eq sound'.rows.tasks held'
    subst kept_eq
    exact same.lost lost
  · intro key row next known closed known' changed
    obtain ⟨next', found, reopened⟩ := forward.interactions.key key row known
    rw [known'] at found
    cases found
    rcases reopened with ⟨_, same⟩ | ⟨fresh_id, old, archived, same⟩
    · exact absurd (same closed) changed
    · rw [same closed] at archived
      exact ⟨fun old held => fresh_id.not_holds held, archived⟩
  · intro key row next known ended known' changed
    obtain ⟨next', found, reopened⟩ := forward.tasks.key key row known
    rw [known'] at found
    cases found
    rcases reopened with ⟨_, same⟩ | ⟨fresh_id, old, archived, same⟩
    · exact absurd (same.ended ended) changed
    · rw [same.ended ended] at archived
      exact ⟨fun old held => fresh_id.not_holds held, archived⟩

end

def sampleEnd : List (Nat × Value) := [
  (5, .obj [("type", .str "background.ended"), ("task", .str "task"),
    ("status", .str "completed")])]

def sampleRestart : List (Nat × Value) := [
  (6, .obj [("type", .str "background.started"), ("agent", .str "lead"), ("task", .str "task"),
    ("kind", .str "shell"), ("title", .str "serve"), ("stoppable", .bool true)])]

theorem entities_of_sample :
    ∃ w log w' row next, Reachable sampleIds w ∧ Calls sampleIds w log w' ∧
      w.state.tasks.get? "task" = some row ∧ row.status = .completed ∧
      w'.state.tasks.get? "task" = some next ∧ next.status = .running ∧
      w'.state.taskHistory.get? row.id = some row := by
  obtain ⟨w, reachable, restarts⟩ := reachable_of_leadsTo
    (show leadsTo sampleIds (sampleInputs ++ sampleEnd) (newThread "thread" none sampleConfig)
      (fun w => (w.state.tasks.get? "task").any (·.status = .completed) &&
        leadsTo sampleIds sampleRestart w fun w' =>
          (w'.state.tasks.get? "task").any (·.status = .running)) = true by
      decide +kernel)
  obtain ⟨was, leads⟩ := (Bool.and_eq_true _ _).mp restarts
  obtain ⟨log, w', calls, runs⟩ := calls_of_leadsTo leads
  obtain ⟨row, known, completed⟩ := (Option.any_eq_true ..).mp was
  obtain ⟨next, known', running⟩ := (Option.any_eq_true ..).mp runs
  have is_completed : row.status = .completed := by simpa using completed
  have is_running : next.status = .running := by simpa using running
  have changed : next ≠ row := by
    rintro rfl
    rw [is_completed] at is_running
    cases is_running
  obtain ⟨_, _, _, _, _, reopened⟩ :=
    entities_of_reachable freshIds_sampleIds reachable calls
  have archived := (reopened "task" row next known (.inl is_completed) known' changed).2
  exact ⟨w, log, w', row, next, reachable, calls, known, is_completed, known', is_running, archived⟩

end Ace
