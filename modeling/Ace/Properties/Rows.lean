import Ace.Properties.AgentTree

/-!
# Identity of stored rows

Items, interactions and tasks carry ids that the id source handed out, no two rows of a kind
share one, and a row that a key lost is kept in the history under its own id, settled.
-/

namespace Ace

open Script

/-! ### Edits of an item -/

/-- The members that identify an item and that the indexes look at, the call apart. -/
def frontMembers : List String := 
  ["id", "agentId", "createdAt", "runId", "type", "role", "complete"]

/-- `next` is `item` with other content: the same front, and a call of the same status. -/
structure Edits (item next : Value) : Prop where
  object : ∃ fields, next = .obj fields
  unique : (Assoc.keys item.fields).Nodup → (Assoc.keys next.fields).Nodup
  front : ∀ name ∈ frontMembers, next.field name = item.field name
  status : Item.callStatus next = Item.callStatus item

theorem Edits.isItem {item next : Value} (edits : Edits item next) (shape : IsItem item) :
    IsItem next := by
  refine ⟨edits.object, edits.unique shape.unique, ?_, ?_⟩
  · rw [edits.front "id" (by decide)]
    exact shape.id
  · rw [edits.front "createdAt" (by decide)]
    exact shape.createdAt

theorem Edits.keepsIdentity {ids : IdSource} {w : Work} {key : Key} {item next : Value}
    (edits : Edits item next) (known : w.state.items.get? key = some item) :
    KeepsIdentity ids w key next := by
  simp only [KeepsIdentity, known, Item.id, Item.agentId, Item.createdAt, Item.runId]
  rw [edits.front "id" (by decide), edits.front "agentId" (by decide),
    edits.front "createdAt" (by decide), edits.front "runId" (by decide)]
  exact ⟨rfl, rfl, rfl, rfl⟩

theorem Edits.isLiveTool {item next : Value} (edits : Edits item next) :
    Item.isLiveTool next = Item.isLiveTool item := by
  simp only [Item.isLiveTool, edits.status, Item.isToolCall, Item.hasType]
  rw [edits.front "type" (by decide)]

theorem Edits.isOpenText {item next : Value} (edits : Edits item next) :
    isOpenText next = isOpenText item := by
  simp only [Ace.isOpenText, Item.complete, Item.hasType, Item.isAssistant]
  rw [edits.front "type" (by decide), edits.front "complete" (by decide),
    edits.front "role" (by decide)]

theorem ne_of_front {name other : String} (front : name ∈ frontMembers)
    (rest : other ∉ frontMembers) : other ≠ name := by
  rintro rfl
  exact rest front

theorem Edits.refl {fields : List (String × Value)} : Edits (.obj fields) (.obj fields) :=
  ⟨⟨fields, rfl⟩, fun unique => unique, fun _ _ => rfl, rfl⟩

theorem unique_setField {item : Value} (unique : (Assoc.keys item.fields).Nodup) (name : String)
    (value : Value) : (Assoc.keys (item.setField name value).fields).Nodup := by
  cases item with
  | obj fields => exact Assoc.nodup_put unique name value
  | exotic fields => exact Assoc.nodup_put unique name value
  | _ => exact unique

theorem Edits.setField {item next : Value} (edits : Edits item next) {name : String}
    (value : Value) (rest : name ∉ frontMembers) (call : name ≠ "call") :
    Edits item (next.setField name value) where
  object := by
    obtain ⟨fields, rfl⟩ := edits.object
    exact ⟨_, rfl⟩
  unique was := unique_setField (edits.unique was) _ _
  front other front := by
    rw [Value.field_setField_ne _ _ (ne_of_front front rest)]
    exact edits.front other front
  status := by
    simp only [Item.callStatus, Item.call]
    rw [Value.field_setField_ne _ _ call]
    exact edits.status

theorem edits_setCall {fields : List (String × Value)} {f : Value → Value}
    (keeps : ∀ call, (f call).field "status" = call.field "status") :
    Edits (.obj fields) (Item.setCall (.obj fields) f) where
  object := ⟨_, rfl⟩
  unique was := unique_setField was _ _
  front _ front := Value.field_setField_ne _ _ (ne_of_front front (by decide))
  status := by
    simp only [Item.callStatus, Item.setCall, Item.call]
    rw [Value.field_setField_self]
    exact keeps _

theorem edits_setDetail {item : Value} (shape : IsItem item) (name : String) (value : Value) :
    Edits item (Item.setDetail item name value) := by
  obtain ⟨fields, rfl⟩ := shape.object
  exact edits_setCall fun _ => Value.field_setField_ne _ _ (by decide)

theorem edits_eraseOutput {item : Value} (shape : IsItem item) :
    Edits item (Item.eraseOutput item) := by
  obtain ⟨fields, rfl⟩ := shape.object
  exact edits_setCall fun _ => Value.field_setField_ne _ _ (by decide)

theorem edits_setBackgroundTaskId {item : Value} (shape : IsItem item) (taskId : String) :
    Edits item (Item.setBackgroundTaskId item taskId) := by
  obtain ⟨fields, rfl⟩ := shape.object
  exact edits_setCall fun _ => Value.field_setField_ne _ _ (by decide)

theorem edits_appendText (fields : List (String × Value)) (append : String) :
    Edits (.obj fields) (appendText (.obj fields) append) := by
  have written : ∀ (c : Bool) value, Edits (.obj fields)
      (if c = true then (Value.obj fields).setField "text" value else .obj fields) := by
    intro c value
    cases c
    · exact .refl
    · exact Edits.refl.setField value (by decide) (by decide)
  unfold appendText
  simp only
  split
  · exact written _ _
  · exact (written _ _).setField _ (by decide) (by decide)

theorem edits_applyDelta {item next : Value} {field : DeltaField} {text : String}
    (shape : IsItem item) (applied : applyDelta item field text = some next) :
    Edits item next := by
  obtain ⟨fields, rfl⟩ := shape.object
  unfold applyDelta at applied
  split at applied
  · cases applied
  · split at applied
    · cases applied
      exact edits_setDetail shape _ _
    · split at applied
      · cases applied
        exact Edits.refl.setField _ (by decide) (by decide)
      · cases applied
        exact edits_appendText fields text

/-! ### Sound rows -/

structure RowSound (ids : IdSource) (w : Work) : Prop where
  shape : ∀ key item, w.state.items.get? key = some item → IsItem item
  items : Ledger.Sound Item.id (Drawn ids w .item) (fun _ => True) w.state.items .empty
  interactions : Ledger.Sound Interaction.id (Drawn ids w .interaction) (·.state ≠ .pending)
    w.state.interactions w.state.interactionHistory
  tasks : Ledger.Sound BackgroundTask.id (Drawn ids w .task) (·.status ≠ .running)
    w.state.tasks w.state.taskHistory

/-- The ledgers of interactions and tasks are the same. -/
structure SameWork (s s' : ThreadState) : Prop where
  interactions : s'.interactions = s.interactions
  interactionHistory : s'.interactionHistory = s.interactionHistory
  tasks : s'.tasks = s.tasks
  taskHistory : s'.taskHistory = s.taskHistory

theorem refreshAgentIndex_items (s : ThreadState) (key : Key) (previous : Option String) :
    (refreshAgentIndex s key previous).items = s.items := by
  unfold refreshAgentIndex
  split <;> rfl

theorem refreshAgentIndex_sameWork (s : ThreadState) (key : Key) (previous : Option String) :
    SameWork s (refreshAgentIndex s key previous) := by
  unfold refreshAgentIndex
  split <;> exact ⟨rfl, rfl, rfl, rfl⟩

theorem addAgent_items (s : ThreadState) (key : Key) (record : AgentRecord) :
    (addAgent s key record).items = s.items := by
  simp only [addAgent, refreshAgentIndex_items]

theorem addAgent_sameWork (s : ThreadState) (key : Key) (record : AgentRecord) :
    SameWork s (addAgent s key record) := by
  obtain ⟨interactions, history, tasks, taskHistory⟩ :=
    refreshAgentIndex_sameWork { s with agents := s.agents.put key record } key none
  exact ⟨interactions, history, tasks, taskHistory⟩

section

variable {ids : IdSource} {w w' : Work}

theorem RowSound.of_sameWork (sound : RowSound ids w) (le : w.drawn ≤ w'.drawn)
    (same : SameWork w.state w'.state)
    (shape : ∀ key item, w'.state.items.get? key = some item → IsItem item)
    (items : Ledger.Sound Item.id (Drawn ids w' .item) (fun _ => True) w'.state.items .empty) :
    RowSound ids w' where
  shape := shape
  items := items
  interactions := by
    rw [same.interactions, same.interactionHistory]
    exact sound.interactions.mono fun _ was => Drawn.mono was le
  tasks := by
    rw [same.tasks, same.taskHistory]
    exact sound.tasks.mono fun _ was => Drawn.mono was le

theorem RowSound.of_same (sound : RowSound ids w) (le : w.drawn ≤ w'.drawn)
    (items : w'.state.items = w.state.items) (same : SameWork w.state w'.state) :
    RowSound ids w' := by
  refine sound.of_sameWork le same ?_ ?_
  · rw [items]
    exact sound.shape
  · rw [items]
    exact sound.items.mono fun _ was => Drawn.mono was le

theorem RowSound.putItem (sound : RowSound ids w) {key : Key} {item : Value} (shape : IsItem item)
    (identity : KeepsIdentity ids w key item)
    (items : w'.state.items = w.state.items.put key item) (drawn : w'.drawn = w.drawn)
    (same : SameWork w.state w'.state) : RowSound ids w' := by
  refine sound.of_sameWork drawn.ge same ?_ ?_
  · intro k other h
    rw [items, Dictionary.get?_put] at h
    split at h
    next =>
      cases h
      exact shape
    next => exact sound.shape k other h
  · rw [items]
    refine Ledger.Sound.mono ?_ fun _ was => Drawn.mono was drawn.ge
    unfold KeepsIdentity at identity
    split at identity
    next previous known => exact sound.items.replace known identity.1
    next unknown =>
      have opened : Ledger.Sound Item.id (Drawn ids w .item) (fun _ => True)
          (w.state.items.put key item) (Ledger.archive Item.id w.state.items .empty key) :=
        sound.items.open identity.2 identity.1 fun _ _ => trivial
      rw [Ledger.archive, unknown] at opened
      exact opened

theorem TreeStep.rowSound (sound : RowSound ids w) (step : TreeStep ids w w') :
    RowSound ids w' := by
  cases step with
  | draw => exact sound.of_same (Nat.le_succ _) rfl ⟨rfl, rfl, rfl, rfl⟩
  | passive s same =>
    exact sound.of_same le_rfl same.items
      ⟨same.interactions, same.interactionHistory, same.tasks, same.taskHistory⟩
  | createAgent key id now =>
    exact sound.of_same le_rfl (addAgent_items ..) (addAgent_sameWork w.state key _)
  | move key record parentKey parentId clears =>
    refine sound.of_same le_rfl (refreshAgentIndex_items ..) ?_
    obtain ⟨interactions, history, tasks, taskHistory⟩ :=
      refreshAgentIndex_sameWork (s := { w.state with agents := _ }) key record.agent.parentId
    exact ⟨interactions, history, tasks, taskHistory⟩
  | writeItem key item liveTools openText pendingItemLinks shape identity =>
    exact sound.putItem shape identity rfl rfl ⟨rfl, rfl, rfl, rfl⟩
  | deltaItem key item next field text known applied =>
    have edits := edits_applyDelta (sound.shape key item known) applied
    exact sound.putItem (edits.isItem (sound.shape key item known)) (edits.keepsIdentity known)
      rfl rfl ⟨rfl, rfl, rfl, rfl⟩
  | passiveEvent => exact sound.of_same le_rfl rfl ⟨rfl, rfl, rfl, rfl⟩
  | touch => exact sound.of_same le_rfl rfl ⟨rfl, rfl, rfl, rfl⟩
  | changeAgent => exact sound.of_same le_rfl rfl ⟨rfl, rfl, rfl, rfl⟩
  | setRoot => exact sound.of_same le_rfl rfl ⟨rfl, rfl, rfl, rfl⟩
  | announce => exact sound.of_same le_rfl rfl ⟨rfl, rfl, rfl, rfl⟩
  | setStatus => exact sound.of_same le_rfl rfl ⟨rfl, rfl, rfl, rfl⟩
  | threadStatus => exact sound.of_same le_rfl rfl ⟨rfl, rfl, rfl, rfl⟩

/-! ### Interactions and tasks -/

theorem archiveInteraction_eq (s : ThreadState) (key : Key) :
    archiveInteraction s key = { s with
      interactionHistory :=
        Ledger.archive Interaction.id s.interactions s.interactionHistory key } := by
  unfold archiveInteraction Ledger.archive
  cases s.interactions.get? key <;> rfl

theorem archiveTask_eq (s : ThreadState) (key : Key) :
    archiveTask s key = { s with
      taskHistory := Ledger.archive BackgroundTask.id s.tasks s.taskHistory key } := by
  unfold archiveTask Ledger.archive
  cases s.tasks.get? key <;> rfl

theorem storeRun_frame (s : ThreadState) (key : Key) (run : Run) :
    (storeRun s key run).items = s.items ∧ SameWork s (storeRun s key run) := by
  unfold storeRun
  split <;> exact ⟨rfl, rfl, rfl, rfl, rfl⟩

theorem Step.rowSound (sound : RowSound ids w) (step : Step ids w w') : RowSound ids w' := by
  cases step with
  | tree step => exact step.rowSound sound
  | startRun => exact sound.of_same le_rfl rfl ⟨rfl, rfl, rfl, rfl⟩
  | recordRun key record run known new state endedBy trigger endedAt =>
    obtain ⟨items, interactions, history, tasks, taskHistory⟩ :=
      storeRun_frame w.state key (endedRun run state endedBy trigger endedAt)
    exact sound.of_same le_rfl items ⟨interactions, history, tasks, taskHistory⟩
  | endRun => exact sound.of_same le_rfl rfl ⟨rfl, rfl, rfl, rfl⟩
  | retrigger => exact sound.of_same le_rfl rfl ⟨rfl, rfl, rfl, rfl⟩
  | openInteraction key interaction fresh pending free =>
    simp only [archiveInteraction_eq]
    exact { sound with interactions := sound.interactions.open fresh.2 fresh.1 free }
  | closeInteraction key interaction known =>
    exact { sound with interactions := sound.interactions.replace known rfl }
  | startTask key task fresh running free =>
    simp only [archiveTask_eq]
    exact { sound with tasks := sound.tasks.open fresh.2 fresh.1 free }
  | refineTask key task refined known running id still =>
    exact { sound with tasks := sound.tasks.replace known id }
  | settleTask key task known =>
    exact { sound with tasks := sound.tasks.replace known rfl }

end

end Ace
