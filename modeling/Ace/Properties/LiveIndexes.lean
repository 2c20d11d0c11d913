import Ace.Properties.Rows

/-!
# Live-work indexes

Derivation, cleanup and steering read only the indexes of live work, never the history. An
index is exact when its keys are those whose row is live. Every step that writes a row
refreshes its key, and a delta changes nothing that an index looks at.
-/

namespace Ace

open Script

/-- The keys of `index` are those of the live rows. -/
def Indexes {α : Type} (index : Dictionary Unit) (rows : Dictionary α) (live : α → Bool) : Prop :=
  ∀ key, (index.get? key).isSome = (rows.get? key).any live

structure IndexSound (s : ThreadState) : Prop where
  liveTools : Indexes s.indexes.liveTools s.items Item.isLiveTool
  openText : Indexes s.indexes.openText s.items isOpenText
  pendingInteractions :
    Indexes s.indexes.pendingInteractions s.interactions (·.state == .pending)
  runningTasks : ∀ key, (s.indexes.runningTasks.get? key).isSome = isLiveTask s key
  uncertain : ∀ key, s.uncertainTasks.contains key = true →
    ∃ task, s.tasks.get? key = some task ∧ task.status = .unknown

/-! ### Refreshing one key -/

theorem refreshed_mark (d : Dictionary Unit) (key : Key) (live : Bool) :
    Refreshed d (mark d key live) key live := by
  intro k
  unfold mark
  by_cases same : k = key
  · subst same
    cases live <;> simp
  · cases live <;> simp [Dictionary.get?_put, Dictionary.get?_erase, same, Ne.symm same]

section

variable {α : Type} {index index' : Dictionary Unit} {rows : Dictionary α} {live : α → Bool}
  {key : Key} {row old : α}

theorem Indexes.put (h : Indexes index rows live)
    (refreshed : Refreshed index index' key (live row)) : Indexes index' (rows.put key row) live := by
  intro k
  rw [refreshed k, Dictionary.get?_put]
  by_cases same : k = key
  · subst same
    cases is_live : live row <;> simp [is_live]
  · rw [if_neg same, if_neg (Ne.symm same)]
    exact h k

theorem Indexes.replace (h : Indexes index rows live) (known : rows.get? key = some old)
    (same : live row = live old) : Indexes index (rows.put key row) live := by
  intro k
  rw [h k, Dictionary.get?_put]
  split
  next eq =>
    subst eq
    simp [known, same]
  next => rfl

theorem Indexes.of_sameKeys (h : Indexes index rows live) (same : SameKeys index index') :
    Indexes index' rows live := by
  intro k
  rw [same k]
  exact h k

end

/-! ### Every step keeps the indexes -/

/-- The tables that the indexes are about, and the indexes. -/
structure SameLive (s s' : ThreadState) : Prop where
  items : s'.items = s.items
  interactions : s'.interactions = s.interactions
  tasks : s'.tasks = s.tasks
  uncertainTasks : s'.uncertainTasks = s.uncertainTasks
  liveTools : SameKeys s.indexes.liveTools s'.indexes.liveTools
  openText : SameKeys s.indexes.openText s'.indexes.openText
  pendingInteractions : SameKeys s.indexes.pendingInteractions s'.indexes.pendingInteractions
  runningTasks : SameKeys s.indexes.runningTasks s'.indexes.runningTasks

theorem SameKeys.rfl {d : Dictionary Unit} : SameKeys d d := fun _ => Eq.refl _

theorem IndexSound.of_same {s s' : ThreadState} (sound : IndexSound s) (same : SameLive s s') :
    IndexSound s' where
  liveTools := by
    rw [same.items]
    exact sound.liveTools.of_sameKeys same.liveTools
  openText := by
    rw [same.items]
    exact sound.openText.of_sameKeys same.openText
  pendingInteractions := by
    rw [same.interactions]
    exact sound.pendingInteractions.of_sameKeys same.pendingInteractions
  runningTasks key := by
    rw [same.runningTasks key, sound.runningTasks key]
    simp only [isLiveTask, same.tasks, same.uncertainTasks]
  uncertain key marked := by
    rw [same.tasks]
    exact sound.uncertain key (same.uncertainTasks ▸ marked)

theorem refreshAgentIndex_sameLive (s : ThreadState) (key : Key) (previous : Option String) :
    SameLive s (refreshAgentIndex s key previous) := by
  unfold refreshAgentIndex
  split <;> exact ⟨rfl, rfl, rfl, rfl, .rfl, .rfl, .rfl, .rfl⟩

theorem addAgent_sameLive (s : ThreadState) (key : Key) (record : AgentRecord) :
    SameLive s (addAgent s key record) := by
  obtain ⟨items, interactions, tasks, uncertain, tools, texts, pending, running⟩ :=
    refreshAgentIndex_sameLive { s with agents := s.agents.put key record } key none
  exact ⟨items, interactions, tasks, uncertain, tools, texts, pending, running⟩

theorem storeRun_sameLive (s : ThreadState) (key : Key) (run : Run) :
    SameLive s (storeRun s key run) := by
  unfold storeRun
  split <;> exact ⟨rfl, rfl, rfl, rfl, .rfl, .rfl, .rfl, .rfl⟩

section

variable {ids : IdSource} {w w' : Work}

theorem TreeStep.indexSound (rows : RowSound ids w) (sound : IndexSound w.state)
    (step : TreeStep ids w w') : IndexSound w'.state := by
  cases step with
  | passive s same =>
    exact sound.of_same ⟨same.items, same.interactions, same.tasks, same.uncertainTasks,
      same.liveTools, same.openText, same.pendingInteractions, same.runningTasks⟩
  | createAgent key id now => exact sound.of_same (addAgent_sameLive w.state key _)
  | move key record parentKey parentId clears =>
    obtain ⟨items, interactions, tasks, uncertain, tools, texts, pending, running⟩ :=
      refreshAgentIndex_sameLive (s := { w.state with agents := _ }) key record.agent.parentId
    exact sound.of_same ⟨items, interactions, tasks, uncertain, tools, texts, pending, running⟩
  | writeItem key item liveTools openText pendingItemLinks shape identity tools texts =>
    exact { sound with
      liveTools := sound.liveTools.put tools
      openText := sound.openText.put texts }
  | deltaItem key item next field text known applied =>
    have edits := edits_applyDelta (rows.shape key item known) applied
    exact { sound with
      liveTools := sound.liveTools.replace known edits.isLiveTool
      openText := sound.openText.replace known edits.isOpenText }
  | draw => exact sound.of_same ⟨rfl, rfl, rfl, rfl, .rfl, .rfl, .rfl, .rfl⟩
  | passiveEvent => exact sound.of_same ⟨rfl, rfl, rfl, rfl, .rfl, .rfl, .rfl, .rfl⟩
  | touch => exact sound.of_same ⟨rfl, rfl, rfl, rfl, .rfl, .rfl, .rfl, .rfl⟩
  | changeAgent => exact sound.of_same ⟨rfl, rfl, rfl, rfl, .rfl, .rfl, .rfl, .rfl⟩
  | setRoot => exact sound.of_same ⟨rfl, rfl, rfl, rfl, .rfl, .rfl, .rfl, .rfl⟩
  | announce => exact sound.of_same ⟨rfl, rfl, rfl, rfl, .rfl, .rfl, .rfl, .rfl⟩
  | setStatus => exact sound.of_same ⟨rfl, rfl, rfl, rfl, .rfl, .rfl, .rfl, .rfl⟩
  | threadStatus => exact sound.of_same ⟨rfl, rfl, rfl, rfl, .rfl, .rfl, .rfl, .rfl⟩

theorem IndexSound.writeInteraction {s : ThreadState} (sound : IndexSound s) (key : Key)
    (row : Interaction) : IndexSound (putInteraction s key row) := by
  refine { sound with pendingInteractions := sound.pendingInteractions.put ?_ }
  have refreshed := refreshed_mark s.indexes.pendingInteractions key (row.state == .pending)
  simpa [putInteraction, refreshInteractionIndex] using refreshed

/-- Writing a task refreshes its key; a mark may change for that key only, and stays where
the new status is unknown. -/
theorem IndexSound.writeTask {s : ThreadState} (sound : IndexSound s) (key : Key)
    (row : BackgroundTask) (uncertainTasks : Dictionary Unit)
    (others : ∀ k, k ≠ key → uncertainTasks.get? k = s.uncertainTasks.get? k)
    (marked : (uncertainTasks.get? key).isSome → row.status = .unknown) :
    IndexSound (putTask { s with uncertainTasks } key row) := by
  have other_tasks : ∀ k, k ≠ key → (s.tasks.put key row).get? k = s.tasks.get? k :=
    fun k ne => Dictionary.get?_put_ne _ _ (Ne.symm ne)
  refine { sound with runningTasks := ?_, uncertain := ?_ }
  · intro k
    show ((mark s.indexes.runningTasks key _).get? k).isSome = _
    rw [refreshed_mark]
    split
    next same =>
      subst same
      have live : isLiveTask (putTask { s with uncertainTasks } k row) k =
          isLiveTask { s with tasks := s.tasks.put k row, uncertainTasks } k := rfl
      rw [live]
      cases isLiveTask { s with tasks := s.tasks.put k row, uncertainTasks } k <;> rfl
    next ne =>
      rw [sound.runningTasks]
      simp only [isLiveTask, putTask, refreshTaskIndex, other_tasks k ne, Dictionary.contains,
        others k ne]
  · intro k is_marked
    by_cases same : k = key
    · subst same
      exact ⟨row, Dictionary.get?_put_self .., marked is_marked⟩
    · have was : s.uncertainTasks.contains k = true := by
        simpa [Dictionary.contains, putTask, refreshTaskIndex, others k same] using is_marked
      obtain ⟨task, known, unknown⟩ := sound.uncertain k was
      exact ⟨task, (other_tasks k same).trans known, unknown⟩

theorem Step.indexSound (rows : RowSound ids w) (sound : IndexSound w.state)
    (step : Step ids w w') : IndexSound w'.state := by
  cases step with
  | tree step => exact step.indexSound rows sound
  | startRun => exact sound.of_same ⟨rfl, rfl, rfl, rfl, .rfl, .rfl, .rfl, .rfl⟩
  | recordRun key record run known new state endedBy trigger endedAt =>
    obtain ⟨items, interactions, tasks, uncertain, tools, texts, pending, running⟩ :=
      storeRun_sameLive w.state key (endedRun run state endedBy trigger endedAt)
    exact sound.of_same ⟨items, interactions, tasks, uncertain, tools, texts, pending, running⟩
  | endRun => exact sound.of_same ⟨rfl, rfl, rfl, rfl, .rfl, .rfl, .rfl, .rfl⟩
  | retrigger => exact sound.of_same ⟨rfl, rfl, rfl, rfl, .rfl, .rfl, .rfl, .rfl⟩
  | openInteraction key interaction =>
    simp only [archiveInteraction_eq]
    refine IndexSound.writeInteraction ?_ key interaction
    exact sound.of_same ⟨rfl, rfl, rfl, rfl, .rfl, .rfl, .rfl, .rfl⟩
  | closeInteraction key interaction => exact sound.writeInteraction key _
  | startTask key task fresh running =>
    have archived : SameLive w.state (archiveTask w.state key) := by
      rw [archiveTask_eq]
      exact ⟨rfl, rfl, rfl, rfl, .rfl, .rfl, .rfl, .rfl⟩
    refine (sound.of_same archived).writeTask key task (w.state.uncertainTasks.erase key) ?_ ?_
    · intro k ne
      rw [archived.uncertainTasks, Dictionary.get?_erase, if_neg (Ne.symm ne)]
    · simp
  | refineTask key task refined known running id still =>
    have other : ∀ k, isLiveTask { w.state with tasks := w.state.tasks.put key refined } k =
        isLiveTask w.state k := by
      intro k
      simp only [isLiveTask, Dictionary.get?_put]
      split
      next same =>
        subst same
        simp [known, running, still]
      next => rfl
    refine { sound with runningTasks := ?_, uncertain := ?_ }
    · intro k
      exact (sound.runningTasks k).trans (other k).symm
    · intro k marked
      obtain ⟨lost, known_k, unknown⟩ := sound.uncertain k marked
      refine ⟨lost, ?_, unknown⟩
      have ne : key ≠ k := by
        rintro rfl
        rw [known] at known_k
        cases known_k
        simp [running] at unknown
      exact (Dictionary.get?_put_ne _ _ ne).trans known_k
  | settleTask key task known status endedAt settled unsettled uncertainTasks others marked =>
    exact sound.writeTask key _ uncertainTasks others marked

end

end Ace
