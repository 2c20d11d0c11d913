import Ace.Properties.ItemCommands

/-!
# The commands on interactions, tasks and runs

The remaining commands of the fold, as steps. An end boundary without its start records a
run that has ended already; every other end closes the active run of its agent.
-/

namespace Ace

open Script Script.Command

section

variable {ids : IdSource} {w w' w'' : Work}

/-! ### What steps on agents and items leave alone -/

theorem TreeStep.sameWork (step : TreeStep ids w w') : SameWork w.state w'.state := by
  cases step with
  | passive s same =>
    exact ⟨same.interactions, same.interactionHistory, same.tasks, same.taskHistory⟩
  | createAgent key => exact addAgent_sameWork w.state key _
  | move key record =>
    obtain ⟨interactions, history, tasks, taskHistory⟩ :=
      refreshAgentIndex_sameWork (s := { w.state with agents := _ }) key record.agent.parentId
    exact ⟨interactions, history, tasks, taskHistory⟩
  | _ => exact ⟨rfl, rfl, rfl, rfl⟩

theorem TreeSteps.sameWork (steps : TreeSteps ids w w') : SameWork w.state w'.state := by
  induction steps with
  | refl => exact ⟨rfl, rfl, rfl, rfl⟩
  | tail _ step ih =>
    have last := step.sameWork
    exact ⟨last.interactions.trans ih.interactions,
      last.interactionHistory.trans ih.interactionHistory, last.tasks.trans ih.tasks,
      last.taskHistory.trans ih.taskHistory⟩

theorem keeps_of_steps {α : Type} {m : Fold α}
    (h : ∀ w, Sound ids w → Ensures m w fun _ w' => Steps ids w w') : Keeps (Evolves ids) m := by
  intro w a w' run sound
  exact h w sound a w' run

/-! ### Interactions -/

theorem endInteraction_spec (ids : IdSource) {key : Key} {interaction : Interaction}
    (known : w.state.interactions.get? key = some interaction)
    (open_ : interaction.state = .pending) {state : InteractionState} (closed : state ≠ .pending)
    (now : Nat) (resolution : Option Value) (resolvedBy : Option String)
    (autoReviewed : Option Bool) :
    Ensures (endInteraction key interaction state now resolution resolvedBy autoReviewed) w
      fun _ w' => Steps ids w w' := by
  unfold endInteraction
  simp only [ensures_bind, ensures_changeState, ensures_emit]
  exact .single (.closeInteraction w key interaction known open_ state closed resolution resolvedBy
    autoReviewed now)

theorem ClosedState.state_ne (state : ClosedState) : state.state ≠ .pending := by
  cases state <;> simp [ClosedState.state]

theorem closeInteraction_keeps (ctx : ApplyContext) (fact : InteractionClosedFact) :
    Keeps (Evolves ids) (closeInteraction ctx fact) := by
  refine keeps_of_steps fun w _ => ?_
  unfold closeInteraction
  simp only [ensures_bind, ensures_getState]
  split
  next => simpa using Relation.ReflTransGen.refl
  next interaction known =>
    split
    next => simpa using Relation.ReflTransGen.refl
    next pending =>
      exact endInteraction_spec ids known (by simpa using pending) fact.state.state_ne _ _ _ _

variable {ctx : ApplyContext} (fresh : FreshIds ctx.ids)

theorem unowned_askDraft : Unowned askDraft := rfl

theorem unowned_taskDraft (fact : BackgroundStartedFact) : Unowned (taskDraft fact) := rfl

include fresh in
theorem openInteraction_keeps (fact : InteractionOpenedFact) :
    Keeps (Evolves ctx.ids) (openInteraction ctx fact) := by
  refine keeps_of_steps fun w sound => ?_
  unfold openInteraction
  simp only
  split
  next => simp
  next request _ =>
    simp only [ensures_bind, ensures_getState]
    split
    next => simpa using Relation.ReflTransGen.refl
    next free =>
      simp only [ensures_bind]
      refine Ensures.mono (ensureAgent_spec fresh sound fact.agent) ?_
      intro record w₁ ensured
      refine Ensures.mono (ensureItem_keeps fresh fact.agent fact.item unowned_askDraft w₁) ?_
      intro item w₂ asked
      have before : TreeSteps ctx.ids w w₂ := ensured.steps.trans (asked (ensured.sound sound))
      have sound₂ := Steps.sound sound (TreeSteps.steps before)
      apply ensures_nextId
      simp only [ensures_getState, ensures_changeState, ensures_emit]
      refine (TreeSteps.steps (before.tail (.draw w₂))).tail
        (.openInteraction { w₂ with drawn := w₂.drawn + 1 } fact.interaction _
          (freshInteraction_next fresh sound₂) rfl ?_)
      intro row taken
      have was : w.state.interactions.get? fact.interaction = some row := by
        rw [← before.sameWork.interactions]
        exact taken
      simpa [was] using free

/-! ### Tasks -/

include fresh in
theorem nameChild_spec (sound : Sound ctx.ids w) (childAgent : Option Key)
    (task : BackgroundTask) :
    Ensures (nameChild ctx childAgent task) w fun named w' =>
      AgentSteps ctx.ids w w' ∧ named.id = task.id ∧ named.status = task.status := by
  have unchanged : Ensures (pure task : Fold BackgroundTask) w fun named w' =>
      AgentSteps ctx.ids w w' ∧ named.id = task.id ∧ named.status = task.status := by
    rw [ensures_pure]
    exact ⟨.refl w, rfl, rfl⟩
  unfold nameChild
  cases childAgent with
  | none => exact unchanged
  | some child =>
    split
    · simp only [ensures_bind]
      refine Ensures.mono (ensureAgent_spec fresh sound _) ?_
      intro record w₁ ensured
      rw [ensures_pure]
      exact ⟨ensured.toAgentSteps, rfl, rfl⟩
    · exact unchanged

theorem nameTool_same (item : Option Value) (task : BackgroundTask) :
    (nameTool item task).id = task.id ∧ (nameTool item task).status = task.status := by
  unfold nameTool
  split <;> exact ⟨rfl, rfl⟩

include fresh in
theorem refineBackground_keeps {fact : BackgroundStartedFact} {task : BackgroundTask}
    (running : task.status = .running) (sound : Sound ctx.ids w)
    (known : w.state.tasks.get? fact.task = some task) :
    Ensures (refineBackground ctx fact task) w fun _ w' => Steps ctx.ids w w' := by
  unfold refineBackground
  simp only [ensures_bind]
  refine Ensures.mono (ensureAgent_spec fresh sound fact.agent) ?_
  intro record w₁ ensured
  refine Ensures.mono (nameChild_spec fresh (ensured.sound sound) fact.childAgent _) ?_
  rintro named w₂ ⟨learned, same_id, same_status⟩
  have first := ensured.toAgentSteps.trans learned
  simp only [ensures_getState]
  have attach : Keeps (TreeEvolves ctx.ids) (attachTask (fact.item.getD "") task.id) :=
    attachTask_keeps _ _
  refine Ensures.mono (Keeps.when (fun _ => attach) w₂) ?_
  intro _ w₃ attached
  have before : TreeSteps ctx.ids w w₃ := first.steps.trans (attached (first.sound sound))
  have steps := TreeSteps.steps before
  split
  next => simpa using steps
  next =>
    simp only [ensures_bind, ensures_changeState, ensures_emit]
    have still : w₃.state.tasks.get? fact.task = some task := by
      rw [before.sameWork.tasks]
      exact known
    obtain ⟨tool_id, tool_status⟩ :=
      nameTool_same (fact.item.bind w₂.state.items.get?) named
    have refined := steps.tail (.refineTask w₃ fact.task task (nameOutput fact (nameTool _ named))
      still running (tool_id.trans same_id) (tool_status.trans (same_status.trans running)))
    refine Ensures.mono (Keeps.whenSome (fun child _ => linkAgent_keeps fresh _) _) ?_
    intro _ w₄ linked
    exact refined.trans (TreeSteps.steps (linked (Steps.sound sound refined)))

include fresh in
theorem ensureChild_keeps (childAgent : Option Key) :
    Keeps (TreeEvolves ctx.ids) (ensureChild ctx childAgent) := by
  unfold ensureChild
  cases childAgent with
  | none => exact keeps_pure _
  | some child =>
    intro w
    rw [ensures_map]
    exact ensureAgent_keeps fresh child w

include fresh in
theorem startBackground_keeps (fact : BackgroundStartedFact) :
    Keeps (Evolves ctx.ids) (startBackground ctx fact) := by
  refine keeps_of_steps fun w sound => ?_
  unfold startBackground
  simp only [ensures_bind, ensures_getState]
  split
  next task found =>
    obtain ⟨known, running⟩ := Option.filter_eq_some_iff.mp found
    exact refineBackground_keeps fresh (by simpa using running) sound known
  next free =>
    split
    next => simpa using Relation.ReflTransGen.refl
    next =>
      simp only [ensures_bind]
      refine Ensures.mono (ensureAgent_spec fresh sound fact.agent) ?_
      intro record w₁ ensured
      refine Ensures.mono (ensureChild_keeps fresh fact.childAgent w₁) ?_
      intro child w₂ childKnown
      have first := ensured.steps.trans (childKnown (ensured.sound sound))
      refine Ensures.mono (ensureItem_keeps fresh fact.agent fact.item (unowned_taskDraft fact) w₂) ?_
      intro item w₃ itemKnown
      have before := first.trans (itemKnown (Steps.sound sound (TreeSteps.steps first)))
      have sound₃ := Steps.sound sound (TreeSteps.steps before)
      apply ensures_nextId
      simp only [ensures_changeState, ensures_emit]
      have not_running : ∀ row, w₃.state.tasks.get? fact.task = some row →
          row.status ≠ .running := by
        intro row taken running
        rw [TreeSteps.sameWork before |>.tasks] at taken
        simp [taken, running] at free
      have started := (TreeSteps.steps (before.tail (.draw w₃))).tail
        (.startTask { w₃ with drawn := w₃.drawn + 1 } fact.task
          (startedTask fact (ctx.ids .task w₃.drawn) record.agent.id ctx.now item child)
          (freshTask_next fresh sound₃) rfl not_running)
      simp only [archiveTask_eq] at started ⊢
      have attach : Keeps (TreeEvolves ctx.ids)
          (whenSome fact.item (attachTask · (ctx.ids .task w₃.drawn))) :=
        Keeps.whenSome fun item _ => attachTask_keeps item _
      refine Ensures.mono (attach _) ?_
      intro _ w₄ attached
      have fourth := started.trans (TreeSteps.steps (attached (Steps.sound sound started)))
      refine Ensures.mono (Keeps.whenSome (fun child _ => linkAgent_keeps fresh _) _) ?_
      intro _ w₅ linked
      exact fourth.trans (TreeSteps.steps (linked (Steps.sound sound fourth)))

theorem listenBackground_keeps (key : Key) (ports : List Nat) :
    Keeps (Evolves ids) (listenBackground key ports) := by
  refine keeps_of_steps fun w _ => ?_
  unfold listenBackground
  simp only [ensures_bind, ensures_getState]
  split
  next => simpa using Relation.ReflTransGen.refl
  next task found =>
    obtain ⟨known, running⟩ := Option.filter_eq_some_iff.mp found
    have is_running : task.status = .running := by simpa using running
    split
    next => simpa using Relation.ReflTransGen.refl
    next =>
      simp only [ensures_bind, ensures_changeState, ensures_emit]
      exact .single (.refineTask w key task _ known is_running rfl is_running)

theorem settleTask_spec (ids : IdSource) {key : Key} {task : BackgroundTask}
    (known : w.state.tasks.get? key = some task) {status : TaskStatus}
    (settled : status ≠ .running) (unsettled : task.status = .running ∨ task.status = .unknown)
    (endedAt : Nat) {uncertainTasks : Dictionary Unit}
    (others : ∀ k, k ≠ key → uncertainTasks.get? k = w.state.uncertainTasks.get? k)
    (marked : (uncertainTasks.get? key).isSome → status = .unknown) :
    Ensures (settleTask key task status endedAt uncertainTasks) w
      fun _ w' => Steps ids w w' := by
  unfold settleTask
  simp only [ensures_bind, ensures_changeState, ensures_emit]
  exact .single (.settleTask w key task known status endedAt settled unsettled uncertainTasks
    others marked)

theorem TaskEnd.status_ne (status : TaskEnd) : status.status ≠ .running := by
  cases status <;> simp [TaskEnd.status]

theorem endBackground_keeps (ctx : ApplyContext) (key : Key) {status : TaskEnd} {uncertain : Bool}
    (honest : uncertain = true → status = .unknown) :
    Keeps (Evolves ids) (endBackground ctx key status uncertain) := by
  refine keeps_of_steps fun w _ => ?_
  unfold endBackground
  simp only [ensures_bind, ensures_getState]
  split
  next => simpa using Relation.ReflTransGen.refl
  next task known =>
    split
    next => simpa using Relation.ReflTransGen.refl
    next ends =>
      have unsettled : task.status = .running ∨ task.status = .unknown := by
        by_contra neither
        simp only [not_or] at neither
        exact ends ⟨neither.1, fun uncertain => neither.2 uncertain.1, fun lost => neither.2 lost.1⟩
      refine settleTask_spec ids known status.status_ne unsettled _ ?_ ?_
      · intro k ne
        rw [refreshed_mark, if_neg ne]
      · rw [refreshed_mark, if_pos rfl]
        cases uncertain with
        | false => simp
        | true =>
          intro _
          rw [honest rfl]
          rfl

/-! ### Cleanup -/

theorem cancelInteraction_keeps (agentId : String) (now : Nat) (resolving : Option (List String))
    (key : Key) : Keeps (Evolves ids) (cancelInteraction agentId now resolving key) := by
  refine keeps_of_steps fun w _ => ?_
  unfold cancelInteraction
  simp only [ensures_bind, ensures_getState]
  split
  next => simp
  next interaction known =>
    split
    next => simpa using Relation.ReflTransGen.refl
    next waits =>
      split
      next => simpa using Relation.ReflTransGen.refl
      next =>
        simp only [not_or, not_not] at waits
        exact endInteraction_spec ids known waits.2.2 (by decide) _ _ _ _

theorem cancelOpenWork_keeps (ids : IdSource) (agentId : String) (now : Nat)
    (resolving : Option (List String)) :
    Keeps (Evolves ids) (cancelOpenWork agentId now resolving) := by
  unfold cancelOpenWork
  refine Keeps.bind (keeps_getState _) fun state => ?_
  refine Keeps.bind (Keeps.forM fun key _ => ?_) fun _ => ?_
  · refine Keeps.bind (keeps_getState _) fun state => ?_
    split
    · exact keeps_throw _
    · exact Keeps.when fun _ => Keeps.evolves (cancelTool_keeps key now)
  refine Keeps.bind (keeps_getState _) fun state => ?_
  refine Keeps.bind (Keeps.forM fun key _ => Keeps.evolves (closeText_keeps key)) fun _ => ?_
  refine Keeps.bind (keeps_getState _) fun state => ?_
  exact Keeps.forM fun key _ => cancelInteraction_keeps agentId now resolving key

/-- Cleanup closes items and interactions; agents and runs stay. -/
def SameAgents (w w' : Work) : Prop :=
  w'.state.agents = w.state.agents ∧ w'.state.runs = w.state.runs

instance : Std.Refl SameAgents := ⟨fun _ => ⟨rfl, rfl⟩⟩

instance : IsTrans Work SameAgents :=
  ⟨fun _ _ _ first second => ⟨second.1.trans first.1, second.2.trans first.2⟩⟩

theorem refreshItemIndex_sameAgents (s : ThreadState) (key : Key) :
    (refreshItemIndex s key).agents = s.agents ∧ (refreshItemIndex s key).runs = s.runs := by
  unfold refreshItemIndex
  simp only
  split <;> exact ⟨rfl, rfl⟩

theorem storeItem_sameAgents (key : Key) (item : Value) : Keeps SameAgents (storeItem key item) := by
  intro w
  unfold storeItem
  simp only [ensures_bind, ensures_getState, ensures_changeState, ensures_emit]
  exact refreshItemIndex_sameAgents ..

theorem cancelTool_sameAgents (key : Key) (now : Nat) : Keeps SameAgents (cancelTool key now) := by
  unfold cancelTool
  refine Keeps.bind (keeps_getState _) fun state => ?_
  split
  · split
    · exact storeItem_sameAgents key _
    · exact keeps_pure _
  · exact keeps_pure _

theorem closeText_sameAgents (key : Key) : Keeps SameAgents (closeText key) := by
  unfold closeText
  refine Keeps.bind (keeps_getState _) fun state => ?_
  split
  · intro w
    rw [ensures_changeState]
    exact refreshItemIndex_sameAgents ..
  · exact storeItem_sameAgents key _

theorem cancelInteraction_sameAgents (agentId : String) (now : Nat)
    (resolving : Option (List String)) (key : Key) :
    Keeps SameAgents (cancelInteraction agentId now resolving key) := by
  unfold cancelInteraction
  refine Keeps.bind (keeps_getState _) fun state => ?_
  split
  · exact keeps_throw _
  · split
    · exact keeps_pure _
    · split
      · exact keeps_pure _
      · intro w
        simp only [endInteraction, ensures_bind, ensures_changeState, ensures_emit]
        exact ⟨rfl, rfl⟩

theorem cancelOpenWork_sameAgents (agentId : String) (now : Nat)
    (resolving : Option (List String)) :
    Keeps SameAgents (cancelOpenWork agentId now resolving) := by
  unfold cancelOpenWork
  refine Keeps.bind (keeps_getState _) fun state => ?_
  refine Keeps.bind (Keeps.forM fun key _ => ?_) fun _ => ?_
  · refine Keeps.bind (keeps_getState _) fun state => ?_
    split
    · exact keeps_throw _
    · exact Keeps.when fun _ => cancelTool_sameAgents key now
  refine Keeps.bind (keeps_getState _) fun state => ?_
  refine Keeps.bind (Keeps.forM fun key _ => closeText_sameAgents key) fun _ => ?_
  refine Keeps.bind (keeps_getState _) fun state => ?_
  exact Keeps.forM fun key _ => cancelInteraction_sameAgents agentId now resolving key

/-! ### The end of a turn -/

theorem TurnOutcome.runState_ne (outcome : TurnOutcome) : outcome.runState ≠ .active := by
  cases outcome <;> simp [TurnOutcome.runState]

theorem RunSound.activeRunOf_eq (sound : RunSound ids w) {key : Key} {record : AgentRecord}
    (known : w.state.agents.get? key = some record) {run : Run}
    (active : activeRunOf w.state record = some run) :
    record.activeRun = some run.id ∧ w.state.runs.get? run.id = some run ∧ run.state = .active := by
  unfold activeRunOf at active
  rw [Option.bind_eq_some_iff] at active
  obtain ⟨id, named, stored⟩ := active
  have same := (sound.run id run stored).1
  subst same
  refine ⟨named, stored, ?_⟩
  obtain ⟨r, stored_r, _, is_active⟩ :=
    sound.active key record.runRow run.id (by simp [runRow, known]) named
  rw [stored] at stored_r
  cases stored_r
  exact is_active

theorem RunSound.idle_of_none (sound : RunSound ids w) {key : Key} {record : AgentRecord}
    (known : w.state.agents.get? key = some record) (none_ : activeRunOf w.state record = none) :
    record.activeRun = none := by
  cases named : record.activeRun with
  | none => rfl
  | some id =>
    obtain ⟨r, stored, _⟩ := sound.active key record.runRow id (by simp [runRow, known]) named
    simp [activeRunOf, named, stored] at none_

theorem RunSound.matchingRun_eq (sound : RunSound ids w) {key : Key} {record : AgentRecord}
    (known : w.state.agents.get? key = some record) {nativeId : String} {run : Run}
    (found : matchingRun w.state record nativeId = some run) :
    w.state.runs.get? run.id = some run ∧ run.agentId = record.agent.id ∧
      run.nativeId = some nativeId := by
  unfold matchingRun at found
  rw [Option.bind_eq_some_iff] at found
  obtain ⟨id, named, stored⟩ := found
  have same := (sound.run id run stored).1
  subst same
  obtain ⟨r, stored_r, owner, native⟩ :=
    sound.native key record.runRow nativeId run.id (by simp [runRow, known]) named
  rw [stored] at stored_r
  cases stored_r
  exact ⟨stored, owner, native⟩

theorem RunSound.unnamed_of_none (sound : RunSound ids w) {key : Key} {record : AgentRecord}
    (known : w.state.agents.get? key = some record) {nativeId : String}
    (none_ : matchingRun w.state record nativeId = none) :
    record.nativeRuns.get? nativeId = none := by
  cases named : record.nativeRuns.get? nativeId with
  | none => rfl
  | some id =>
    obtain ⟨r, stored, _⟩ :=
      sound.native key record.runRow nativeId id (by simp [runRow, known]) named
    simp [matchingRun, named, stored] at none_

theorem Sound.owns (sound : Sound ids w) {key : Key} {record : AgentRecord}
    (known : w.state.agents.get? key = some record) {run : Run}
    (stored : w.state.runs.get? run.id = some run) (owner : run.agentId = record.agent.id) :
    OwnsRun record.runRow run := by
  have known_row : runRow w.state key = some record.runRow := by simp [runRow, known]
  obtain ⟨k, row, known_k, owns⟩ := sound.runs.owner run.id run stored
  have same := sound.tree.runRow_key known_k known_row (owns.owner.symm.trans owner)
  subst same
  rw [known_row] at known_k
  cases known_k
  exact owns

theorem closeRun_settleTurn_spec (ctx : ApplyContext) (fact : TurnEndedFact)
    {record : AgentRecord} {run : Run} (sound : Sound ids w)
    (known : w.state.agents.get? fact.agent = some record)
    (active : record.activeRun = some run.id) (stored : w.state.runs.get? run.id = some run)
    (agentId : String) :
    Ensures (do closeRun ctx fact run; settleTurn ctx fact run agentId) w fun _ w' =>
      Steps ids w w' ∧ ∃ settled, w'.state.agents.get? fact.agent = some settled ∧
        settled.activeRun = none ∧ settled.agent = record.agent ∧
        settled.nativeRuns = record.nativeRuns := by
  unfold closeRun settleTurn
  simp only [ensures_bind, ensures_changeState, ensures_emit]
  have ended : Steps ids w _ := .single (.endRun w fact.agent record run
    (settledRecord fact run (w.state.outcomeOrder + 1)) known active stored fact.outcome.runState
    fact.endedBy fact.trigger ctx.now fact.outcome.runState_ne
    fun _ => ⟨rfl, rfl, rfl, rfl⟩)
  have settled := ended.tail (.tree (.passive _
    { (((w.change fun s => { s with
          runs := s.runs.put run.id
            (endedRun run fact.outcome.runState fact.endedBy fact.trigger ctx.now)
          agents := s.agents.modify fact.agent
            (settledRecord fact run (w.state.outcomeOrder + 1)) }).emit
        (.runEnded run.id fact.outcome.runState fact.endedBy fact.trigger ctx.now)).state) with
      outcomeOrder := w.state.outcomeOrder + 1 } (passive_bookkeeping ..)))
  have cleanup : ∀ resolving w₁, Ensures (cancelOpenWork agentId ctx.now resolving) w₁
      fun _ w' => Evolves ids w₁ w' ∧ SameAgents w₁ w' := fun resolving w₁ =>
    (cancelOpenWork_keeps ids agentId ctx.now resolving w₁).and
      (cancelOpenWork_sameAgents agentId ctx.now resolving w₁)
  refine Ensures.mono (cleanup _ _) ?_
  rintro _ w₁ ⟨cleaned, agents, _⟩
  refine ⟨settled.trans (cleaned (Steps.sound sound settled)),
    settledRecord fact run (w.state.outcomeOrder + 1) record, ?_, rfl, rfl, rfl⟩
  rw [agents]
  simp [known]

theorem storeRun_put (s : ThreadState) (key : Key) (run ended : Run) (same : ended.id = run.id)
    (native : ended.nativeId = run.nativeId) :
    { storeRun s key run with
      hasRun := true
      runs := (storeRun s key run).runs.put run.id ended } =
    { storeRun s key ended with hasRun := true } := by
  unfold storeRun
  rw [native, same]
  cases run.nativeId <;> simp [Dictionary.put_put]

/-- The run of an end boundary whose start was never seen. -/
def recoveredRun (ctx : ApplyContext) (fact : TurnEndedFact) (w : Work) (agentId : String) : Run where
  id := ctx.ids .run w.drawn
  threadId := w.state.threadId
  agentId
  trigger := fact.trigger.getD .unknown
  state := .active
  startedAt := ctx.now
  nativeId := fact.nativeTurnId

include fresh in
theorem lateRun_closeRun_spec (fact : TurnEndedFact) {record : AgentRecord}
    (sound : Sound ctx.ids w) (known : w.state.agents.get? fact.agent = some record)
    (unnamed : ∀ nativeId, fact.nativeTurnId = some nativeId →
      record.nativeRuns.get? nativeId = none) :
    Ensures (lateRun ctx fact record.agent.id >>= fun run => closeRun ctx fact run >>=
        fun _ => pure run) w fun run w' =>
      Steps ctx.ids w w' ∧ w.state.runs.get? run.id = none ∧
      ∃ later, w'.state.agents.get? fact.agent = some later ∧
        later.activeRun = record.activeRun := by
  unfold lateRun closeRun
  simp only [ensures_bind]
  apply ensures_nextId
  simp only [ensures_getState, ensures_changeState, ensures_emit, ensures_pure]
  have new : NewRun ctx.ids { w with drawn := w.drawn + 1 } record
      (recoveredRun ctx fact w record.agent.id) :=
    ⟨freshRun_next fresh sound, rfl, unnamed⟩
  have recorded : Steps ctx.ids w _ := (Relation.ReflTransGen.single (.tree (.draw w))).tail
    (.recordRun { w with drawn := w.drawn + 1 } fact.agent record
      (recoveredRun ctx fact w record.agent.id) known new fact.outcome.runState fact.endedBy
      fact.trigger ctx.now fact.outcome.runState_ne)
  refine ⟨?_, (freshRun_next fresh sound).2, ?_⟩
  · have same := storeRun_put w.state fact.agent (recoveredRun ctx fact w record.agent.id)
      (endedRun (recoveredRun ctx fact w record.agent.id) fact.outcome.runState fact.endedBy
        fact.trigger ctx.now) rfl rfl
    simp only [Work.change, ← same] at recorded
    simp only [Work.change, Work.emit, List.append_assoc]
    exact recorded
  · have row := runRow_storeRun w.state fact.agent (recoveredRun ctx fact w record.agent.id) known
      fact.agent
    rw [if_pos rfl] at row
    simp only [runRow, Option.map_eq_some_iff] at row
    obtain ⟨later, found, is_row⟩ := row
    exact ⟨later, found, congrArg RunRow.activeRun is_row⟩

theorem settleTurn_idle_spec (ctx : ApplyContext) (fact : TurnEndedFact) {record : AgentRecord}
    (run : Run) (sound : Sound ids w) (known : w.state.agents.get? fact.agent = some record)
    (idle : record.activeRun = none) (agentId : String) :
    Ensures (settleTurn ctx fact run agentId) w fun _ w' => Steps ids w w' := by
  unfold settleTurn
  simp only [ensures_bind, ensures_changeState]
  have ordered : Steps ids w _ := .single (.tree (.passive w
    { w.state with outcomeOrder := w.state.outcomeOrder + 1 } (passive_bookkeeping ..)))
  have soft : SoftChange fun r =>
      { settledRecord fact run (w.state.outcomeOrder + 1) r with activeRun := r.activeRun } :=
    ⟨fun _ => rfl, fun _ => rfl, fun _ => rfl, fun _ => rfl⟩
  have settled := ordered.tail (.tree (.touch _ fact.agent _ soft))
  have same : w.state.agents.modify fact.agent
      (fun r => { settledRecord fact run (w.state.outcomeOrder + 1) r with
        activeRun := r.activeRun }) =
      w.state.agents.modify fact.agent (settledRecord fact run (w.state.outcomeOrder + 1)) := by
    refine Dictionary.modify_congr known ?_
    simp [settledRecord, idle]
  simp only [Work.change, same] at settled
  refine Ensures.mono (cancelOpenWork_keeps ids agentId ctx.now _ _) ?_
  intro _ w₁ cleaned
  exact settled.trans (cleaned (Steps.sound sound settled))

theorem endTurnOf_active_spec (ctx : ApplyContext) (fact : TurnEndedFact) {record : AgentRecord}
    {run : Run} (sound : Sound ids w) (known : w.state.agents.get? fact.agent = some record)
    (active : activeRunOf w.state record = some run)
    (about : boundaryRun w.state record fact.nativeTurnId = some run) :
    Ensures (endTurnOf ctx fact record) w fun _ w' =>
      Steps ids w w' ∧ ∃ settled, w'.state.agents.get? fact.agent = some settled ∧
        settled.activeRun = none ∧ settled.agent = record.agent ∧
        settled.nativeRuns = record.nativeRuns := by
  obtain ⟨named, stored, is_active⟩ := sound.runs.activeRunOf_eq known active
  unfold endTurnOf
  simp only [ensures_bind, ensures_getState, about, active, Option.filter_some, is_active, ne_eq,
    not_true, decide_false, Bool.false_eq_true, if_false, Option.isNone_some, false_and, runToEnd,
    ensures_pure, Bool.and_false, Bool.false_and, Option.any_some, Bool.or_false]
  have closed := closeRun_settleTurn_spec ctx fact sound known named stored record.agent.id
  simpa only [ensures_bind] using closed

theorem Sound.boundaryRun_active (sound : Sound ids w) {key : Key} {record : AgentRecord}
    (known : w.state.agents.get? key = some record) {nativeId : Option String} {run : Run}
    (found : boundaryRun w.state record nativeId = some run) (active : run.state = .active) :
    activeRunOf w.state record = some run := by
  cases nativeId with
  | none => exact found
  | some nativeId =>
    obtain ⟨stored, owner, _⟩ := sound.runs.matchingRun_eq known found
    have named := (sound.owns known stored owner).active active
    simp only [AgentRecord.runRow] at named
    simp [activeRunOf, named, stored]

theorem Sound.boundaryRun_ended (sound : Sound ids w) {key : Key} {record : AgentRecord}
    (known : w.state.agents.get? key = some record) {nativeId : Option String} {run : Run}
    (found : boundaryRun w.state record nativeId = some run) (ended : run.state ≠ .active) :
    w.state.runs.get? run.id = some run := by
  cases nativeId with
  | none => exact absurd (sound.runs.activeRunOf_eq known found).2.2 ended
  | some nativeId => exact (sound.runs.matchingRun_eq known found).1

theorem retriggerRun_spec (ids : IdSource) (sound : Sound ids w) {run : Run}
    (stored : w.state.runs.get? run.id = some run) (ended : run.state ≠ .active)
    (trigger : RunTrigger) (now : Nat) :
    Ensures (retriggerRun run trigger now) w fun _ w' => Steps ids w w' := by
  obtain ⟨endedAt, is_end⟩ :=
    Option.isSome_iff_exists.mp ((sound.runs.run run.id run stored).2.2 ended)
  unfold retriggerRun
  simp only [ensures_bind, ensures_changeState, ensures_emit]
  have step : Step ids w _ := .retrigger w run trigger endedAt stored ended is_end
  simpa [is_end] using Relation.ReflTransGen.single step

include fresh in
theorem endTurnOf_keeps (fact : TurnEndedFact) {record : AgentRecord} (sound : Sound ctx.ids w)
    (known : w.state.agents.get? fact.agent = some record) :
    Ensures (endTurnOf ctx fact record) w fun _ w' => Steps ctx.ids w w' := by
  cases found : boundaryRun w.state record fact.nativeTurnId with
  | some run =>
    by_cases active : run.state = .active
    · exact Ensures.mono (endTurnOf_active_spec ctx fact sound known
        (sound.boundaryRun_active known found active) found) fun _ _ ended => ended.1
    · unfold endTurnOf
      simp only [ensures_bind, ensures_getState, found, Option.filter_some, ne_eq, active,
        not_false_eq_true, decide_true, if_true]
      split
      · exact retriggerRun_spec ctx.ids sound (sound.boundaryRun_ended known found active) active _ _
      · simpa using Relation.ReflTransGen.refl
  | none =>
    unfold endTurnOf
    simp only [ensures_bind, ensures_getState, found, Option.filter_none, Option.isNone_none,
      true_and, Bool.and_true, runToEnd]
    split
    next => simpa using Relation.ReflTransGen.refl
    next =>
      simp only [ensures_bind]
      have unnamed : ∀ nativeId, fact.nativeTurnId = some nativeId →
          record.nativeRuns.get? nativeId = none := by
        intro nativeId native
        apply sound.runs.unnamed_of_none known
        simpa [boundaryRun, native] using found
      have late := lateRun_closeRun_spec fresh fact sound known unnamed
      simp only [ensures_bind, ensures_pure] at late
      refine Ensures.mono late ?_
      intro run w₁ closed
      refine Ensures.mono closed ?_
      rintro _ w₂ ⟨steps, new, later, known₂, same_active⟩
      split
      next => simpa using steps
      next current =>
        -- A new run is not the active one, so the agent has none.
        have idle : record.activeRun = none := by
          apply sound.runs.idle_of_none known
          cases active : activeRunOf w.state record with
          | none => rfl
          | some other =>
            obtain ⟨-, stored, -⟩ := sound.runs.activeRunOf_eq known active
            have ne : other.id ≠ run.id := by
              intro same
              rw [← same, stored] at new
              cases new
            simp [active, ne] at current
        refine Ensures.mono (settleTurn_idle_spec ctx fact run (Steps.sound sound steps) known₂
          (same_active.trans idle) record.agent.id) ?_
        intro _ w₃ settled
        exact steps.trans settled

include fresh in
theorem endTurn_keeps (fact : TurnEndedFact) : Keeps (Evolves ctx.ids) (endTurn ctx fact) := by
  refine keeps_of_steps fun w sound => ?_
  unfold endTurn
  simp only [ensures_bind]
  refine Ensures.mono (ensureAgent_spec fresh sound fact.agent) ?_
  intro record w₁ ensured
  refine Ensures.mono (endTurnOf_keeps fresh fact (ensured.sound sound) ensured.known) ?_
  intro _ w₂ ended
  exact (TreeSteps.steps ensured.steps).trans ended

/-! ### The start of a turn -/

def startedRun (ctx : ApplyContext) (fact : TurnStartedFact) (w : Work) (agentId : String) : Run where
  id := ctx.ids .run w.drawn
  threadId := w.state.threadId
  agentId
  trigger := fact.trigger
  provider := fact.permissionMode.map fun _ => w.state.config.provider.text
  permissionMode := fact.permissionMode
  state := .active
  startedAt := ctx.now
  nativeId := fact.nativeTurnId

theorem storeRun_modify (s : ThreadState) (key : Key) (run : Run)
    (f : AgentRecord → AgentRecord) :
    { storeRun s key run with
      hasRun := true
      agents := (storeRun s key run).agents.modify key f } =
    { s with
      runs := s.runs.put run.id run
      agents := s.agents.modify key fun r =>
        f { r with nativeRuns := withNative r.nativeRuns run }
      hasRun := true } := by
  unfold storeRun withNative
  cases run.nativeId with
  | none => rfl
  | some nativeId =>
    simp only [Dictionary.modify_modify]

include fresh in
theorem startTurn_keeps (fact : TurnStartedFact) :
    Keeps (Evolves ctx.ids) (startTurn ctx fact) := by
  refine keeps_of_steps fun w sound => ?_
  unfold startTurn
  simp only [ensures_bind]
  refine Ensures.mono (ensureAgent_spec fresh sound fact.agent) ?_
  intro record w₁ ensured
  have sound₁ := ensured.sound sound
  have first := TreeSteps.steps ensured.steps
  simp only [ensures_getState]
  split
  next => simpa using first
  next unmatched =>
    split
    next => simpa using first
    next =>
      simp only [ensures_bind]
      have unnamed : ∀ nativeId, fact.nativeTurnId = some nativeId →
          record.nativeRuns.get? nativeId = none := by
        intro nativeId native
        apply sound₁.runs.unnamed_of_none ensured.known
        simpa [native] using unmatched
      have announced : Ensures (when ((activeRunOf w₁.state record).isNone = true ∧
          record.lastRun.isSome = true) (announceAgentBranch fact.agent)) w₁ fun _ w' =>
          AgentSteps ctx.ids w₁ w' ∧ w'.state = w₁.state := by
        rw [ensures_when]
        exact ⟨fun _ => announceAgentBranch_spec ctx.ids fact.agent w₁, fun _ => ⟨.refl w₁, rfl⟩⟩
      refine Ensures.mono announced ?_
      rintro _ w₂ ⟨again, same⟩
      have second := first.trans (TreeSteps.steps again.steps)
      have sound₂ := again.sound sound₁
      have known₂ : w₂.state.agents.get? fact.agent = some record := by
        rw [same]
        exact ensured.known
      -- A turn that is still open ends before the new one starts.
      have closed : Ensures (whenSome (activeRunOf w₁.state record) fun active =>
          endTurn ctx { agent := fact.agent, outcome := .interrupted,
                        nativeTurnId := active.nativeId }) w₂ fun _ w' =>
          Steps ctx.ids w₂ w' ∧ ∃ settled, w'.state.agents.get? fact.agent = some settled ∧
            settled.activeRun = none ∧ settled.agent = record.agent ∧
            settled.nativeRuns = record.nativeRuns := by
        rw [ensures_whenSome, ← same]
        constructor
        · intro run active
          obtain ⟨named, stored, is_active⟩ := sound₂.runs.activeRunOf_eq known₂ active
          obtain ⟨owns, -⟩ := sound₂.runs.owns_active sound₂.tree known₂ named stored
          unfold endTurn
          simp only [ensures_bind]
          refine Ensures.mono (ensureAgent_cases ctx fact.agent w₂) ?_
          rintro record' w₃ (⟨known₃, rfl⟩ | ⟨unknown, -⟩)
          · have same_record : record' = record := Option.some.inj (known₃.symm.trans known₂)
            subst same_record
            refine endTurnOf_active_spec ctx _ sound₂ known₃ active ?_
            cases native : run.nativeId with
            | none => exact active
            | some nativeId =>
              have mapped := owns.native nativeId native
              simp only [AgentRecord.runRow] at mapped
              simp [boundaryRun, matchingRun, mapped, stored]
          · simp [known₂] at unknown
        · intro none_
          exact ⟨.refl, record, known₂, sound₂.runs.idle_of_none known₂ none_, rfl, rfl⟩
      refine Ensures.mono closed ?_
      rintro _ w₃ ⟨ended, settled, known₃, idle, same_agent, same_native⟩
      have third := second.trans ended
      have sound₃ := Steps.sound sound third
      apply ensures_nextId
      simp only [ensures_getState, ensures_changeState, ensures_changeRecord, ensures_emit]
      have new : NewRun ctx.ids { w₃ with drawn := w₃.drawn + 1 } settled
          (startedRun ctx fact w₃ record.agent.id) := by
        refine ⟨freshRun_next fresh sound₃, ?_, ?_⟩
        · rw [same_agent]
          rfl
        · intro nativeId native
          rw [same_native]
          exact unnamed nativeId native
      have started := (third.tail (.tree (.draw w₃))).tail
        (.startRun { w₃ with drawn := w₃.drawn + 1 } fact.agent settled
          (startedRun ctx fact w₃ record.agent.id)
          (fun r => { r with
            nativeRuns := withNative r.nativeRuns (startedRun ctx fact w₃ record.agent.id)
            activeRun := some (ctx.ids .run w₃.drawn)
            processSettledStatus := none
            activity := .starting_turn
            detail := none
            wakeUntil := none
            retry := none })
          known₃ idle new rfl fun _ => ⟨rfl, rfl, rfl, rfl⟩)
      have stored := storeRun_modify w₃.state fact.agent (startedRun ctx fact w₃ record.agent.id)
        fun r => { r with
          activeRun := some (ctx.ids .run w₃.drawn)
          processSettledStatus := none
          activity := .starting_turn
          detail := none
          wakeUntil := none
          retry := none }
      simp only [Work.change] at started ⊢
      rw [← stored] at started
      exact started

/-! ### The end of the process -/

theorem expireInteraction_keeps (now : Nat) (key : Key) :
    Keeps (Evolves ids) (expireInteraction now key) := by
  refine keeps_of_steps fun w _ => ?_
  unfold expireInteraction
  simp only [ensures_bind, ensures_getState]
  split
  next => simp
  next interaction known =>
    split
    next => simpa using Relation.ReflTransGen.refl
    next pending =>
      exact endInteraction_spec ids known (by simpa using pending) (by decide) _ _ _ _

theorem loseTask_keeps (now : Nat) (key : Key) : Keeps (Evolves ids) (loseTask now key) := by
  refine keeps_of_steps fun w _ => ?_
  unfold loseTask
  simp only [ensures_bind, ensures_getState]
  split
  next => simp
  next task known =>
    split
    next => simpa using Relation.ReflTransGen.refl
    next runs =>
      have running : task.status = .running := by
        by_contra other
        exact runs (.inl other)
      exact settleTask_spec ids known (by decide) (.inl running) now (fun _ _ => rfl) fun _ => rfl

theorem exitRun_spec (ids : IdSource) (deliberate : Bool) (message : Option String) (now : Nat)
    {key : Key} {record : AgentRecord} {run : Run}
    (known : w.state.agents.get? key = some record) (active : record.activeRun = some run.id)
    (stored : w.state.runs.get? run.id = some run) :
    Ensures (exitRun deliberate message now key run) w fun _ w' => Steps ids w w' := by
  unfold exitRun
  simp only [ensures_bind, ensures_changeState, ensures_emit]
  have settled : (if deliberate then RunState.interrupted else .failed) ≠ .active := by
    split <;> decide
  have ordered : Steps ids w _ := .single (.tree (.passive w
    { w.state with outcomeOrder := w.state.outcomeOrder + 1 } (passive_bookkeeping ..)))
  exact ordered.tail (.endRun { w with state := { w.state with
      outcomeOrder := w.state.outcomeOrder + 1 } } key record run _ known active stored _ none none
    now settled fun _ => ⟨rfl, rfl, rfl, rfl⟩)

theorem exitAgent_keeps (deliberate : Bool) (message : Option String) (now : Nat) (key : Key) :
    Keeps (Evolves ids) (exitAgent deliberate message now key) := by
  refine keeps_of_steps fun w sound => ?_
  unfold exitAgent
  simp only [ensures_bind, ensures_getState]
  split
  next => simpa using Relation.ReflTransGen.refl
  next record known =>
    split
    next => simpa using Relation.ReflTransGen.refl
    next =>
      simp only [ensures_bind, ensures_changeRecord]
      have soft : SoftChange fun record : AgentRecord =>
          { record with disconnectedAt := none, retry := none, wakeUntil := none } :=
        ⟨fun _ => rfl, fun _ => rfl, fun _ => rfl, fun _ => rfl⟩
      have first : Steps ids w _ := .single (.tree (.touch w key _ soft))
      have sound₁ := Steps.sound sound first
      split
      next idle =>
        split
        · rw [ensures_changeState]
          have settles : SoftChange fun record : AgentRecord => { record with
              processSettledStatus := some (exitStatus deliberate message)
              lastOutcomeOrder := some (w.state.outcomeOrder + 1) } :=
            ⟨fun _ => rfl, fun _ => rfl, fun _ => rfl, fun _ => rfl⟩
          have ordered := first.tail (.tree (.passive _
            { (w.change fun s => { s with agents := s.agents.modify key fun record =>
                { record with disconnectedAt := none, retry := none, wakeUntil := none } }).state
              with outcomeOrder := w.state.outcomeOrder + 1 } (passive_bookkeeping ..)))
          exact ordered.tail (.tree (.touch _ key _ settles))
        · simpa using first
      next runId named =>
        simp only [ensures_bind, ensures_getState]
        have known₁ : (w.change fun s => { s with agents := s.agents.modify key fun record =>
            { record with disconnectedAt := none, retry := none, wakeUntil := none } }
            ).state.agents.get? key = some
            { record with disconnectedAt := none, retry := none, wakeUntil := none } := by
          simp [known]
        split
        next run stored =>
          have same := (sound₁.runs.run runId run stored).1
          subst same
          refine Ensures.mono (exitRun_spec ids deliberate message now known₁ named stored) ?_
          intro _ w₂ ended
          exact first.trans ended
        next missing =>
          -- A sound record names a stored run.
          obtain ⟨run, stored, _⟩ :=
            sound₁.runs.active key _ runId (by simp only [runRow, known₁]; rfl) named
          rw [missing] at stored
          cases stored

theorem exitProcess_keeps (ctx : ApplyContext) (deliberate : Bool) (message : Option String) :
    Keeps (Evolves ids) (exitProcess ctx deliberate message) := by
  unfold exitProcess
  refine Keeps.bind (keeps_getState _) fun state => ?_
  split
  · exact keeps_pure _
  · refine Keeps.bind (Keeps.evolves (keeps_passive fun s => passive_bookkeeping ..)) fun _ => ?_
    refine Keeps.bind (keeps_getState _) fun state => ?_
    refine Keeps.bind (Keeps.forM fun key _ => expireInteraction_keeps ctx.now key) fun _ => ?_
    refine Keeps.bind (keeps_getState _) fun state => ?_
    refine Keeps.bind (Keeps.forM fun key _ => loseTask_keeps ctx.now key) fun _ => ?_
    refine Keeps.bind (keeps_getState _) fun state => ?_
    refine Keeps.bind (Keeps.forM fun key _ => Keeps.evolves (cancelTool_keeps key ctx.now))
      fun _ => ?_
    refine Keeps.bind (keeps_getState _) fun state => ?_
    refine Keeps.bind (Keeps.forM fun key _ => Keeps.evolves (closeText_keeps key)) fun _ => ?_
    refine Keeps.bind (keeps_getState _) fun state => ?_
    exact Keeps.forM fun key _ => exitAgent_keeps deliberate message ctx.now key

end

end Ace
