import Ace.Properties.FoldCommands

/-!
# Reachable states

A state is reachable when calls of `apply` that return lead to it from a new thread. Every
reachable state is sound, so the invariants of the tree, the indexes and the runs hold in
it, whatever the inputs were and in whatever order they came.
-/

namespace Ace

open Script Script.Command

/-- Calls of `apply` that return, with the events they emitted. -/
inductive Calls (ids : IdSource) (w : Work) : List EventPayload → Work → Prop where
  | none : Calls ids w [] w
  | apply {log : List EventPayload} {w' w'' : Work} (before : Calls ids w log w')
      (ctx : ApplyContext) (same : ctx.ids = ids) (input : Value)
      (returned : apply ctx input w' = .ok w'') : Calls ids w (log ++ w''.events) w''

def newThread (threadId : String) (rootAgent : Option RootAgentInit) (config : CoreConfig) :
    Work :=
  { state := createThreadState threadId rootAgent config }

def Reachable (ids : IdSource) (w : Work) : Prop :=
  ∃ threadId rootAgent config log, Calls ids (newThread threadId rootAgent config) log w

/-! ### Runs over given inputs -/

/-- `apply` over inputs, each with its time. -/
def applyAll (ids : IdSource) : List (Nat × Value) → Work → Except Fault Work
  | [], w => .ok w
  | (now, input) :: inputs, w =>
    match apply { now, ids } input w with
    | .ok w => applyAll ids inputs w
    | .error fault => .error fault

theorem Calls.trans {ids : IdSource} {w w' w'' : Work} {log log' : List EventPayload}
    (first : Calls ids w log w') (second : Calls ids w' log' w'') :
    Calls ids w (log ++ log') w'' := by
  induction second with
  | none => simpa using first
  | apply before ctx same input returned ih =>
    rw [← List.append_assoc]
    exact .apply ih ctx same input returned

theorem calls_of_applyAll {ids : IdSource} {inputs : List (Nat × Value)} {w w' : Work}
    (returned : applyAll ids inputs w = .ok w') : ∃ log, Calls ids w log w' := by
  induction inputs generalizing w with
  | nil =>
    cases returned
    exact ⟨[], .none⟩
  | cons input inputs ih =>
    unfold applyAll at returned
    split at returned
    next w₁ first =>
      obtain ⟨log, rest⟩ := ih returned
      exact ⟨_, (Calls.none.apply _ rfl _ first).trans rest⟩
    next => cases returned

/-- Whether `inputs` lead from `w` to a state with `check`. -/
def leadsTo (ids : IdSource) (inputs : List (Nat × Value)) (w : Work) (check : Work → Bool) :
    Bool :=
  match applyAll ids inputs w with
  | .ok w' => check w'
  | .error _ => false

theorem calls_of_leadsTo {ids : IdSource} {inputs : List (Nat × Value)} {w : Work}
    {check : Work → Bool} (leads : leadsTo ids inputs w check = true) :
    ∃ log w', Calls ids w log w' ∧ check w' = true := by
  unfold leadsTo at leads
  split at leads
  next w' returned =>
    obtain ⟨log, calls⟩ := calls_of_applyAll returned
    exact ⟨log, w', calls, leads⟩
  next => cases leads

theorem reachable_of_leadsTo {ids : IdSource} {inputs : List (Nat × Value)} {threadId : String}
    {rootAgent : Option RootAgentInit} {config : CoreConfig} {check : Work → Bool}
    (leads : leadsTo ids inputs (newThread threadId rootAgent config) check = true) :
    ∃ w, Reachable ids w ∧ check w = true := by
  obtain ⟨log, w, calls, checked⟩ := calls_of_leadsTo leads
  exact ⟨w, ⟨threadId, rootAgent, config, log, calls⟩, checked⟩

def sampleIds : IdSource := fun _ n => String.ofList (List.replicate (n + 1) 'x')

theorem freshIds_sampleIds : FreshIds sampleIds := by
  intro kind n m same
  have lengths := congrArg String.length same
  simpa [sampleIds] using lengths

def sampleConfig : CoreConfig where
  provider := .claude
  silenceMs := 60000
  silenceMs_nonneg := by norm_num

/-- An agent in a turn, with a tool, a child and a background task. -/
def sampleInputs : List (Nat × Value) := [
  (1, .obj [("type", .str "turn.started"), ("agent", .str "lead"),
    ("nativeTurnId", .str "turn"), ("trigger", .str "user")]),
  (2, .obj [("type", .str "item.upsert"), ("agent", .str "lead"), ("item", .str "tool"),
    ("draft", .obj [("type", .str "tool_call"), ("call", .obj [("kind", .str "shell"),
      ("title", .str "ls"), ("status", .str "running"),
      ("detail", .obj [("kind", .str "shell"), ("command", .str "ls")])])])]),
  (3, .obj [("type", .str "agent.linked"), ("agent", .str "helper"), ("parent", .str "lead")]),
  (4, .obj [("type", .str "background.started"), ("agent", .str "lead"), ("task", .str "task"),
    ("kind", .str "shell"), ("title", .str "serve"), ("stoppable", .bool true)])]

/-! ### Soundness along calls -/

section

variable {ids : IdSource} {w w' : Work}

theorem sound_newThread (ids : IdSource) (threadId : String) (rootAgent : Option RootAgentInit)
    (config : CoreConfig) : Sound ids (newThread threadId rootAgent config) where
  tree := by
    have no_parent : parentOf (newThread threadId rootAgent config).state = fun _ => none := rfl
    constructor
    case acyclic =>
      rw [no_parent]
      intro k p next
      cases next
    all_goals
      intros
      simp_all [newThread, createThreadState, agentRow, childKeys]
  rows := by
    refine ⟨?_, ⟨?_, ?_, ?_⟩, ⟨?_, ?_, ?_⟩, ?_, ?_, ?_⟩ <;> intros <;>
      simp_all [newThread, createThreadState]
  indexes := by
    constructor <;> intro key <;>
      simp [newThread, createThreadState, isLiveTask, Dictionary.contains]
  runs := by
    constructor <;> intros <;> simp_all [newThread, createThreadState, runRow]

theorem Sound.with_events (sound : Sound ids w) (events : List EventPayload) :
    Sound ids { w with events } where
  tree := sound.tree.of_same ⟨fun _ => rfl, rfl, rfl, rfl⟩ le_rfl
  rows := ⟨sound.rows.shape, sound.rows.items, sound.rows.interactions, sound.rows.tasks⟩
  indexes := sound.indexes
  runs := ⟨sound.runs.run, sound.runs.owner, sound.runs.active, sound.runs.native⟩

theorem Sound.without_events (sound : Sound ids w) : Sound ids { w with events := [] } :=
  sound.with_events []

theorem runFold_steps {command : Fold PUnit} (keeps : Keeps (Evolves ids) command)
    (sound : Sound ids w) (returned : runFold command w = .ok w') :
    Steps ids { w with events := [] } w' := by
  unfold runFold at returned
  cases ran : command { w with events := [] } with
  | error fault => simp [ran, Except.map] at returned
  | ok result =>
    obtain ⟨_, w₁⟩ := result
    simp only [ran, Except.map, Except.ok.injEq] at returned
    subst returned
    exact keeps _ _ _ ran sound.without_events

theorem apply_steps {ctx : ApplyContext} (fresh : FreshIds ctx.ids) (input : Value)
    (sound : Sound ctx.ids w) (returned : apply ctx input w = .ok w') :
    Steps ctx.ids { w with events := [] } w' :=
  runFold_steps (fold_keeps fresh input (Keeps.evolves (recomputeStatuses_keeps ctx.now))) sound
    returned

variable (fresh : FreshIds ids)

include fresh in
theorem Calls.keep {log : List EventPayload} (calls : Calls ids w log w') (sound : Sound ids w) :
    Sound ids w' ∧ RunsLater w.state w'.state := by
  induction calls with
  | none => exact ⟨sound, .refl _⟩
  | apply before ctx same input returned ih =>
    subst same
    obtain ⟨sound', later⟩ := ih
    have clean := sound'.without_events
    have steps := apply_steps fresh input sound' returned
    have next := Steps.runsLater clean steps
    exact ⟨Steps.sound clean steps, later.trans next⟩

include fresh in
theorem Reachable.sound (reachable : Reachable ids w) : Sound ids w := by
  obtain ⟨threadId, rootAgent, config, log, calls⟩ := reachable
  exact (calls.keep fresh (sound_newThread ids threadId rootAgent config)).1

/-! ### The tree -/

include fresh in
/-- **The agent tree.** The four representations of the tree agree, and it has no cycle. -/
theorem agent_tree_of_reachable (reachable : Reachable ids w) :
    Acyclic (parentOf w.state) ∧
    (∀ key record, w.state.agents.get? key = some record →
      (record.agent.parentId = none ↔ record.parentKey = none) ∧
      ∀ parentKey, record.parentKey = some parentKey →
        ∃ parent, w.state.agents.get? parentKey = some parent ∧
          record.agent.parentId = some parent.agent.id) ∧
    (∀ id key, w.state.indexes.agentKeysById.get? id = some key ↔
      ∃ record, w.state.agents.get? key = some record ∧ record.agent.id = id) ∧
    (∀ parentId key, key ∈ childKeys w.state parentId ↔
      ∃ record, w.state.agents.get? key = some record ∧
        record.agent.parentId = some parentId) := by
  have tree := (reachable.sound fresh).tree
  have row_iff : ∀ key (P : AgentRow → Prop),
      (∃ row, agentRow w.state key = some row ∧ P row) ↔
        ∃ record, w.state.agents.get? key = some record ∧ P record.row := by
    intro key P
    cases known : w.state.agents.get? key <;> simp [agentRow, known]
  refine ⟨tree.acyclic, ?_, ?_, ?_⟩
  · intro key record known
    have row : agentRow w.state key = some record.row := by simp [agentRow, known]
    have named := tree.parentId key record.row row
    have parent : ∀ parentKey, record.parentKey = some parentKey →
        ∃ parent, w.state.agents.get? parentKey = some parent ∧
          record.agent.parentId = some parent.agent.id := by
      intro parentKey is_parent
      have there := tree.parentKnown key parentKey (by simp [parentOf, known, is_parent])
      cases found : w.state.agents.get? parentKey with
      | none => simp [agentRow, found] at there
      | some parent =>
        refine ⟨parent, rfl, ?_⟩
        simpa [AgentRecord.row, is_parent, agentIdOf, found] using named
    refine ⟨⟨?_, ?_⟩, parent⟩
    · intro no_id
      cases is_parent : record.parentKey with
      | none => rfl
      | some parentKey =>
        obtain ⟨_, _, some_id⟩ := parent parentKey is_parent
        simp [no_id] at some_id
    · intro no_key
      simpa [AgentRecord.row, no_key] using named
  · intro id key
    rw [tree.keysById, row_iff key (·.id = id)]
    rfl
  · intro parentId key
    rw [tree.children, row_iff key (·.parentId = some parentId)]
    rfl

theorem agent_tree_of_sample :
    ∃ w, Reachable sampleIds w ∧ w.state.agents.keys = ["lead", "helper"] ∧
      Acyclic (parentOf w.state) := by
  obtain ⟨w, reachable, keys⟩ := reachable_of_leadsTo
    (show leadsTo sampleIds sampleInputs (newThread "thread" none sampleConfig)
      (fun w => decide (w.state.agents.keys = ["lead", "helper"])) = true by decide +kernel)
  exact ⟨w, reachable, of_decide_eq_true keys,
    (agent_tree_of_reachable freshIds_sampleIds reachable).1⟩

/-! ### Live work -/

include fresh in
/-- **Live-work indexes.** Each index has exactly the keys of its live rows. -/
theorem live_indexes_of_reachable (reachable : Reachable ids w) :
    (∀ key, w.state.indexes.liveTools.contains key = true ↔
      ∃ item, w.state.items.get? key = some item ∧ item.field "type" = .str "tool_call" ∧
        ((item.field "call").field "status" = .str "running" ∨
          (item.field "call").field "status" = .str "pending" ∨
          (item.field "call").field "status" = .str "awaiting_approval")) ∧
    (∀ key, w.state.indexes.openText.contains key = true ↔
      ∃ item, w.state.items.get? key = some item ∧ item.field "complete" ≠ .bool true ∧
        (item.field "type" = .str "reasoning" ∨ item.field "type" = .str "compaction" ∨
          (item.field "type" = .str "message" ∧ item.field "role" = .str "assistant"))) ∧
    (∀ key, w.state.indexes.pendingInteractions.contains key = true ↔
      ∃ interaction, w.state.interactions.get? key = some interaction ∧
        interaction.state = .pending) ∧
    (∀ key, w.state.indexes.runningTasks.contains key = true ↔
      ∃ task, w.state.tasks.get? key = some task ∧
        (task.status = .running ∨
          (task.status = .unknown ∧ w.state.uncertainTasks.contains key = true))) ∧
    (∀ key, w.state.uncertainTasks.contains key = true →
      ∃ task, w.state.tasks.get? key = some task ∧ task.status = .unknown) := by
  have indexes := (reachable.sound fresh).indexes
  refine ⟨fun key => ?_, fun key => ?_, fun key => ?_, fun key => ?_, indexes.uncertain⟩
  · rw [Dictionary.contains, indexes.liveTools key]
    cases w.state.items.get? key <;>
      simp [Item.isLiveTool, Item.isToolCall, Item.hasType, Item.isLiveStatus, Item.callStatus,
        Item.call, or_assoc]
  · rw [Dictionary.contains, indexes.openText key]
    cases w.state.items.get? key <;>
      simp [isOpenText, Item.complete, Item.hasType, Item.isAssistant, or_assoc]
  · rw [Dictionary.contains, indexes.pendingInteractions key]
    cases w.state.interactions.get? key <;> simp
  · rw [Dictionary.contains, indexes.runningTasks key]
    cases known : w.state.tasks.get? key <;> simp [isLiveTask, known]

theorem live_indexes_of_sample :
    ∃ w, Reachable sampleIds w ∧ w.state.indexes.liveTools.contains "tool" = true ∧
      ∃ item, w.state.items.get? "tool" = some item ∧
        item.field "type" = .str "tool_call" := by
  obtain ⟨w, reachable, marked⟩ := reachable_of_leadsTo
    (show leadsTo sampleIds sampleInputs (newThread "thread" none sampleConfig)
      (fun w => w.state.indexes.liveTools.contains "tool") = true by decide +kernel)
  obtain ⟨item, stored, type, _⟩ :=
    ((live_indexes_of_reachable freshIds_sampleIds reachable).1 "tool").mp marked
  exact ⟨w, reachable, marked, item, stored, type⟩

/-! ### Replayed turns -/

theorem TreeSteps.runs_eq (steps : TreeSteps ids w w') : w'.state.runs = w.state.runs := by
  induction steps with
  | refl => rfl
  | tail _ step ih =>
    rcases step.runs with same | adds
    · exact same.runs.trans ih
    · exact adds.runs.trans ih

def SameRunIds (s s' : ThreadState) : Prop := ∀ id, s'.runs.contains id = s.runs.contains id

theorem SameRunIds.of_eq {s s' : ThreadState} (same : s'.runs = s.runs) : SameRunIds s s' :=
  fun id => by rw [same]

theorem SameRunIds.trans {s s' s'' : ThreadState} (h : SameRunIds s s') (h' : SameRunIds s' s'') :
    SameRunIds s s'' := fun id => (h' id).trans (h id)

theorem sameRunIds_put {s s' : ThreadState} {id : String} {old run : Run}
    (stored : s.runs.get? id = some old) (runs : s'.runs = s.runs.put id run) :
    SameRunIds s s' := by
  intro other
  simp only [Dictionary.contains, runs, Dictionary.get?_put]
  split
  next same =>
    subst same
    simp [stored]
  next => rfl

/-- The record of an agent whose native turn `nativeId` is known. -/
structure KnownTurn (w : Work) (key : Key) (nativeId : String) (record : AgentRecord)
    (run : Run) : Prop where
  known : w.state.agents.get? key = some record
  named : matchingRun w.state record nativeId = some run

theorem Sound.knownTurn (sound : Sound ids w) {key : Key} {record : AgentRecord}
    {nativeId id : String} (known : w.state.agents.get? key = some record)
    (named : record.nativeRuns.get? nativeId = some id) : ∃ run, KnownTurn w key nativeId record run := by
  obtain ⟨run, stored, _⟩ :=
    sound.runs.native key record.runRow nativeId id (by simp [runRow, known]) named
  exact ⟨run, known, by simp [matchingRun, named, stored]⟩

theorem startTurn_replay (ctx : ApplyContext) {fact : TurnStartedFact} {nativeId : String}
    {record : AgentRecord} {run : Run} (native : fact.nativeTurnId = some nativeId)
    (turn : KnownTurn w fact.agent nativeId record run) :
    Ensures (startTurn ctx fact) w fun _ w' => w' = w := by
  unfold startTurn
  simp only [ensures_bind]
  refine Ensures.mono (ensureAgent_cases ctx fact.agent w) ?_
  rintro record' w₁ (⟨known, rfl⟩ | ⟨unknown, -⟩)
  · have same : record' = record := Option.some.inj (known.symm.trans turn.known)
    subst same
    simp [native, turn.named]
  · simp [turn.known] at unknown

theorem endTurn_replay (ctx : ApplyContext) {fact : TurnEndedFact} {nativeId : String}
    {record : AgentRecord} {run : Run} (sound : Sound ids w)
    (native : fact.nativeTurnId = some nativeId)
    (turn : KnownTurn w fact.agent nativeId record run) :
    Ensures (endTurn ctx fact) w fun _ w' => SameRunIds w.state w'.state := by
  unfold endTurn
  simp only [ensures_bind]
  refine Ensures.mono (ensureAgent_cases ctx fact.agent w) ?_
  rintro record' w₁ (⟨known, rfl⟩ | ⟨unknown, -⟩)
  · have same : record' = record := Option.some.inj (known.symm.trans turn.known)
    subst same
    obtain ⟨stored, -, -⟩ := sound.runs.matchingRun_eq known turn.named
    have about : boundaryRun w₁.state record' fact.nativeTurnId = some run := by
      rw [native]
      exact turn.named
    unfold endTurnOf
    simp only [ensures_bind, ensures_getState, about]
    split
    next ended found =>
      obtain ⟨is_run, -⟩ := Option.filter_eq_some_iff.mp found
      cases is_run
      split
      · simp only [retriggerRun, ensures_bind, ensures_changeState, ensures_emit]
        exact sameRunIds_put stored rfl
      · simpa using SameRunIds.of_eq rfl
    next =>
      simp only [Option.isNone_some, Bool.false_eq_true, false_and, if_false, runToEnd, closeRun,
        ensures_bind, ensures_pure, ensures_changeState, ensures_emit]
      -- Closing the run writes it where it is; cleanup writes no run.
      split
      · rw [ensures_pure]
        exact sameRunIds_put stored rfl
      · simp only [settleTurn, ensures_bind, ensures_changeState]
        refine Ensures.mono (cancelOpenWork_sameAgents _ _ _ _) ?_
        intro _ w₂ same
        exact (sameRunIds_put stored rfl).trans (.of_eq same.2)
  · simp [turn.known] at unknown

/-- What every fact does before it is carried out. -/
def beforeFact (ctx : ApplyContext) (fact : Fact) : Fold PUnit := do
  ensureInitialRoot ctx
  when fact.movesTransport <| changeState fun state =>
    { state with lastTransportSignalAt := some ctx.now }
  signal ctx fact

theorem foldFact_eq (ctx : ApplyContext) {fact : Fact} (finish : Fold PUnit)
    (plain : (∃ turn, fact = .turnStarted turn) ∨ ∃ turn, fact = .turnEnded turn) :
    foldFact ctx fact finish =
      beforeFact ctx fact >>= fun _ => carryOut ctx fact >>= fun _ => finishFact ctx finish := by
  unfold beforeFact
  simp only [bind_assoc]
  rcases plain with ⟨turn, rfl⟩ | ⟨turn, rfl⟩ <;> rfl

theorem beforeFact_keeps {ctx : ApplyContext} (fresh : FreshIds ctx.ids) (fact : Fact) :
    Keeps (TreeEvolves ctx.ids) (beforeFact ctx fact) := by
  unfold beforeFact
  refine Keeps.bind (ensureInitialRoot_keeps fresh) fun _ => ?_
  refine Keeps.bind (Keeps.when fun _ => keeps_passive fun _ => passive_bookkeeping ..) fun _ => ?_
  exact signal_keeps fresh fact

theorem foldFact_replay {ctx : ApplyContext} (fresh : FreshIds ctx.ids) (sound : Sound ctx.ids w)
    {fact : Fact} {key : Key} {record : AgentRecord} {nativeId id : String}
    (plain : (∃ turn, fact = .turnStarted turn ∧ turn.agent = key ∧
        turn.nativeTurnId = some nativeId) ∨
      ∃ turn, fact = .turnEnded turn ∧ turn.agent = key ∧ turn.nativeTurnId = some nativeId)
    (known : w.state.agents.get? key = some record)
    (named : record.nativeRuns.get? nativeId = some id) :
    Ensures (foldFact ctx fact (recomputeStatuses ctx.now)) w fun _ w' =>
      SameRunIds w.state w'.state := by
  have turns : (∃ turn, fact = .turnStarted turn) ∨ ∃ turn, fact = .turnEnded turn := by
    rcases plain with ⟨turn, is_turn, -⟩ | ⟨turn, is_turn, -⟩
    · exact .inl ⟨turn, is_turn⟩
    · exact .inr ⟨turn, is_turn⟩
  rw [foldFact_eq ctx _ turns]
  simp only [ensures_bind]
  refine Ensures.mono (beforeFact_keeps fresh fact w) ?_
  intro _ w₁ evolves
  have first := evolves sound
  have sound₁ := Steps.sound sound (TreeSteps.steps first)
  -- The turn is still known when the fact is carried out.
  obtain ⟨record₁, known₁, named₁⟩ := (Steps.runsLater sound (TreeSteps.steps first)).native
    key record nativeId id known named
  obtain ⟨run, turn_known⟩ := sound₁.knownTurn known₁ named₁
  have carried : Ensures (carryOut ctx fact) w₁ fun _ w₂ => SameRunIds w₁.state w₂.state := by
    rcases plain with ⟨turn, rfl, rfl, native⟩ | ⟨turn, rfl, rfl, native⟩
    · refine Ensures.mono (startTurn_replay ctx native turn_known) ?_
      rintro _ w₂ rfl
      exact .of_eq rfl
    · exact endTurn_replay ctx sound₁ native turn_known
  have honest : fact.Honest := by
    rcases turns with ⟨turn, rfl⟩ | ⟨turn, rfl⟩ <;> trivial
  refine Ensures.mono (carried.and (carryOut_keeps fresh honest w₁)) ?_
  rintro _ w₂ ⟨same, evolves₂⟩
  have sound₂ := Steps.sound sound₁ (evolves₂ sound₁)
  have finishes : Keeps (TreeEvolves ctx.ids) (finishFact ctx (recomputeStatuses ctx.now)) := by
    unfold finishFact
    refine Keeps.bind (flushNotices_keeps fresh) fun _ => ?_
    exact Keeps.bind (reconcileLinks_keeps fresh) fun _ => recomputeStatuses_keeps ctx.now
  refine Ensures.mono (finishes w₂) ?_
  intro _ w₃ evolves₃
  exact ((SameRunIds.of_eq (TreeSteps.runs_eq first)).trans same).trans
    (.of_eq (TreeSteps.runs_eq (evolves₃ sound₂)))

/-- `input` is a boundary of the native turn `nativeId` of the agent `key`. -/
structure IsBoundary (input : Value) (key : Key) (nativeId : String) : Prop where
  type : input.field "type" = .str "turn.started" ∨ input.field "type" = .str "turn.ended"
  agent : input.field "agent" = .str key
  nativeTurnId : input.field "nativeTurnId" = .str nativeId

theorem apply_replay {ctx : ApplyContext} (fresh : FreshIds ctx.ids) (sound : Sound ctx.ids w)
    {input : Value} {key : Key} {record : AgentRecord} {nativeId id : String}
    (boundary : IsBoundary input key nativeId)
    (known : w.state.agents.get? key = some record)
    (named : record.nativeRuns.get? nativeId = some id)
    (returned : apply ctx input w = .ok w') : SameRunIds w.state w'.state := by
  have clean := sound.without_events
  have folded : Ensures (fold ctx input (recomputeStatuses ctx.now)) { w with events := [] }
      fun _ w' => SameRunIds w.state w'.state := by
    unfold fold
    simp only [ensures_bind, ensures_refuse, ensures_getState]
    intro _
    split
    next reason _ =>
      refine Ensures.mono (rejectFact_keeps fresh input reason _) ?_
      intro _ w₁ evolves
      have same := TreeSteps.runs_eq (evolves clean)
      exact .of_eq same
    next fact ok =>
      obtain ⟨type, fields, accepted, rfl⟩ := validateFact_ok ok
      refine foldFact_replay fresh clean ?_ known named
      have native : (input.field "nativeTurnId").string? = some nativeId := by
        rw [boundary.nativeTurnId]
        rfl
      have agent : Decode.text (input.field "agent") = key := by
        rw [boundary.agent]
        rfl
      rcases boundary.type with is_type | is_type
      · obtain rfl : type = "turn.started" := Value.str.inj (accepted.named.symm.trans is_type)
        exact .inl ⟨_, rfl, agent, native⟩
      · obtain rfl : type = "turn.ended" := Value.str.inj (accepted.named.symm.trans is_type)
        exact .inr ⟨_, rfl, agent, native⟩
  unfold apply runFold at returned
  cases ran : fold ctx input (recomputeStatuses ctx.now) { w with events := [] } with
  | error fault => simp [ran, Except.map] at returned
  | ok result =>
    obtain ⟨_, w₁⟩ := result
    simp only [ran, Except.map, Except.ok.injEq] at returned
    subst returned
    exact folded _ _ ran

include fresh in
/-- **The run lifecycle.** A run is active exactly while its owner names it, an ended run stays
as it ended, and a native turn has one run: replaying its boundaries adds none. -/
theorem run_lifecycle_of_reachable (reachable : Reachable ids w) :
    (∀ id run, w.state.runs.get? id = some run → (run.state = .active ↔
      ∃ key record, w.state.agents.get? key = some record ∧ record.agent.id = run.agentId ∧
        record.activeRun = some id)) ∧
    (∀ key record id, w.state.agents.get? key = some record → record.activeRun = some id →
      ∃ run, w.state.runs.get? id = some run ∧ run.state = .active ∧
        run.agentId = record.agent.id) ∧
    (∀ id id' run run', w.state.runs.get? id = some run → w.state.runs.get? id' = some run' →
      run.state = .active → run'.state = .active → run.agentId = run'.agentId → id = id') ∧
    (∀ key record nativeId id, w.state.agents.get? key = some record →
      record.nativeRuns.get? nativeId = some id →
      ∃ run, w.state.runs.get? id = some run ∧ run.agentId = record.agent.id ∧
        run.nativeId = some nativeId) ∧
    (∀ log w', Calls ids w log w' →
      (∀ id run, w.state.runs.get? id = some run → run.state ≠ .active →
        ∃ run', w'.state.runs.get? id = some run' ∧ run'.state = run.state ∧
          run'.endedAt = run.endedAt) ∧
      ∀ key record nativeId id, w.state.agents.get? key = some record →
        record.nativeRuns.get? nativeId = some id →
        ∃ record', w'.state.agents.get? key = some record' ∧
          record'.nativeRuns.get? nativeId = some id) ∧
    (∀ ctx input w' key record nativeId id, ctx.ids = ids → IsBoundary input key nativeId →
      w.state.agents.get? key = some record → record.nativeRuns.get? nativeId = some id →
      apply ctx input w = .ok w' →
      ∀ run, w'.state.runs.contains run = w.state.runs.contains run) := by
  have sound := reachable.sound fresh
  have owner : ∀ id run, w.state.runs.get? id = some run → run.state = .active →
      ∃ key record, w.state.agents.get? key = some record ∧ record.agent.id = run.agentId ∧
        record.activeRun = some id := by
    intro id run stored active
    obtain ⟨key, row, known, owns⟩ := sound.runs.owner id run stored
    obtain ⟨record, is_record, rfl⟩ := Option.map_eq_some_iff.mp known
    have same := (sound.runs.run id run stored).1
    exact ⟨key, record, is_record, owns.owner.symm, same ▸ owns.active active⟩
  have names : ∀ key record id, w.state.agents.get? key = some record →
      record.activeRun = some id → ∃ run, w.state.runs.get? id = some run ∧
        run.state = .active ∧ run.agentId = record.agent.id := by
    intro key record id known active
    obtain ⟨run, stored, owned, is_active⟩ :=
      sound.runs.active key record.runRow id (by simp [runRow, known]) active
    exact ⟨run, stored, is_active, owned⟩
  refine ⟨?_, names, ?_, ?_, ?_, ?_⟩
  · intro id run stored
    refine ⟨owner id run stored, ?_⟩
    rintro ⟨key, record, known, _, active⟩
    obtain ⟨run', stored', is_active, _⟩ := names key record id known active
    rw [stored] at stored'
    cases stored'
    exact is_active
  · intro id id' run run' stored stored' active active' same_owner
    obtain ⟨key, record, known, owned, names_id⟩ := owner id run stored active
    obtain ⟨key', record', known', owned', names_id'⟩ := owner id' run' stored' active'
    -- Both runs belong to one agent, and an agent names one run.
    have row : runRow w.state key = some record.runRow := by simp [runRow, known]
    have row' : runRow w.state key' = some record'.runRow := by simp [runRow, known']
    have same_key : key = key' :=
      sound.tree.runRow_key row row' ((owned.trans same_owner).trans owned'.symm)
    subst same_key
    rw [known] at known'
    cases known'
    exact Option.some.inj (names_id.symm.trans names_id')
  · intro key record nativeId id known named
    exact sound.runs.native key record.runRow nativeId id (by simp [runRow, known]) named
  · intro log w' calls
    have later := (calls.keep fresh sound).2
    exact ⟨later.ended, later.native⟩
  · rintro ctx input w' key record nativeId id rfl boundary known named returned
    exact apply_replay fresh sound boundary known named returned

theorem run_lifecycle_of_sample :
    ∃ w, Reachable sampleIds w ∧
      ∃ record id run, w.state.agents.get? "lead" = some record ∧ record.activeRun = some id ∧
        w.state.runs.get? id = some run ∧ run.state = .active := by
  obtain ⟨w, reachable, active⟩ := reachable_of_leadsTo
    (show leadsTo sampleIds sampleInputs (newThread "thread" none sampleConfig)
      (fun w => ((w.state.agents.get? "lead").bind (·.activeRun)).isSome) = true by
      decide +kernel)
  obtain ⟨id, named⟩ := Option.isSome_iff_exists.mp active
  obtain ⟨record, known, names⟩ := Option.bind_eq_some_iff.mp named
  obtain ⟨run, stored, is_active, _⟩ :=
    (run_lifecycle_of_reachable freshIds_sampleIds reachable).2.1 "lead" record id known names
  exact ⟨w, reachable, record, id, run, known, names, stored, is_active⟩

end

end Ace
