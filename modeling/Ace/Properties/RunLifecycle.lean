import Ace.Properties.Rows

/-!
# The lifecycle of runs

A run is active exactly while it is the active run of its owner, and a native turn of an
agent has one run. `RunSound` states this from both sides, from the runs and from the agent
records, so that neither a stale `activeRun` nor a forgotten run can occur. `RunsLater` is
what never changes again: how a run ended, and which run a native turn has.
-/

namespace Ace

open Script

structure RunRow where
  id : String
  activeRun : Option String
  nativeRuns : Dictionary String
  deriving DecidableEq

def AgentRecord.runRow (record : AgentRecord) : RunRow :=
  ⟨record.agent.id, record.activeRun, record.nativeRuns⟩

def runRow (s : ThreadState) (key : Key) : Option RunRow :=
  (s.agents.get? key).map AgentRecord.runRow

/-- `row` is what the owner of `run` knows about it. -/
structure OwnsRun (row : RunRow) (run : Run) : Prop where
  owner : run.agentId = row.id
  active : run.state = .active → row.activeRun = some run.id
  native : ∀ nativeId, run.nativeId = some nativeId → row.nativeRuns.get? nativeId = some run.id

structure RunSound (ids : IdSource) (w : Work) : Prop where
  run : ∀ id run, w.state.runs.get? id = some run →
    run.id = id ∧ Drawn ids w .run id ∧ (run.state ≠ .active → run.endedAt.isSome)
  owner : ∀ id run, w.state.runs.get? id = some run →
    ∃ key row, runRow w.state key = some row ∧ OwnsRun row run
  active : ∀ key row id, runRow w.state key = some row → row.activeRun = some id →
    ∃ run, w.state.runs.get? id = some run ∧ run.agentId = row.id ∧ run.state = .active
  native : ∀ key row nativeId id, runRow w.state key = some row →
    row.nativeRuns.get? nativeId = some id →
    ∃ run, w.state.runs.get? id = some run ∧ run.agentId = row.id ∧ run.nativeId = some nativeId

/-! ### States with the same runs -/

structure SameRuns (s s' : ThreadState) : Prop where
  runs : s'.runs = s.runs
  rows : ∀ key, runRow s' key = runRow s key

theorem SameRuns.of_agents {s s' : ThreadState} (runs : s'.runs = s.runs)
    (agents : s'.agents = s.agents) : SameRuns s s' where
  runs := runs
  rows key := by simp only [runRow, agents]

theorem runRow_modify {s s' : ThreadState} {key : Key} {f : AgentRecord → AgentRecord}
    (agents : s'.agents = s.agents.modify key f) (k : Key) :
    runRow s' k = if key = k then (s.agents.get? key).map fun record => (f record).runRow
      else runRow s k := by
  simp only [runRow, agents, Dictionary.get?_modify]
  split
  next => cases s.agents.get? key <;> rfl
  next => rfl

theorem SameRuns.of_modify {s s' : ThreadState} {key : Key} {f : AgentRecord → AgentRecord}
    (runs : s'.runs = s.runs) (agents : s'.agents = s.agents.modify key f)
    (keeps : ∀ record, (f record).runRow = record.runRow) : SameRuns s s' where
  runs := runs
  rows k := by
    rw [runRow_modify agents]
    split
    next same =>
      subst same
      cases known : s.agents.get? key <;> simp [runRow, known, keeps]
    next => rfl

section

variable {ids : IdSource} {w w' : Work}

theorem RunSound.of_same (sound : RunSound ids w) (same : SameRuns w.state w'.state)
    (le : w.drawn ≤ w'.drawn) : RunSound ids w' where
  run id run h := by
    obtain ⟨run_id, was, ended⟩ := sound.run id run (same.runs ▸ h)
    exact ⟨run_id, was.mono le, ended⟩
  owner id run h := by
    obtain ⟨key, row, known, owns⟩ := sound.owner id run (same.runs ▸ h)
    exact ⟨key, row, (same.rows key).trans known, owns⟩
  active key row id h active := by
    rw [same.runs]
    exact sound.active key row id (same.rows key ▸ h) active
  native key row nativeId id h native := by
    rw [same.runs]
    exact sound.native key row nativeId id (same.rows key ▸ h) native

/-- `s'` has one agent more, without runs. -/
structure AddsIdle (s s' : ThreadState) : Prop where
  runs : s'.runs = s.runs
  rows : ∃ key row, runRow s key = none ∧ row.activeRun = none ∧ row.nativeRuns = .empty ∧
    ∀ k, runRow s' k = if key = k then some row else runRow s k

theorem AddsIdle.keeps {s s' : ThreadState} (adds : AddsIdle s s') {key : Key} {row : RunRow}
    (known : runRow s key = some row) : runRow s' key = some row := by
  obtain ⟨new, _, unknown, _, _, rows⟩ := adds.rows
  rw [rows, if_neg, known]
  rintro rfl
  simp [unknown] at known

theorem RunSound.addsIdle (sound : RunSound ids w) (adds : AddsIdle w.state w'.state)
    (le : w.drawn ≤ w'.drawn) : RunSound ids w' := by
  obtain ⟨key, row, unknown, idle, no_turns, rows⟩ := adds.rows
  constructor
  · intro id run h
    obtain ⟨run_id, was, ended⟩ := sound.run id run (adds.runs ▸ h)
    exact ⟨run_id, was.mono le, ended⟩
  · intro id run h
    obtain ⟨k, old, known, owns⟩ := sound.owner id run (adds.runs ▸ h)
    exact ⟨k, old, adds.keeps known, owns⟩
  · intro k old id h active
    rw [rows] at h
    rw [adds.runs]
    split at h
    next =>
      cases h
      simp [idle] at active
    next => exact sound.active k old id h active
  · intro k old nativeId id h native
    rw [rows] at h
    rw [adds.runs]
    split at h
    next =>
      cases h
      simp [no_turns] at native
    next => exact sound.native k old nativeId id h native

theorem runRow_addAgent (s : ThreadState) (key k : Key) (record : AgentRecord) :
    runRow (addAgent s key record) k = if key = k then some record.runRow else runRow s k := by
  simp only [runRow, addAgent_agents, Dictionary.get?_put]
  split <;> simp

theorem refreshAgentIndex_runs (s : ThreadState) (key : Key) (previous : Option String) :
    (refreshAgentIndex s key previous).runs = s.runs := by
  unfold refreshAgentIndex
  split <;> rfl

theorem TreeStep.drawn_le (step : TreeStep ids w w') : w.drawn ≤ w'.drawn := by
  cases step with
  | draw => exact Nat.le_succ _
  | _ => exact le_rfl

theorem TreeStep.runs (step : TreeStep ids w w') :
    SameRuns w.state w'.state ∨ AddsIdle w.state w'.state := by
  cases step with
  | passive s same => exact .inl (.of_agents same.runs same.agents)
  | createAgent key id now unknown fresh =>
    refine .inr ⟨refreshAgentIndex_runs .., key, (placeholder w.state key id now).runRow,
      by simp [runRow, unknown], rfl, rfl, ?_⟩
    intro k
    exact runRow_addAgent ..
  | touch key f soft =>
    refine .inl (.of_modify rfl rfl ?_)
    intro record
    simp only [AgentRecord.runRow, soft.agent, soft.activeRun, soft.nativeRuns]
  | changeAgent => exact .inl (.of_modify rfl rfl fun _ => rfl)
  | move =>
    exact .inl (.of_modify (refreshAgentIndex_runs ..) (refreshAgentIndex_agents ..) fun _ => rfl)
  | setStatus => exact .inl (.of_modify rfl rfl fun _ => rfl)
  | _ => exact .inl (.of_agents rfl rfl)

theorem TreeStep.runSound (sound : RunSound ids w) (step : TreeStep ids w w') :
    RunSound ids w' := by
  rcases step.runs with same | adds
  · exact sound.of_same same step.drawn_le
  · exact sound.addsIdle adds step.drawn_le

/-! ### Writing one run -/

theorem TreeSound.runRow_key (tree : TreeSound ids w) {key key' : Key} {row row' : RunRow}
    (known : runRow w.state key = some row) (known' : runRow w.state key' = some row')
    (same : row.id = row'.id) : key = key' := by
  simp only [runRow, Option.map_eq_some_iff] at known known'
  obtain ⟨record, found, rfl⟩ := known
  obtain ⟨record', found', rfl⟩ := known'
  have by_id : ∀ {k : Key} {r : AgentRecord}, w.state.agents.get? k = some r →
      w.state.indexes.agentKeysById.get? r.agent.id = some k := by
    intro k r found
    exact (tree.keysById _ _).mpr ⟨r.row, by simp [agentRow, found], rfl⟩
  have first := by_id found
  rw [show record.agent.id = record'.agent.id from same, by_id found'] at first
  exact (Option.some.inj first).symm

/-- The general write: `run` is stored, and the row of its owner changes from `row` to
`row'`. What `row'` names is `run` or was named before. -/
theorem RunSound.write (sound : RunSound ids w) (tree : TreeSound ids w) {key : Key}
    {row row' : RunRow} {run : Run} (known : runRow w.state key = some row)
    (row_id : row'.id = row.id) (runs : w'.state.runs = w.state.runs.put run.id run)
    (rows : ∀ k, runRow w'.state k = if key = k then some row' else runRow w.state k)
    (drawn : w'.drawn = w.drawn) (was : Drawn ids w .run run.id)
    (ended : run.state ≠ .active → run.endedAt.isSome) (owns : OwnsRun row' run)
    (mine : ∀ old, w.state.runs.get? run.id = some old → old.agentId = row.id)
    (others : ∀ r : Run, r.id ≠ run.id → OwnsRun row r → OwnsRun row' r)
    (active : ∀ id, row'.activeRun = some id →
      (id = run.id ∧ run.state = .active) ∨ (id ≠ run.id ∧ row.activeRun = some id))
    (native : ∀ nativeId id, row'.nativeRuns.get? nativeId = some id →
      (id = run.id ∧ run.nativeId = some nativeId) ∨
        (id ≠ run.id ∧ row.nativeRuns.get? nativeId = some id)) : RunSound ids w' := by
  -- A run that another agent names is not the one written.
  have elsewhere : ∀ k other id r, runRow w.state k = some other → key ≠ k →
      w.state.runs.get? id = some r → r.agentId = other.id → run.id ≠ id := by
    rintro k other id r known_k ne stored owner rfl
    have same : row.id = other.id := (mine r stored).symm.trans owner
    exact ne (tree.runRow_key known known_k same)
  constructor
  · intro id r h
    rw [runs, Dictionary.get?_put] at h
    split at h
    next same =>
      cases h
      exact ⟨same, same ▸ was.mono drawn.ge, ended⟩
    next =>
      obtain ⟨run_id, was_r, ended_r⟩ := sound.run id r h
      exact ⟨run_id, was_r.mono drawn.ge, ended_r⟩
  · intro id r h
    rw [runs, Dictionary.get?_put] at h
    split at h
    next =>
      cases h
      exact ⟨key, row', by rw [rows, if_pos rfl], owns⟩
    next ne =>
      obtain ⟨k, other, known_k, owns_r⟩ := sound.owner id r h
      by_cases same : key = k
      · subst same
        rw [known] at known_k
        cases known_k
        refine ⟨key, row', by rw [rows, if_pos rfl], others r ?_ owns_r⟩
        rw [(sound.run id r h).1]
        exact Ne.symm ne
      · exact ⟨k, other, by rw [rows, if_neg same]; exact known_k, owns_r⟩
  · intro k other id h is_active
    rw [rows] at h
    rw [runs]
    split at h
    next =>
      cases h
      rcases active id is_active with ⟨rfl, run_active⟩ | ⟨ne, was_active⟩
      · exact ⟨run, Dictionary.get?_put_self .., owns.owner, run_active⟩
      · obtain ⟨r, stored, owner, r_active⟩ := sound.active key row id known was_active
        refine ⟨r, ?_, owner.trans row_id.symm, r_active⟩
        rw [Dictionary.get?_put_ne _ _ (Ne.symm ne)]
        exact stored
    next ne =>
      obtain ⟨r, stored, owner, r_active⟩ := sound.active k other id h is_active
      refine ⟨r, ?_, owner, r_active⟩
      rw [Dictionary.get?_put_ne _ _ (elsewhere k other id r h ne stored owner)]
      exact stored
  · intro k other nativeId id h named
    rw [rows] at h
    rw [runs]
    split at h
    next =>
      cases h
      rcases native nativeId id named with ⟨rfl, run_native⟩ | ⟨ne, was_named⟩
      · exact ⟨run, Dictionary.get?_put_self .., owns.owner, run_native⟩
      · obtain ⟨r, stored, owner, r_native⟩ := sound.native key row nativeId id known was_named
        refine ⟨r, ?_, owner.trans row_id.symm, r_native⟩
        rw [Dictionary.get?_put_ne _ _ (Ne.symm ne)]
        exact stored
    next ne =>
      obtain ⟨r, stored, owner, r_native⟩ := sound.native k other nativeId id h named
      refine ⟨r, ?_, owner, r_native⟩
      rw [Dictionary.get?_put_ne _ _ (elsewhere k other id r h ne stored owner)]
      exact stored

/-- The native turns of an agent with a new run. -/
def withNative (nativeRuns : Dictionary String) (run : Run) : Dictionary String :=
  match run.nativeId with
  | none => nativeRuns
  | some nativeId => nativeRuns.put nativeId run.id

theorem get?_withNative (nativeRuns : Dictionary String) (run : Run) (nativeId : String) :
    (withNative nativeRuns run).get? nativeId =
      if run.nativeId = some nativeId then some run.id else nativeRuns.get? nativeId := by
  unfold withNative
  cases run.nativeId with
  | none => simp
  | some n => simp [Dictionary.get?_put]

theorem NewRun.not_stored {record : AgentRecord} {run : Run} (new : NewRun ids w record run)
    {nativeId id : String} (sound : RunSound ids w) {key : Key}
    (known : runRow w.state key = some record.runRow)
    (named : record.nativeRuns.get? nativeId = some id) : id ≠ run.id := by
  rintro rfl
  obtain ⟨r, stored, _⟩ := sound.native key record.runRow nativeId run.id known named
  rw [new.fresh.2] at stored
  cases stored

theorem RunSound.addRun (sound : RunSound ids w) (tree : TreeSound ids w) {key : Key}
    {record : AgentRecord} {run : Run} (run' : Run) (known : w.state.agents.get? key = some record)
    (new : NewRun ids w record run) (same : run'.id = run.id ∧ run'.agentId = run.agentId ∧
      run'.nativeId = run.nativeId) (ended : run'.state ≠ .active → run'.endedAt.isSome)
    {activeRun : Option String}
    (active : (run'.state = .active ∧ record.activeRun = none ∧ activeRun = some run.id) ∨
      (run'.state ≠ .active ∧ activeRun = record.activeRun))
    (runs : w'.state.runs = w.state.runs.put run'.id run')
    (rows : ∀ k, runRow w'.state k =
      if key = k then some ⟨record.agent.id, activeRun, withNative record.nativeRuns run'⟩
      else runRow w.state k)
    (drawn : w'.drawn = w.drawn) : RunSound ids w' := by
  have known_row : runRow w.state key = some record.runRow := by simp [runRow, known]
  have row_id : (⟨record.agent.id, activeRun, withNative record.nativeRuns run'⟩ : RunRow).id =
      record.runRow.id := rfl
  refine sound.write tree known_row row_id runs rows drawn ?_ ended ?_ ?_ ?_ ?_ ?_
  · rw [same.1]
    exact new.fresh.1
  · refine ⟨same.2.1.trans new.owner, ?_, ?_⟩
    · intro is_active
      rcases active with ⟨_, _, now_active⟩ | ⟨not_active, _⟩
      · rw [same.1]
        exact now_active
      · exact absurd is_active not_active
    · intro nativeId named
      rw [get?_withNative, if_pos named]
  · intro old stored
    rw [same.1, new.fresh.2] at stored
    cases stored
  · intro r ne owns
    refine ⟨owns.owner, ?_, ?_⟩
    · intro r_active
      have was_active := owns.active r_active
      rcases active with ⟨_, idle, _⟩ | ⟨_, kept⟩
      · exact absurd (idle.symm.trans was_active) (by simp)
      · exact kept.trans was_active
    · intro nativeId named
      have was_named := owns.native nativeId named
      rw [get?_withNative, if_neg]
      · exact was_named
      · intro run_named
        rw [same.2.2] at run_named
        exact absurd ((new.native nativeId run_named).symm.trans was_named) (by simp)
  · intro id is_active
    rcases active with ⟨run_active, _, now_active⟩ | ⟨_, kept⟩
    · left
      refine ⟨?_, run_active⟩
      rw [same.1]
      exact (Option.some.inj (now_active.symm.trans is_active)).symm
    · right
      have was_active : record.activeRun = some id := kept.symm.trans is_active
      refine ⟨?_, was_active⟩
      rintro rfl
      obtain ⟨r, stored, _⟩ := sound.active key record.runRow _ known_row was_active
      rw [same.1, new.fresh.2] at stored
      cases stored
  · intro nativeId id named
    rw [get?_withNative] at named
    split at named
    next run_named =>
      cases named
      exact .inl ⟨rfl, run_named⟩
    next =>
      rw [same.1]
      exact .inr ⟨new.not_stored sound known_row named, named⟩

theorem RunSound.settle (sound : RunSound ids w) (tree : TreeSound ids w) {key : Key}
    {row : RunRow} {run : Run} (run' : Run) (activeRun : Option String)
    (known : runRow w.state key = some row) (stored : w.state.runs.get? run.id = some run)
    (owns : OwnsRun row run)
    (same : run'.id = run.id ∧ run'.agentId = run.agentId ∧ run'.nativeId = run.nativeId)
    (settled : run'.state ≠ .active) (ended : run'.endedAt.isSome)
    (active : ∀ id, activeRun = some id ↔ row.activeRun = some id ∧ id ≠ run.id)
    (runs : w'.state.runs = w.state.runs.put run'.id run')
    (rows : ∀ k, runRow w'.state k =
      if key = k then some { row with activeRun } else runRow w.state k)
    (drawn : w'.drawn = w.drawn) : RunSound ids w' := by
  have row_id : ({ row with activeRun } : RunRow).id = row.id := rfl
  refine sound.write tree known row_id runs rows drawn ?_ (fun _ => ended) ?_ ?_ ?_ ?_ ?_
  · rw [same.1]
    exact (sound.run _ _ stored).2.1
  · refine ⟨same.2.1.trans owns.owner, fun is_active => absurd is_active settled, ?_⟩
    intro nativeId named
    rw [same.1]
    exact owns.native nativeId (same.2.2 ▸ named)
  · intro old stored_old
    rw [same.1, stored] at stored_old
    cases stored_old
    exact owns.owner
  · intro r ne owns_r
    refine ⟨owns_r.owner, ?_, owns_r.native⟩
    intro r_active
    exact (active r.id).mpr ⟨owns_r.active r_active, same.1 ▸ ne⟩
  · intro id is_active
    obtain ⟨was_active, ne⟩ := (active id).mp is_active
    exact .inr ⟨same.1 ▸ ne, was_active⟩
  · intro nativeId id named
    by_cases eq : id = run'.id
    · left
      refine ⟨eq, ?_⟩
      obtain ⟨r, stored_r, _, native⟩ := sound.native key row nativeId id known named
      rw [eq, same.1, stored] at stored_r
      cases stored_r
      exact same.2.2.trans native
    · exact .inr ⟨eq, named⟩

theorem RunSound.owns_active (sound : RunSound ids w) (tree : TreeSound ids w) {key : Key}
    {record : AgentRecord} {run : Run} (known : w.state.agents.get? key = some record)
    (active : record.activeRun = some run.id) (stored : w.state.runs.get? run.id = some run) :
    OwnsRun record.runRow run ∧ run.state = .active := by
  have known_row : runRow w.state key = some record.runRow := by simp [runRow, known]
  obtain ⟨r, stored_r, owner, is_active⟩ := sound.active key record.runRow run.id known_row active
  rw [stored] at stored_r
  cases stored_r
  obtain ⟨k, other, known_k, owns⟩ := sound.owner run.id run stored
  have same := tree.runRow_key known_k known_row (owns.owner.symm.trans owner)
  subst same
  rw [known_row] at known_k
  cases known_k
  exact ⟨owns, is_active⟩

theorem storeRun_runs (s : ThreadState) (key : Key) (run : Run) :
    (storeRun s key run).runs = s.runs.put run.id run := by
  unfold storeRun
  split <;> rfl

theorem runRow_storeRun (s : ThreadState) (key : Key) (run : Run) {record : AgentRecord}
    (known : s.agents.get? key = some record) (k : Key) :
    runRow (storeRun s key run) k =
      if key = k then
        some ⟨record.agent.id, record.activeRun, withNative record.nativeRuns run⟩
      else runRow s k := by
  unfold storeRun withNative
  cases run.nativeId with
  | none =>
    by_cases same : key = k
    · subst same
      simp [runRow, known, AgentRecord.runRow]
    · rw [if_neg same]
      rfl
  | some nativeId =>
    rw [runRow_modify (s := s) rfl, known]
    rfl

theorem Step.runSound (tree : TreeSound ids w) (sound : RunSound ids w) (step : Step ids w w') :
    RunSound ids w' := by
  cases step with
  | tree step => exact step.runSound sound
  | startRun key record run f known idle new active starts =>
    have rows : ∀ k, runRow { w.state with agents := w.state.agents.modify key f } k =
        if key = k then
          some ⟨record.agent.id, some run.id, withNative record.nativeRuns run⟩
        else runRow w.state k := by
      intro k
      rw [runRow_modify (s := w.state) rfl, known]
      simp only [Option.map_some, AgentRecord.runRow, (starts record).1, (starts record).2.2.1,
        (starts record).2.2.2]
      rfl
    exact sound.addRun tree run known new ⟨rfl, rfl, rfl⟩ (fun settled => absurd active settled)
      (.inl ⟨active, idle, rfl⟩) rfl rows rfl
  | recordRun key record run known new state endedBy trigger endedAt settled =>
    refine sound.addRun tree (endedRun run state endedBy trigger endedAt) known new ⟨rfl, rfl, rfl⟩
      (fun _ => rfl) (.inr ⟨settled, rfl⟩) ?_ (runRow_storeRun w.state key _ known) rfl
    exact storeRun_runs ..
  | endRun key record run f known active stored state endedBy trigger endedAt settled ends =>
    have rows : ∀ k, runRow { w.state with agents := w.state.agents.modify key f } k =
        if key = k then some { record.runRow with activeRun := none } else runRow w.state k := by
      intro k
      rw [runRow_modify (s := w.state) rfl, known]
      simp only [Option.map_some, AgentRecord.runRow, (ends record).1, (ends record).2.2.1,
        (ends record).2.2.2]
    refine sound.settle tree (endedRun run state endedBy trigger endedAt) none
      (by simp [runRow, known]) stored (sound.owns_active tree known active stored).1
      ⟨rfl, rfl, rfl⟩ settled rfl ?_ rfl rows rfl
    intro id
    simp [AgentRecord.runRow, active, eq_comm]
  | retrigger run trigger endedAt stored settled ended =>
    obtain ⟨key, row, known, owns⟩ := sound.owner run.id run stored
    refine sound.settle tree { run with trigger } row.activeRun known stored owns
      ⟨rfl, rfl, rfl⟩ settled (by simp [ended]) ?_ rfl ?_ rfl
    · intro id
      refine ⟨fun was => ⟨was, ?_⟩, And.left⟩
      rintro rfl
      obtain ⟨r, stored_r, _, is_active⟩ := sound.active key row run.id known was
      rw [stored] at stored_r
      cases stored_r
      exact settled is_active
    · intro k
      split
      next same => rw [← same]; exact known
      next => rfl
  | openInteraction =>
    simp only [archiveInteraction_eq]
    exact sound.of_same (.of_agents rfl rfl) le_rfl
  | closeInteraction => exact sound.of_same (.of_agents rfl rfl) le_rfl
  | startTask =>
    simp only [archiveTask_eq]
    exact sound.of_same (.of_agents rfl rfl) le_rfl
  | refineTask => exact sound.of_same (.of_agents rfl rfl) le_rfl
  | settleTask => exact sound.of_same (.of_agents rfl rfl) le_rfl

/-! ### What stays for ever -/

/-- An ended run keeps its outcome and its end, a native turn its run. -/
structure RunsLater (s s' : ThreadState) : Prop where
  ended : ∀ id run, s.runs.get? id = some run → run.state ≠ .active →
    ∃ run', s'.runs.get? id = some run' ∧ run'.state = run.state ∧ run'.endedAt = run.endedAt
  native : ∀ key record nativeId id, s.agents.get? key = some record →
    record.nativeRuns.get? nativeId = some id →
    ∃ record', s'.agents.get? key = some record' ∧ record'.nativeRuns.get? nativeId = some id

theorem RunsLater.refl (s : ThreadState) : RunsLater s s where
  ended _ run h _ := ⟨run, h, rfl, rfl⟩
  native _ record _ _ h named := ⟨record, h, named⟩

theorem RunsLater.trans {s s' s'' : ThreadState} (h : RunsLater s s') (h' : RunsLater s' s'') :
    RunsLater s s'' where
  ended id run stored settled := by
    obtain ⟨run', stored', state, endedAt⟩ := h.ended id run stored settled
    obtain ⟨run'', stored'', state', endedAt'⟩ := h'.ended id run' stored' (state ▸ settled)
    exact ⟨run'', stored'', state'.trans state, endedAt'.trans endedAt⟩
  native key record nativeId id known named := by
    obtain ⟨record', known', named'⟩ := h.native key record nativeId id known named
    exact h'.native key record' nativeId id known' named'

theorem RunsLater.of_rows {s s' : ThreadState}
    (ended : ∀ id run, s.runs.get? id = some run → run.state ≠ .active →
      ∃ run', s'.runs.get? id = some run' ∧ run'.state = run.state ∧ run'.endedAt = run.endedAt)
    (rows : ∀ key row, runRow s key = some row → ∃ row', runRow s' key = some row' ∧
      ∀ nativeId id, row.nativeRuns.get? nativeId = some id →
        row'.nativeRuns.get? nativeId = some id) : RunsLater s s' where
  ended := ended
  native key record nativeId id known named := by
    obtain ⟨row', known', keeps⟩ := rows key record.runRow (by simp [runRow, known])
    simp only [runRow, Option.map_eq_some_iff] at known'
    obtain ⟨record', found, rfl⟩ := known'
    exact ⟨record', found, keeps nativeId id named⟩

theorem SameRuns.runsLater {s s' : ThreadState} (same : SameRuns s s') : RunsLater s s' :=
  .of_rows (fun _ run h _ => ⟨run, same.runs ▸ h, rfl, rfl⟩)
    (fun key row h => ⟨row, (same.rows key).trans h, fun _ _ named => named⟩)

theorem AddsIdle.runsLater {s s' : ThreadState} (adds : AddsIdle s s') : RunsLater s s' :=
  .of_rows (fun _ run h _ => ⟨run, adds.runs ▸ h, rfl, rfl⟩)
    (fun _ row h => ⟨row, adds.keeps h, fun _ _ named => named⟩)

/-- Storing a run leaves the ended runs alone when the run it replaces had not ended, or has
the same outcome and end. -/
theorem ended_put {runs : Dictionary Run} (new : Run)
    (kept : ∀ old, runs.get? new.id = some old → old.state ≠ .active →
      new.state = old.state ∧ new.endedAt = old.endedAt)
    (id : String) (run : Run) (stored : runs.get? id = some run) (settled : run.state ≠ .active) :
    ∃ run', (runs.put new.id new).get? id = some run' ∧ run'.state = run.state ∧
      run'.endedAt = run.endedAt := by
  rw [Dictionary.get?_put]
  split
  next same =>
    subst same
    obtain ⟨state, endedAt⟩ := kept run stored settled
    exact ⟨new, rfl, state, endedAt⟩
  next => exact ⟨run, stored, rfl, rfl⟩

theorem NewRun.keeps_native {record : AgentRecord} {run run' : Run}
    (new : NewRun ids w record run) (same : run'.nativeId = run.nativeId) {nativeId id : String}
    (named : record.nativeRuns.get? nativeId = some id) :
    (withNative record.nativeRuns run').get? nativeId = some id := by
  rw [get?_withNative, if_neg]
  · exact named
  · intro taken
    rw [same] at taken
    rw [new.native nativeId taken] at named
    cases named

theorem NewRun.ended_put {record : AgentRecord} {run : Run}
    (new : NewRun ids w record run) (run' : Run) (same : run'.id = run.id) :
    ∀ id r, w.state.runs.get? id = some r → r.state ≠ .active →
      ∃ r', (w.state.runs.put run'.id run').get? id = some r' ∧ r'.state = r.state ∧
        r'.endedAt = r.endedAt := by
  apply Ace.ended_put
  intro old stored
  rw [same, new.fresh.2] at stored
  cases stored

theorem Step.runsLater (tree : TreeSound ids w) (sound : RunSound ids w) (step : Step ids w w') :
    RunsLater w.state w'.state := by
  cases step with
  | tree step =>
    rcases step.runs with same | adds
    · exact same.runsLater
    · exact adds.runsLater
  | startRun key record run f known idle new active starts =>
    refine .of_rows (new.ended_put run rfl) ?_
    intro k row h
    by_cases same : key = k
    · subst same
      have is_row : record.runRow = row := by simpa [runRow, known] using h
      subst is_row
      refine ⟨(f record).runRow, by simp [runRow, known], ?_⟩
      intro nativeId id named
      have turns : (f record).runRow.nativeRuns = withNative record.nativeRuns run :=
        (starts record).2.2.2
      rw [turns]
      exact new.keeps_native rfl named
    · refine ⟨row, ?_, fun _ _ named => named⟩
      simp only [Work.emit_state, Work.change_state]
      rw [runRow_modify (s := w.state) rfl, if_neg same, h]
  | recordRun key record run known new state endedBy trigger endedAt settled =>
    refine .of_rows ?_ ?_
    · simp only [Work.change_state, storeRun_runs]
      exact new.ended_put (endedRun run state endedBy trigger endedAt) rfl
    · intro k row h
      have rows := runRow_storeRun w.state key (endedRun run state endedBy trigger endedAt) known k
      by_cases same : key = k
      · subst same
        have is_row : record.runRow = row := by simpa [runRow, known] using h
        subst is_row
        rw [if_pos rfl] at rows
        exact ⟨_, rows, fun nativeId id named => new.keeps_native rfl named⟩
      · rw [if_neg same, h] at rows
        exact ⟨row, rows, fun _ _ named => named⟩
  | endRun key record run f known active stored state endedBy trigger endedAt settled ends =>
    refine .of_rows ?_ ?_
    · refine ended_put (endedRun run state endedBy trigger endedAt) ?_
      intro old stored_old ended
      have same : old = run := Option.some.inj (stored_old.symm.trans stored)
      subst same
      exact absurd (sound.owns_active tree known active stored).2 ended
    · intro k row h
      by_cases same : key = k
      · subst same
        have is_row : record.runRow = row := by simpa [runRow, known] using h
        subst is_row
        refine ⟨(f record).runRow, by simp [runRow, known], ?_⟩
        intro nativeId id named
        have turns : (f record).runRow.nativeRuns = record.nativeRuns := (ends record).2.2.2
        rw [turns]
        exact named
      · refine ⟨row, ?_, fun _ _ named => named⟩
        simp only [Work.emit_state, Work.change_state]
        rw [runRow_modify (s := w.state) rfl, if_neg same, h]
  | retrigger run trigger endedAt stored settled ended =>
    refine .of_rows ?_ fun _ row h => ⟨row, h, fun _ _ named => named⟩
    refine ended_put { run with trigger } ?_
    intro old stored_old _
    have same : old = run := Option.some.inj (stored_old.symm.trans stored)
    subst same
    exact ⟨rfl, rfl⟩
  | openInteraction =>
    simp only [archiveInteraction_eq]
    exact SameRuns.runsLater (.of_agents rfl rfl)
  | startTask =>
    simp only [archiveTask_eq]
    exact SameRuns.runsLater (.of_agents rfl rfl)
  | closeInteraction => exact SameRuns.runsLater (.of_agents rfl rfl)
  | refineTask => exact SameRuns.runsLater (.of_agents rfl rfl)
  | settleTask => exact SameRuns.runsLater (.of_agents rfl rfl)

end

end Ace
