import Ace.Properties.Transitions

/-!
# The agent tree

Four representations of one tree: `parentKey`, the parent id on the agent, the index from
ids to keys and the index of children. `TreeSound` says that they agree and that no chain
of parents closes. Every step keeps it: only `createAgent`, `move` and `setRoot` touch the
tree, the other steps leave every row of it as it is.
-/

namespace Ace

open Script

structure AgentRow where
  id : String
  parentId : Option String
  parentKey : Option Key
  deriving DecidableEq

def AgentRecord.row (record : AgentRecord) : AgentRow :=
  ⟨record.agent.id, record.agent.parentId, record.parentKey⟩

def agentRow (s : ThreadState) (key : Key) : Option AgentRow :=
  (s.agents.get? key).map AgentRecord.row

theorem agentIdOf_eq (s : ThreadState) (key : Key) :
    agentIdOf s key = (agentRow s key).map AgentRow.id := by
  simp [agentIdOf, agentRow, Option.map_map, Function.comp_def, AgentRecord.row]

theorem parentOf_eq (s : ThreadState) (key : Key) :
    parentOf s key = (agentRow s key).bind AgentRow.parentKey := by
  cases h : s.agents.get? key <;> simp [parentOf, agentRow, h, AgentRecord.row]

structure TreeSound (ids : IdSource) (w : Work) : Prop where
  drawn : ∀ key row, agentRow w.state key = some row → Drawn ids w .agent row.id
  parentId : ∀ key row, agentRow w.state key = some row →
    row.parentId = row.parentKey.bind (agentIdOf w.state)
  parentKnown : ∀ key p, parentOf w.state key = some p → (agentRow w.state p).isSome
  acyclic : Acyclic (parentOf w.state)
  keysById : ∀ id key, w.state.indexes.agentKeysById.get? id = some key ↔
    ∃ row, agentRow w.state key = some row ∧ row.id = id
  children : ∀ parentId key, key ∈ childKeys w.state parentId ↔
    ∃ row, agentRow w.state key = some row ∧ row.parentId = some parentId
  root : ∀ key, w.state.rootKey = some key → (agentRow w.state key).isSome

/-! ### States with the same tree -/

structure SameTree (s s' : ThreadState) : Prop where
  rows : ∀ key, agentRow s' key = agentRow s key
  keysById : s'.indexes.agentKeysById = s.indexes.agentKeysById
  children : s'.indexes.childrenByParent = s.indexes.childrenByParent
  root : s'.rootKey = s.rootKey

theorem SameTree.agentIdOf {s s' : ThreadState} (h : SameTree s s') :
    agentIdOf s' = agentIdOf s := by
  funext key
  rw [agentIdOf_eq, agentIdOf_eq, h.rows]

theorem SameTree.parentOf {s s' : ThreadState} (h : SameTree s s') :
    parentOf s' = parentOf s := by
  funext key
  rw [parentOf_eq, parentOf_eq, h.rows]

theorem Drawn.mono {ids : IdSource} {w w' : Work} {kind : EntityKind} {id : String}
    (h : Drawn ids w kind id) (le : w.drawn ≤ w'.drawn) : Drawn ids w' kind id := by
  obtain ⟨n, lt, eq⟩ := h
  exact ⟨n, Nat.lt_of_lt_of_le lt le, eq⟩

theorem TreeSound.of_same {ids : IdSource} {w w' : Work} (sound : TreeSound ids w)
    (same : SameTree w.state w'.state) (le : w.drawn ≤ w'.drawn) : TreeSound ids w' where
  drawn key row h := (sound.drawn key row (same.rows key ▸ h)).mono le
  parentId key row h := by
    rw [same.agentIdOf]
    exact sound.parentId key row (same.rows key ▸ h)
  parentKnown key p h := by
    rw [same.rows]
    exact sound.parentKnown key p (same.parentOf ▸ h)
  acyclic := by
    rw [same.parentOf]
    exact sound.acyclic
  keysById id key := by
    rw [same.keysById, same.rows]
    exact sound.keysById id key
  children parentId key := by
    simp only [childKeys, same.children, same.rows]
    exact sound.children parentId key
  root key h := by
    rw [same.rows]
    exact sound.root key (same.root ▸ h)

theorem SameTree.of_modify {s s' : ThreadState} {key : Key} {f : AgentRecord → AgentRecord}
    (agents : s'.agents = s.agents.modify key f) (keeps : ∀ record, (f record).row = record.row)
    (keysById : s'.indexes.agentKeysById = s.indexes.agentKeysById)
    (children : s'.indexes.childrenByParent = s.indexes.childrenByParent)
    (root : s'.rootKey = s.rootKey) : SameTree s s' where
  rows k := by
    simp only [agentRow, agents, Dictionary.get?_modify]
    split
    next same =>
      subst same
      cases s.agents.get? key <;> simp [keeps]
    next => rfl
  keysById := keysById
  children := children
  root := root

theorem SameTree.of_agents {s s' : ThreadState} (agents : s'.agents = s.agents)
    (keysById : s'.indexes.agentKeysById = s.indexes.agentKeysById)
    (children : s'.indexes.childrenByParent = s.indexes.childrenByParent)
    (root : s'.rootKey = s.rootKey) : SameTree s s' where
  rows k := by simp only [agentRow, agents]
  keysById := keysById
  children := children
  root := root

/-! ### Refreshing the index of one agent -/

section Refresh

variable {s : ThreadState} {key : Key} {record : AgentRecord}

theorem refreshAgentIndex_agents (s : ThreadState) (key : Key) (previous : Option String) :
    (refreshAgentIndex s key previous).agents = s.agents := by
  unfold refreshAgentIndex
  split <;> rfl

theorem refreshAgentIndex_rootKey (s : ThreadState) (key : Key) (previous : Option String) :
    (refreshAgentIndex s key previous).rootKey = s.rootKey := by
  unfold refreshAgentIndex
  split <;> rfl

theorem refreshAgentIndex_keysById (known : s.agents.get? key = some record)
    (previous : Option String) :
    (refreshAgentIndex s key previous).indexes.agentKeysById =
      s.indexes.agentKeysById.put record.agent.id key := by
  simp [refreshAgentIndex, known]

def InBucket (d : Dictionary (Dictionary Unit)) (parentId : String) (k : Key) : Prop :=
  (((d.get? parentId).getD .empty).get? k).isSome

theorem inBucket_leave (d : Dictionary (Dictionary Unit)) (previous parentId : String)
    (key k : Key) :
    InBucket (d.modify previous (·.erase key)) parentId k ↔
      InBucket d parentId k ∧ ¬ (k = key ∧ previous = parentId) := by
  unfold InBucket
  rw [Dictionary.get?_modify]
  by_cases left : previous = parentId
  · subst left
    rw [if_pos rfl]
    cases d.get? previous with
    | none => simp
    | some bucket =>
      by_cases same : key = k
      · simp [same]
      · simp [Dictionary.get?_erase, same, Ne.symm same]
  · simp [left]

theorem inBucket_join (d : Dictionary (Dictionary Unit)) (parent parentId : String)
    (key k : Key) :
    InBucket (d.put parent (((d.get? parent).getD .empty).put key ())) parentId k ↔
      InBucket d parentId k ∨ (k = key ∧ parent = parentId) := by
  unfold InBucket
  rw [Dictionary.get?_put]
  by_cases joined : parent = parentId
  · subst joined
    by_cases same : key = k
    · simp [same]
    · simp [Dictionary.get?_put, same, Ne.symm same]
  · simp [joined]

theorem mem_childKeys_iff (s : ThreadState) (parentId : String) (k : Key) :
    k ∈ childKeys s parentId ↔ InBucket s.indexes.childrenByParent parentId k :=
  Dictionary.mem_keys_iff _ _

theorem mem_childKeys_refresh (known : s.agents.get? key = some record)
    (previous : Option String) (parentId : String) (k : Key) :
    k ∈ childKeys (refreshAgentIndex s key previous) parentId ↔
      (k = key ∧ record.agent.parentId = some parentId) ∨
      (k ∈ childKeys s parentId ∧
        ¬ (k = key ∧ previous = some parentId ∧ previous ≠ record.agent.parentId)) := by
  simp only [mem_childKeys_iff, refreshAgentIndex, known]
  rcases previous with _ | previous <;> rcases joined : record.agent.parentId with _ | parent
  · simp
  · simp only [inBucket_join]
    grind
  · simp only [reduceCtorEq, if_false, inBucket_leave]
    grind
  · by_cases stays : previous = parent
    · simp only [stays, if_true, inBucket_join]
      grind
    · simp only [Option.some.injEq, stays, if_false, inBucket_join, inBucket_leave]
      grind

end Refresh

/-! ### Creating an agent -/

section Create

variable {ids : IdSource} {w : Work} {key : Key} {id : String} {now : Nat}

theorem addAgent_agents (s : ThreadState) (key : Key) (record : AgentRecord) :
    (addAgent s key record).agents = s.agents.put key record := by
  simp [addAgent, refreshAgentIndex_agents]

theorem agentRow_addAgent (s : ThreadState) (key k : Key) (record : AgentRecord) :
    agentRow (addAgent s key record) k = if key = k then some record.row else agentRow s k := by
  simp only [agentRow, addAgent_agents, Dictionary.get?_put]
  split <;> simp

theorem placeholder_row (s : ThreadState) (key : Key) (id : String) (now : Nat) :
    (placeholder s key id now).row = ⟨id, s.rootKey.bind (agentIdOf s), s.rootKey⟩ := by
  simp only [placeholder, AgentRecord.row, AgentRow.mk.injEq, true_and, and_true]
  cases s.rootKey <;> simp [agentIdOf]

theorem TreeSound.known_of_reaches (sound : TreeSound ids w) {a b : Key}
    (known : (agentRow w.state a).isSome) (h : Reaches (parentOf w.state) a b) :
    (agentRow w.state b).isSome := by
  rcases h.eq_or_successor with rfl | ⟨k, link⟩
  · exact known
  · exact sound.parentKnown k b link

theorem TreeSound.createAgent (sound : TreeSound ids w) (unknown : w.state.agents.get? key = none)
    (fresh : FreshAgent ids w id) :
    TreeSound ids ((w.change (addAgent · key (placeholder w.state key id now))).emit
      (.agentCreated (placeholder w.state key id now).agent)) := by
  have no_row : agentRow w.state key = none := by simp [agentRow, unknown]
  have rows : ∀ k, agentRow (addAgent w.state key (placeholder w.state key id now)) k =
      if key = k then some ⟨id, w.state.rootKey.bind (agentIdOf w.state), w.state.rootKey⟩
      else agentRow w.state k := by
    intro k
    rw [agentRow_addAgent, placeholder_row]
  have ne_of_known : ∀ {k}, (agentRow w.state k).isSome → key ≠ k := by
    rintro k known rfl
    simp [no_row] at known
  -- The parent of a row is known already, so its id does not change.
  have sameIds : ∀ p, (agentRow w.state p).isSome →
      agentIdOf (addAgent w.state key (placeholder w.state key id now)) p =
        agentIdOf w.state p := by
    intro p known
    rw [agentIdOf_eq, agentIdOf_eq, rows, if_neg (ne_of_known known)]
  have parents : parentOf (addAgent w.state key (placeholder w.state key id now)) =
      redirect (parentOf w.state) key w.state.rootKey := by
    funext k
    simp only [redirect, parentOf_eq, rows, eq_comm (a := k)]
    split <;> rfl
  constructor
  · intro k row h
    simp only [Work.emit_state, Work.change_state, rows] at h
    split at h
    next =>
      cases h
      exact fresh.1
    next => exact sound.drawn k row h
  · intro k row h
    simp only [Work.emit_state, Work.change_state, rows] at h ⊢
    split at h
    next =>
      cases h
      cases root : w.state.rootKey with
      | none => rfl
      | some r => exact (sameIds r (sound.root r root)).symm
    next =>
      rw [sound.parentId k row h]
      cases parent : row.parentKey with
      | none => rfl
      | some p =>
        exact (sameIds p (sound.parentKnown k p (by rw [parentOf_eq, h]; exact parent))).symm
  · intro k p h
    simp only [Work.emit_state, Work.change_state, parents, redirect] at h ⊢
    have known : (agentRow w.state p).isSome := by
      split at h
      next => exact sound.root p h
      next => exact sound.parentKnown k p h
    rw [rows, if_neg (ne_of_known known)]
    exact known
  · simp only [Work.emit_state, Work.change_state, parents]
    apply sound.acyclic.redirect
    intro p root reach
    have known := sound.known_of_reaches (sound.root p root) reach
    simp [no_row] at known
  · intro id' k
    simp only [Work.emit_state, Work.change_state, rows]
    have index : (addAgent w.state key (placeholder w.state key id now)).indexes.agentKeysById =
        w.state.indexes.agentKeysById.put id key := by
      simp only [addAgent]
      rw [refreshAgentIndex_keysById (Dictionary.get?_put_self ..)]
      rfl
    rw [index, Dictionary.get?_put]
    by_cases same : id = id'
    · subst same
      rw [if_pos rfl]
      constructor
      · rintro ⟨⟩
        exact ⟨_, by rw [if_pos rfl], rfl⟩
      · rintro ⟨row, h, row_id⟩
        split at h
        next k_eq => rw [k_eq]
        next =>
          simp only [agentRow, Option.map_eq_some_iff] at h
          obtain ⟨record, known, rfl⟩ := h
          exact absurd row_id (fresh.2 k record known)
    · rw [if_neg same, sound.keysById]
      constructor
      · rintro ⟨row, h, row_id⟩
        exact ⟨row, by rw [if_neg (ne_of_known (by simp [h]))]; exact h, row_id⟩
      · rintro ⟨row, h, row_id⟩
        split at h
        next =>
          cases h
          exact absurd row_id same
        next => exact ⟨row, h, row_id⟩
  · intro parentId k
    simp only [Work.emit_state, Work.change_state, rows]
    have bucket : k ∈ childKeys (addAgent w.state key (placeholder w.state key id now)) parentId ↔
        (k = key ∧ (placeholder w.state key id now).agent.parentId = some parentId) ∨
          k ∈ childKeys w.state parentId := by
      have refreshed := mem_childKeys_refresh
        (s := { w.state with agents := w.state.agents.put key (placeholder w.state key id now) })
        (Dictionary.get?_put_self _ key _) none parentId k
      simpa [addAgent, childKeys] using refreshed
    have rowParent := congrArg AgentRow.parentId (placeholder_row w.state key id now)
    simp only [AgentRecord.row] at rowParent
    rw [bucket, rowParent, sound.children]
    constructor
    · rintro (⟨rfl, joined⟩ | ⟨row, h, row_parent⟩)
      · exact ⟨_, by rw [if_pos rfl], joined⟩
      · exact ⟨row, by rw [if_neg (ne_of_known (by simp [h]))]; exact h, row_parent⟩
    · rintro ⟨row, h, row_parent⟩
      split at h
      next same =>
        cases h
        exact .inl ⟨same.symm, row_parent⟩
      next => exact .inr ⟨row, h, row_parent⟩
  · intro k h
    simp only [Work.emit_state, Work.change_state, rows]
    split
    next => rfl
    next ne =>
      simp only [Work.emit_state, Work.change_state, addAgent, refreshAgentIndex_rootKey,
        Option.or_eq_some_iff, Option.some.injEq] at h
      rcases h with old | ⟨_, same⟩
      · exact sound.root k old
      · exact absurd same ne

end Create

/-! ### Moving an agent -/

section Move

variable {ids : IdSource} {w : Work} {key : Key} {record : AgentRecord}

theorem assign_differing_parentId (parentId : Option String) (clears : Bool) (agent : Agent) :
    (((moveChanges parentId clears).differing agent).assign agent).parentId = parentId := by
  by_cases same : parentId = agent.parentId <;>
    simp [moveChanges, AgentChanges.differing, AgentChanges.assign, Option.filter, same]

theorem assign_id (changes : AgentChanges) (agent : Agent) : (changes.assign agent).id = agent.id :=
  rfl

theorem movedRecord_row (record : AgentRecord) (parentKey : Option Key)
    (parentId : Option String) (clears : Bool) :
    (movedRecord parentKey clears ((moveChanges parentId clears).differing record.agent)
      record).row = ⟨record.agent.id, parentId, parentKey⟩ := by
  simp only [movedRecord, AgentRecord.row, assign_differing_parentId, assign_id]

theorem TreeSound.move (sound : TreeSound ids w) {parentKey : Option Key}
    {parentId : Option String} {clears : Bool} {changes : AgentChanges} {s : ThreadState}
    {events : List EventPayload}
    (agents : s.agents = w.state.agents.modify key (movedRecord parentKey clears changes))
    (indexes : s.indexes = w.state.indexes) (root : s.rootKey = w.state.rootKey)
    (known : w.state.agents.get? key = some record)
    (parent : parentId = parentKey.bind (agentIdOf w.state))
    (parentKnown : ∀ p, parentKey = some p → (w.state.agents.get? p).isSome)
    (acyclic : ∀ p, parentKey = some p → ¬ Reaches (parentOf w.state) p key)
    (differing : changes = (moveChanges parentId clears).differing record.agent) :
    TreeSound ids { w with
      state := refreshAgentIndex s key record.agent.parentId
      events := events } := by
  have moved : s.agents.get? key = some (movedRecord parentKey clears changes record) := by
    simp [agents, known]
  have moved_row : (movedRecord parentKey clears changes record).row =
      ⟨record.agent.id, parentId, parentKey⟩ := by
    rw [differing, movedRecord_row]
  have rows : ∀ k, agentRow (refreshAgentIndex s key record.agent.parentId) k =
      if key = k then some ⟨record.agent.id, parentId, parentKey⟩ else agentRow w.state k := by
    intro k
    simp only [agentRow, refreshAgentIndex_agents, agents, Dictionary.get?_modify]
    split
    next same => simp [known, moved_row]
    next => rfl
  have old_row : agentRow w.state key = some record.row := by simp [agentRow, known]
  have sameIds : agentIdOf (refreshAgentIndex s key record.agent.parentId) =
      agentIdOf w.state := by
    funext k
    rw [agentIdOf_eq, agentIdOf_eq, rows]
    split
    next same => rw [← same, old_row]; rfl
    next => rfl
  have parents : parentOf (refreshAgentIndex s key record.agent.parentId) =
      redirect (parentOf w.state) key parentKey := by
    funext k
    simp only [redirect, parentOf_eq, rows, eq_comm (a := k)]
    split <;> rfl
  constructor
  · intro k row h
    simp only [rows] at h
    split at h
    next =>
      cases h
      exact sound.drawn key record.row old_row
    next => exact sound.drawn k row h
  · intro k row h
    simp only [rows, sameIds] at h ⊢
    split at h
    next =>
      cases h
      exact parent
    next => exact sound.parentId k row h
  · intro k p h
    simp only [parents, redirect, rows] at h ⊢
    have p_known : (agentRow w.state p).isSome := by
      split at h
      next => simpa [agentRow] using parentKnown p h
      next => exact sound.parentKnown k p h
    split
    · rfl
    · exact p_known
  · simp only [parents]
    exact sound.acyclic.redirect acyclic
  · intro id k
    simp only [rows, refreshAgentIndex_keysById moved, indexes]
    have keeps : w.state.indexes.agentKeysById.put record.agent.id key =
        w.state.indexes.agentKeysById :=
      Dictionary.put_eq_self ((sound.keysById _ _).mpr ⟨record.row, old_row, rfl⟩)
    have moved_id : (movedRecord parentKey clears changes record).agent.id = record.agent.id := rfl
    rw [moved_id, keeps, sound.keysById]
    constructor
    · rintro ⟨row, h, row_id⟩
      split
      next same =>
        subst same
        rw [old_row] at h
        cases h
        exact ⟨_, rfl, row_id⟩
      next => exact ⟨row, h, row_id⟩
    · rintro ⟨row, h, row_id⟩
      split at h
      next same =>
        cases h
        exact ⟨record.row, same ▸ old_row, row_id⟩
      next => exact ⟨row, h, row_id⟩
  · intro parent' k
    simp only [rows, mem_childKeys_refresh moved]
    have moved_parent : (movedRecord parentKey clears changes record).agent.parentId = parentId :=
      congrArg AgentRow.parentId moved_row
    have unchanged : childKeys s parent' = childKeys w.state parent' := by
      simp only [childKeys, indexes]
    rw [moved_parent, unchanged, sound.children]
    constructor
    · rintro (⟨rfl, joined⟩ | ⟨⟨row, h, row_parent⟩, stays⟩)
      · exact ⟨_, by rw [if_pos rfl], joined⟩
      · by_cases same : key = k
        · subst same
          rw [old_row] at h
          cases h
          have kept : record.agent.parentId = parentId := by
            by_contra moved_away
            exact stays ⟨rfl, row_parent, moved_away⟩
          refine ⟨_, by rw [if_pos rfl], ?_⟩
          rw [← kept]
          exact row_parent
        · exact ⟨row, by rw [if_neg same]; exact h, row_parent⟩
    · rintro ⟨row, h, row_parent⟩
      split at h
      next same =>
        cases h
        exact .inl ⟨same.symm, row_parent⟩
      next ne => exact .inr ⟨⟨row, h, row_parent⟩, fun moved_away => ne moved_away.1.symm⟩
  · intro k h
    simp only [rows, refreshAgentIndex_rootKey, root] at h ⊢
    split
    · rfl
    · exact sound.root k h

end Move

/-! ### Every step keeps the tree -/

section Steps

variable {ids : IdSource} {w w' : Work}

theorem TreeStep.treeSound (sound : TreeSound ids w) (step : TreeStep ids w w') :
    TreeSound ids w' := by
  cases step with
  | draw => exact sound.of_same (.of_agents rfl rfl rfl rfl) (Nat.le_succ _)
  | passive s same =>
    exact sound.of_same
      (.of_agents same.agents same.agentKeysById same.childrenByParent same.rootKey) le_rfl
  | passiveEvent => exact sound.of_same (.of_agents rfl rfl rfl rfl) le_rfl
  | createAgent key id now unknown fresh => exact sound.createAgent unknown fresh
  | touch key f soft =>
    refine sound.of_same (.of_modify rfl ?_ rfl rfl rfl) le_rfl
    intro record
    simp only [AgentRecord.row, soft.agent, soft.parentKey]
  | changeAgent key record changes known stays =>
    refine sound.of_same (.of_modify rfl ?_ rfl rfl rfl) le_rfl
    intro record
    simp [AgentRecord.row, AgentChanges.assign, stays]
  | move key record parentKey parentId clears known parent parentKnown acyclic changes differing =>
    exact sound.move rfl rfl rfl known parent parentKnown acyclic differing
  | setRoot key known =>
    constructor
    · exact sound.drawn
    · exact sound.parentId
    · exact sound.parentKnown
    · exact sound.acyclic
    · exact sound.keysById
    · exact sound.children
    · rintro k ⟨⟩
      simpa [agentRow] using known
  | announce => exact sound.of_same (.of_agents rfl rfl rfl rfl) le_rfl
  | setStatus key record status relevant known =>
    exact sound.of_same (.of_modify rfl (fun _ => rfl) rfl rfl rfl) le_rfl
  | threadStatus => exact sound.of_same (.of_agents rfl rfl rfl rfl) le_rfl
  | writeItem => exact sound.of_same (.of_agents rfl rfl rfl rfl) le_rfl
  | deltaItem => exact sound.of_same (.of_agents rfl rfl rfl rfl) le_rfl

theorem storeRun_sameTree (s : ThreadState) (key : Key) (run : Run) :
    SameTree s (storeRun s key run) := by
  unfold storeRun
  split
  · exact .of_agents rfl rfl rfl rfl
  · exact .of_modify rfl (fun _ => rfl) rfl rfl rfl

theorem putInteraction_sameTree (s : ThreadState) (key : Key) (row : Interaction) :
    SameTree s (putInteraction s key row) := .of_agents rfl rfl rfl rfl

theorem putTask_sameTree (s : ThreadState) (key : Key) (row : BackgroundTask) :
    SameTree s (putTask s key row) := .of_agents rfl rfl rfl rfl

theorem SameTree.trans {s s' s'' : ThreadState} (h : SameTree s s') (h' : SameTree s' s'') :
    SameTree s s'' where
  rows key := (h'.rows key).trans (h.rows key)
  keysById := h'.keysById.trans h.keysById
  children := h'.children.trans h.children
  root := h'.root.trans h.root

theorem Step.treeSound (sound : TreeSound ids w) (step : Step ids w w') : TreeSound ids w' := by
  cases step with
  | tree step => exact step.treeSound sound
  | startRun key record run f known idle new active starts =>
    refine sound.of_same (.of_modify (f := f) rfl ?_ rfl rfl rfl) le_rfl
    intro record
    simp only [AgentRecord.row, (starts record).1, (starts record).2.1]
  | recordRun key record run known new state endedBy trigger endedAt =>
    exact sound.of_same ((storeRun_sameTree w.state key
      (endedRun run state endedBy trigger endedAt)).trans (.of_agents rfl rfl rfl rfl)) le_rfl
  | endRun key record run f known active stored state endedBy trigger endedAt settled ends =>
    refine sound.of_same (.of_modify (f := f) rfl ?_ rfl rfl rfl) le_rfl
    intro record
    simp only [AgentRecord.row, (ends record).1, (ends record).2.1]
  | retrigger => exact sound.of_same (.of_agents rfl rfl rfl rfl) le_rfl
  | openInteraction key interaction =>
    refine sound.of_same (SameTree.trans ?_ (putInteraction_sameTree _ key interaction)) le_rfl
    unfold archiveInteraction
    split <;> exact .of_agents rfl rfl rfl rfl
  | closeInteraction => exact sound.of_same (.of_agents rfl rfl rfl rfl) le_rfl
  | startTask key task =>
    refine sound.of_same (SameTree.trans ?_ (putTask_sameTree _ key task)) le_rfl
    unfold archiveTask
    split <;> exact .of_agents rfl rfl rfl rfl
  | refineTask => exact sound.of_same (.of_agents rfl rfl rfl rfl) le_rfl
  | settleTask => exact sound.of_same (.of_agents rfl rfl rfl rfl) le_rfl

end Steps

end Ace
