import Ace.Properties.Soundness

/-!
# The commands on agents and links

What `tree.ts` does, as steps. The commands that move agents have a precondition: the new
parent is known. It holds where they are called, since the parent is ensured first or comes
from the index.
-/

namespace Ace

open Script Script.Command

section

variable {ids : IdSource} {w w' w'' : Work}

/-! ### What steps on agents and items keep -/

theorem agentIdOf_of_modify {s s' : ThreadState} {key : Key} {f : AgentRecord → AgentRecord}
    (agents : s'.agents = s.agents.modify key f) (keeps : ∀ r, (f r).agent.id = r.agent.id)
    (k : Key) : agentIdOf s' k = agentIdOf s k := by
  simp only [agentIdOf, agents, Dictionary.get?_modify]
  split
  next same =>
    subst same
    cases s.agents.get? key <;> simp [keeps]
  next => rfl

theorem TreeStep.agentIdOf (step : TreeStep ids w w') {k : Key} {id : String}
    (h : agentIdOf w.state k = some id) : agentIdOf w'.state k = some id := by
  have modified : ∀ {key : Key} {f : AgentRecord → AgentRecord},
      w'.state.agents = w.state.agents.modify key f → (∀ r, (f r).agent.id = r.agent.id) →
      Ace.agentIdOf w'.state k = some id := by
    intro key f agents keeps
    rw [agentIdOf_of_modify agents keeps]
    exact h
  cases step with
  | passive s same =>
    simp only [Ace.agentIdOf, same.agents]
    exact h
  | createAgent key new now unknown =>
    simp only [Ace.agentIdOf, Work.emit_state, Work.change_state, addAgent_agents,
      Dictionary.get?_put]
    split
    next same =>
      subst same
      simp [Ace.agentIdOf, unknown] at h
    next => exact h
  | touch key f soft =>
    refine modified rfl ?_
    intro record
    rw [soft.agent]
  | changeAgent => exact modified rfl fun _ => rfl
  | move => exact modified (refreshAgentIndex_agents ..) fun _ => rfl
  | setStatus => exact modified rfl fun _ => rfl
  | _ => exact h

theorem TreeSteps.agentIdOf (steps : TreeSteps ids w w') {k : Key} {id : String}
    (h : agentIdOf w.state k = some id) : agentIdOf w'.state k = some id := by
  induction steps with
  | refl => exact h
  | tail _ step ih => exact step.agentIdOf ih

theorem TreeSteps.known (steps : TreeSteps ids w w') {k : Key}
    (h : (w.state.agents.get? k).isSome) : (w'.state.agents.get? k).isSome := by
  obtain ⟨record, found⟩ := Option.isSome_iff_exists.mp h
  have kept : Ace.agentIdOf w'.state k = some record.agent.id :=
    steps.agentIdOf (by simp [Ace.agentIdOf, found])
  cases later : w'.state.agents.get? k with
  | none => simp [Ace.agentIdOf, later] at kept
  | some _ => rfl

/-- Steps that leave the items alone. -/
structure AgentSteps (ids : IdSource) (w w' : Work) : Prop where
  steps : TreeSteps ids w w'
  items : w'.state.items = w.state.items

theorem AgentSteps.refl (w : Work) : AgentSteps ids w w := ⟨.refl, rfl⟩

theorem AgentSteps.trans (h : AgentSteps ids w w') (h' : AgentSteps ids w' w'') :
    AgentSteps ids w w'' := ⟨h.steps.trans h'.steps, h'.items.trans h.items⟩

theorem AgentSteps.single (step : TreeStep ids w w') (items : w'.state.items = w.state.items) :
    AgentSteps ids w w' := ⟨.single step, items⟩

theorem AgentSteps.sound (h : AgentSteps ids w w') (sound : Sound ids w) : Sound ids w' :=
  Steps.sound sound h.steps.steps

theorem keeps_of_agentSteps {α : Type} {m : Fold α}
    (h : ∀ w, Sound ids w → Ensures m w fun _ w' => AgentSteps ids w w') :
    Keeps (TreeEvolves ids) m := by
  intro w a w' run sound
  exact (h w sound a w' run).steps

/-! ### Known agents -/

/-- The work after an unknown agent was created. -/
def createdAgent (ctx : ApplyContext) (w : Work) (key : Key) : Work :=
  let record := placeholder w.state key (ctx.ids .agent w.drawn) ctx.now
  (({ w with drawn := w.drawn + 1 } : Work).change (addAgent · key record)).emit
    (.agentCreated record.agent)

theorem ensureAgent_cases (ctx : ApplyContext) (key : Key) (w : Work) :
    Ensures (ensureAgent ctx key) w fun record w' =>
      (w.state.agents.get? key = some record ∧ w' = w) ∨
      (w.state.agents.get? key = none ∧ w' = createdAgent ctx w key ∧
        record = placeholder w.state key (ctx.ids .agent w.drawn) ctx.now) := by
  unfold ensureAgent
  simp only [ensures_bind, ensures_getState]
  split
  next existing known =>
    rw [ensures_pure]
    exact .inl ⟨known, rfl⟩
  next unknown =>
    simp only [ensures_bind]
    apply ensures_nextId
    simp only [ensures_changeState, ensures_emit, ensures_pure]
    exact .inr ⟨unknown, rfl, trivial⟩

theorem createdAgent_known (ctx : ApplyContext) (w : Work) (key : Key) :
    (createdAgent ctx w key).state.agents.get? key =
      some (placeholder w.state key (ctx.ids .agent w.drawn) ctx.now) := by
  simp [createdAgent, addAgent_agents]

variable {ctx : ApplyContext} (fresh : FreshIds ctx.ids)

include fresh in
theorem createdAgent_steps (sound : Sound ctx.ids w) {key : Key}
    (unknown : w.state.agents.get? key = none) : AgentSteps ctx.ids w (createdAgent ctx w key) := by
  have drawn : AgentSteps ctx.ids w { w with drawn := w.drawn + 1 } := .single (.draw w) rfl
  exact drawn.trans (.single
    (.createAgent { w with drawn := w.drawn + 1 } key _ ctx.now unknown
      (freshAgent_next fresh sound)) (addAgent_items ..))

/-- What a caller learns from `ensureAgent`. -/
structure Ensured (ids : IdSource) (w w' : Work) (key : Key) (record : AgentRecord) : Prop
    extends AgentSteps ids w w' where
  known : w'.state.agents.get? key = some record
  kept : ∀ k r, w.state.agents.get? k = some r → w'.state.agents.get? k = some r
  idle : w.state.agents.get? key = none →
    record.activeRun = none ∧ record.lastRun = none ∧ record.nativeRuns = .empty

include fresh in
theorem ensureAgent_spec (sound : Sound ctx.ids w) (key : Key) :
    Ensures (ensureAgent ctx key) w fun record w' => Ensured ctx.ids w w' key record := by
  refine Ensures.mono (ensureAgent_cases ctx key w) ?_
  rintro record w' (⟨known, rfl⟩ | ⟨unknown, rfl, rfl⟩)
  · exact ⟨.refl _, known, fun _ _ h => h, fun unknown => by simp [known] at unknown⟩
  · refine ⟨createdAgent_steps fresh sound unknown, createdAgent_known .., ?_, ?_⟩
    · intro k r h
      have ne : key ≠ k := by
        rintro rfl
        simp [unknown] at h
      simp only [createdAgent, Work.emit_state, Work.change_state, addAgent_agents,
        Dictionary.get?_put, if_neg ne]
      exact h
    · exact fun _ => ⟨rfl, rfl, rfl⟩

include fresh in
theorem ensureAgent_keeps (key : Key) : Keeps (TreeEvolves ctx.ids) (ensureAgent ctx key) := by
  intro w a w' run sound
  exact (ensureAgent_spec fresh sound key a w' run).steps

/-! ### Changing and moving an agent -/

theorem changeAgent_spec (ids : IdSource) {fields : AgentChanges}
    (stays : fields.parentId = none) (key : Key) (w : Work) :
    Ensures (changeAgent key fields) w fun _ w' => AgentSteps ids w w' := by
  unfold changeAgent
  simp only [ensures_bind, ensures_getState]
  split
  next => simp
  next record known =>
    split
    · simpa using AgentSteps.refl w
    · simp only [ensures_bind, ensures_changeRecord, ensures_emit]
      refine .single (.changeAgent w key record _ known ?_) rfl
      simp [AgentChanges.differing, stays]

/-- The work after an agent was moved: the result of the step `move`. -/
def movedAgent (w : Work) (key : Key) (record : AgentRecord) (parentKey : Option Key)
    (parentId : Option String) (clearsSpawn : Bool) : Work :=
  let changes := (moveChanges parentId clearsSpawn).differing record.agent
  { w.change (fun s => refreshAgentIndex
      { s with agents := s.agents.modify key (movedRecord parentKey clearsSpawn changes) }
      key record.agent.parentId) with
    events := w.events ++ if changes = {} then [] else [.agentUpdated record.agent.id changes] }

theorem moveAgent_eq {key : Key} {record : AgentRecord}
    (known : w.state.agents.get? key = some record) (parentKey : Option Key)
    (parentId : Option String) (clearsSpawn : Bool) :
    Ensures (moveAgent key parentKey parentId clearsSpawn) w fun _ w' =>
      w' = movedAgent w key record parentKey parentId clearsSpawn := by
  unfold moveAgent changeAgent
  simp only [ensures_bind, ensures_changeRecord, ensures_getState, ensures_changeState,
    Work.change_state, Dictionary.get?_modify_self, known, Option.map_some, Option.bind_some]
  have fields : ({ parentId := some parentId, spawnedBy := if clearsSpawn then some none else none } :
      AgentChanges) = moveChanges parentId clearsSpawn := rfl
  rw [fields]
  split
  next same =>
    simp only [ensures_pure, movedAgent, same, if_true, List.append_nil]
    rfl
  next ne =>
    simp only [ensures_bind, ensures_changeRecord, ensures_emit, movedAgent, ne, if_false]
    simp only [Work.change, Work.emit, Dictionary.modify_modify]
    rfl

theorem parentOf_complete (s : ThreadState) (k : Key) (h : (parentOf s k).isSome) :
    k ∈ s.agents.keys := by
  rw [Dictionary.mem_keys_iff]
  cases known : s.agents.get? k with
  | none => simp [parentOf, known] at h
  | some _ => rfl

theorem mem_ancestors_iff (s : ThreadState) (start key : Key) :
    key ∈ ancestors s (some start) ↔ Reaches (parentOf s) start key :=
  mem_walk_iff (parentOf_complete s) le_rfl start key

include fresh in
theorem setParent_spec (sound : Sound ctx.ids w) (key : Key) (parentKey : Option Key)
    (parentKnown : ∀ p, parentKey = some p → (w.state.agents.get? p).isSome) :
    Ensures (setParent ctx key parentKey) w fun _ w' => AgentSteps ctx.ids w w' := by
  unfold setParent
  simp only [ensures_bind]
  refine Ensures.mono (ensureAgent_spec fresh sound key) ?_
  intro record w₁ ensured
  rw [ensures_refuse]
  intro _
  have move : ∀ clears, (∀ p, parentKey = some p → ¬ Reaches (parentOf w₁.state) p key) →
      Ensures (moveAgent key parentKey (parentKey.bind (agentIdOf w₁.state)) clears) w₁
        fun _ w' => AgentSteps ctx.ids w w' := by
    intro clears acyclic
    refine Ensures.mono (moveAgent_eq ensured.known _ _ _) ?_
    rintro _ _ rfl
    refine ensured.toAgentSteps.trans (.single (.move w₁ key record parentKey _ clears ensured.known
      rfl ?_ acyclic _ rfl) (refreshAgentIndex_items ..))
    intro p is_parent
    exact ensured.steps.known (parentKnown p is_parent)
  cases parentKey with
  | none => exact move _ (by simp)
  | some p =>
    simp only [ensures_bind, ensures_getState, ensures_refuse]
    intro no_cycle
    rw [mem_ancestors_iff] at no_cycle
    -- The parent is known, so ensuring it changes nothing.
    obtain ⟨parent, found⟩ := Option.isSome_iff_exists.mp (ensured.steps.known (parentKnown p rfl))
    refine Ensures.mono (ensureAgent_cases ctx p w₁) ?_
    rintro record' w₂ (⟨known, rfl⟩ | ⟨unknown, -⟩)
    · have parentId : (some p).bind (agentIdOf w₂.state) = some record'.agent.id := by
        simp [agentIdOf, known]
      rw [← parentId]
      apply move
      rintro _ ⟨⟩
      exact no_cycle
    · simp [found] at unknown

include fresh in
theorem adoptRoot_spec (sound : Sound ctx.ids w) {key : Key}
    (known : (w.state.agents.get? key).isSome) :
    Ensures (adoptRoot ctx key) w fun _ w' => AgentSteps ctx.ids w w' := by
  unfold adoptRoot
  simp only [ensures_bind, ensures_getState, ensures_changeState]
  have first : AgentSteps ctx.ids w (w.change fun s => { s with rootKey := some key }) :=
    .single (.setRoot w key known) rfl
  refine Ensures.mono (setParent_spec fresh (first.sound sound) key none (by simp)) ?_
  intro _ w₁ moved
  have second := first.trans moved
  refine Ensures.mono (ensureAgent_spec fresh (second.sound sound) key) ?_
  intro _ w₂ ensured
  have third := second.trans ensured.toAgentSteps
  refine Ensures.mono (changeAgent_spec ctx.ids rfl key w₂) ?_
  intro _ w₃ changed
  have fourth := third.trans changed
  split
  next => simpa using fourth
  next oldRootKey _ =>
    split
    · simpa using fourth
    · simp only [ensures_bind, ensures_getState]
      split
      next => simpa using fourth
      next =>
        split
        · simp only [ensures_bind]
          refine Ensures.mono (setParent_spec fresh (fourth.sound sound) oldRootKey (some key) ?_) ?_
          · rintro _ ⟨⟩
            exact fourth.steps.known known
          · intro _ w₄ below
            refine Ensures.mono (changeAgent_spec ctx.ids rfl oldRootKey w₄) ?_
            intro _ w₅ last
            exact (fourth.trans below).trans last
        · simpa using fourth

include fresh in
theorem ensureParent_spec (sound : Sound ctx.ids w) (key parentKey : Key) :
    Ensures (ensureParent ctx key parentKey) w fun _ w' =>
      AgentSteps ctx.ids w w' ∧ (w'.state.agents.get? parentKey).isSome := by
  unfold ensureParent
  simp only [ensures_bind, ensures_refuse]
  intro _
  refine Ensures.mono (ensureAgent_spec fresh sound parentKey) ?_
  intro record w₁ ensured
  have known : (w₁.state.agents.get? parentKey).isSome := by simp [ensured.known]
  simp only [ensures_getState, ensures_when]
  refine ⟨fun _ => ?_, fun _ => ⟨ensured.toAgentSteps, known⟩⟩
  refine Ensures.mono (adoptRoot_spec fresh (ensured.sound sound) known) ?_
  intro _ w₂ adopted
  exact ⟨ensured.toAgentSteps.trans adopted, adopted.steps.known known⟩

/-! ### Items that learn an id -/

theorem updateItem_spec (sound : Sound ids w) {key : Key} {item next : Value}
    (known : w.state.items.get? key = some item) (edits : Edits item next) :
    Ensures (updateItem key next) w fun _ w' => TreeSteps ids w w' := by
  have refreshed : ∀ {index : Dictionary Unit} {live : Value → Bool},
      Indexes index w.state.items live → live next = live item →
      Refreshed index index key (live next) := by
    intro index live exact_index same k
    split
    next is_key =>
      subst is_key
      have there := exact_index k
      rw [known] at there
      cases found : index.get? k <;> simp_all
    next => rfl
  unfold updateItem
  simp only [ensures_bind, ensures_changeState, ensures_emit]
  have identity : KeepsIdentity ids w key next := edits.keepsIdentity known
  have step := TreeStep.writeItem w key next w.state.indexes.liveTools w.state.indexes.openText
    w.state.indexes.pendingItemLinks (edits.isItem (sound.rows.shape key item known)) identity
    (refreshed sound.indexes.liveTools edits.isLiveTool)
    (refreshed sound.indexes.openText edits.isOpenText)
  have there : w.state.items.contains key = true := by simp [Dictionary.contains, known]
  rw [if_pos there] at step
  exact .single step

theorem passive_bookkeeping (s : ThreadState) (initialRoot : Option RootAgentInit)
    (processExit : Option ProcessExit) (lastTransportSignalAt statusObservedAt : Option Nat)
    (outcomeOrder : Nat) (pendingNotices : List PendingNotice)
    (rejectionNotices : Option RejectionNotices) (itemLinks : Dictionary ItemLinks)
    (queueCount : Nat) (queueSources : QueueSources) (queueHeld queueStopped : Bool)
    (pendingSpawnLinks : Dictionary (Dictionary Unit)) (pendingItemLinks : Dictionary Unit) :
    Passive s { s with
      initialRoot, processExit, lastTransportSignalAt, statusObservedAt, outcomeOrder
      pendingNotices, rejectionNotices, itemLinks, queueCount, queueSources, queueHeld
      queueStopped
      indexes := { s.indexes with pendingSpawnLinks, pendingItemLinks } } :=
  ⟨rfl, rfl, rfl, rfl, rfl, rfl, rfl, rfl, rfl, rfl, rfl, rfl, rfl, .rfl, .rfl, .rfl, .rfl⟩

theorem softChange_spawnedByKey (spawnedByKey : Option Key) :
    SoftChange fun record => { record with spawnedByKey } :=
  ⟨fun _ => rfl, fun _ => rfl, fun _ => rfl, fun _ => rfl⟩

theorem joinSpawnLink_spec (ids : IdSource) (itemKey : Key) (item : Value) (key : Key) (w : Work) :
    Ensures (joinSpawnLink itemKey item key) w fun _ w' => AgentSteps ids w w' := by
  unfold joinSpawnLink
  simp only [ensures_bind, ensures_getState]
  split
  next => simpa using AgentSteps.refl w
  next record known =>
    split
    · simpa using AgentSteps.refl w
    · simp only [ensures_bind, ensures_getState]
      refine Ensures.mono (changeAgent_spec ids rfl key w) ?_
      intro _ w₁ changed
      split
      · simp only [ensures_changeState]
        exact changed.trans (.single (.passive w₁ _ (passive_bookkeeping ..)) rfl)
      · simpa using changed

theorem joinSpawnLinks_spec (ids : IdSource) (itemKey : Key) (agents : List Key) (w : Work) :
    Ensures (joinSpawnLinks itemKey agents) w fun _ w' => AgentSteps ids w w' := by
  unfold joinSpawnLinks
  simp only [ensures_bind, ensures_getState]
  split
  next => simpa using AgentSteps.refl w
  next item _ =>
    simp only [ensures_bind, ensures_changeState]
    have loop : Ensures (agents.forM (joinSpawnLink itemKey item)) w
        fun _ w' => AgentSteps ids w w' :=
      ensures_forM agents (fun key _ w₁ before =>
        Ensures.mono (joinSpawnLink_spec ids itemKey item key w₁)
          fun _ _ joined => before.trans joined) w (.refl w)
    refine Ensures.mono loop ?_
    intro _ w₁ joined
    exact joined.trans (.single (.passive w₁ _ (passive_bookkeeping ..)) rfl)

include fresh in
theorem joinItemLink_spec (sound : Sound ctx.ids w) (key : Key) :
    Ensures (joinItemLink ctx key) w fun _ w' => TreeSteps ctx.ids w w' := by
  unfold joinItemLink
  simp only [ensures_bind, ensures_getState]
  split
  next links item found_links found =>
    split
    next => simpa using Relation.ReflTransGen.refl
    next linkedKey _ =>
      simp only [ensures_bind]
      refine Ensures.mono (ensureAgent_spec fresh sound linkedKey) ?_
      intro linked w₁ ensured
      -- The item is announced in a state that still has it as it was read.
      have announce : ∀ {w₂ : Work} (name : String) (value : Value), AgentSteps ctx.ids w w₂ →
          Ensures (updateItem key (Item.setDetail item name value)) w₂
            fun _ w' => TreeSteps ctx.ids w w' := by
        intro w₂ name value before
        have known : w₂.state.items.get? key = some item := by rw [before.items, found]
        refine Ensures.mono (updateItem_spec (before.sound sound) known
          (edits_setDetail (sound.rows.shape key item found) name value)) ?_
        intro _ w₃ updated
        exact before.steps.trans updated
      split
      · split
        · simp only [ensures_bind, ensures_changeRecord, ensures_getState]
          have named := ensured.toAgentSteps.trans
            (.single (.touch w₁ linkedKey _ (softChange_spawnedByKey (some key))) rfl)
          refine Ensures.mono (setParent_spec fresh (named.sound sound) linkedKey _ ?_) ?_
          · intro p indexed
            obtain ⟨row, known, _⟩ := ((named.sound sound).tree.keysById _ p).mp indexed
            simpa [agentRow] using Option.isSome_of_eq_some known
          · intro _ w₂ moved
            refine Ensures.mono (changeAgent_spec ctx.ids rfl linkedKey w₂) ?_
            intro _ w₃ changed
            exact announce _ _ ((named.trans moved).trans changed)
        · simpa using ensured.steps
      · split
        · exact announce _ _ ensured.toAgentSteps
        · simpa using ensured.steps
  next => simpa using Relation.ReflTransGen.refl

include fresh in
theorem reconcileLinks_keeps : Keeps (TreeEvolves ctx.ids) (reconcileLinks ctx) := by
  unfold reconcileLinks
  refine Keeps.bind (keeps_getState _) fun state => ?_
  refine Keeps.bind (Keeps.forM fun entry _ => ?_) fun _ => ?_
  · exact keeps_of_agentSteps fun w _ => joinSpawnLinks_spec ctx.ids entry.1 entry.2.keys w
  refine Keeps.bind (keeps_getState _) fun state => ?_
  refine Keeps.forM fun key _ => Keeps.bind ?_ fun _ => ?_
  · intro w a w' run sound
    exact joinItemLink_spec fresh sound key a w' run
  · exact keeps_passive fun s => passive_bookkeeping ..

theorem nameSpawn_spec (ids : IdSource) (key spawnedBy : Key) (w : Work) :
    Ensures (nameSpawn key spawnedBy) w fun _ w' => AgentSteps ids w w' := by
  unfold nameSpawn
  simp only [ensures_bind, ensures_changeRecord, ensures_changeState]
  have named : AgentSteps ids w _ :=
    .single (.touch w key _ (softChange_spawnedByKey (some spawnedBy))) rfl
  exact named.trans (.single (.passive _ _ (passive_bookkeeping ..)) rfl)

include fresh in
theorem whenSome_ensureParent_spec (sound : Sound ctx.ids w) (key : Key) (parent : Option Key) :
    Ensures (whenSome parent (ensureParent ctx key)) w fun _ w' => AgentSteps ctx.ids w w' ∧
      ∀ p, parent = some p → (w'.state.agents.get? p).isSome := by
  rw [ensures_whenSome]
  constructor
  · rintro p rfl
    refine Ensures.mono (ensureParent_spec fresh sound key p) ?_
    rintro _ w' ⟨steps, known⟩
    refine ⟨steps, ?_⟩
    rintro _ ⟨⟩
    exact known
  · rintro rfl
    exact ⟨.refl w, by simp⟩

include fresh in
theorem whenSome_setParent_spec (sound : Sound ctx.ids w) (key : Key) {parent : Option Key}
    (parentKnown : ∀ p, parent = some p → (w.state.agents.get? p).isSome) :
    Ensures (whenSome parent fun parent => setParent ctx key (some parent)) w
      fun _ w' => AgentSteps ctx.ids w w' := by
  rw [ensures_whenSome]
  refine ⟨fun p named => ?_, fun _ => .refl w⟩
  refine setParent_spec fresh sound key (some p) ?_
  rintro _ ⟨⟩
  exact parentKnown p named

theorem whenSome_nameSpawn_spec (ids : IdSource) (key : Key) (spawnedBy : Option Key) (w : Work) :
    Ensures (whenSome spawnedBy (nameSpawn key)) w fun _ w' => AgentSteps ids w w' := by
  rw [ensures_whenSome]
  exact ⟨fun item _ => nameSpawn_spec ids key item w, fun _ => .refl w⟩

include fresh in
theorem linkAgent_keeps (fact : AgentLinkedFact) :
    Keeps (TreeEvolves ctx.ids) (linkAgent ctx fact) := by
  intro w a w' run sound
  revert a w'
  show Ensures (linkAgent ctx fact) w fun _ w' => TreeSteps ctx.ids w w'
  unfold linkAgent
  simp only [ensures_bind]
  refine Ensures.mono (whenSome_ensureParent_spec fresh sound fact.agent fact.parent) ?_
  rintro _ w₁ ⟨parents, parentKnown⟩
  refine Ensures.mono (ensureAgent_spec fresh (parents.sound sound) fact.agent) ?_
  intro record w₂ ensured
  have first := parents.trans ensured.toAgentSteps
  refine Ensures.mono (whenSome_setParent_spec fresh (first.sound sound) fact.agent
    fun p named => ensured.steps.known (parentKnown p named)) ?_
  intro _ w₃ moved
  refine Ensures.mono (whenSome_nameSpawn_spec ctx.ids fact.agent fact.spawnedBy w₃) ?_
  intro _ w₄ named
  refine Ensures.mono (changeAgent_spec ctx.ids rfl fact.agent w₄) ?_
  intro _ w₅ changed
  have before := ((first.trans moved).trans named).trans changed
  refine Ensures.mono (reconcileLinks_keeps fresh w₅) ?_
  intro _ w₆ reconciled
  exact before.steps.trans (reconciled (before.sound sound))

include fresh in
theorem seeAgent_keeps (fact : AgentSeenFact) :
    Keeps (TreeEvolves ctx.ids) (seeAgent ctx fact) := by
  intro w a w' run sound
  revert a w'
  show Ensures (seeAgent ctx fact) w fun _ w' => TreeSteps ctx.ids w w'
  unfold seeAgent
  simp only [ensures_bind]
  refine Ensures.mono (whenSome_ensureParent_spec fresh sound fact.agent fact.parent) ?_
  rintro _ w₁ ⟨parents, parentKnown⟩
  refine Ensures.mono (ensureAgent_spec fresh (parents.sound sound) fact.agent) ?_
  intro record w₂ ensured
  have first := parents.trans ensured.toAgentSteps
  have adopted : Ensures (when (fact.origin = .root) (adoptRoot ctx fact.agent)) w₂
      fun _ w' => AgentSteps ctx.ids w₂ w' := by
    rw [ensures_when]
    refine ⟨fun _ => ?_, fun _ => .refl w₂⟩
    exact adoptRoot_spec fresh (first.sound sound) (by simp [ensured.known])
  refine Ensures.mono adopted ?_
  intro _ w₃ rooted
  have second := first.trans rooted
  have moved : Ensures (when (fact.origin ≠ .root)
      (whenSome fact.parent fun parent => setParent ctx fact.agent (some parent))) w₃
      fun _ w' => AgentSteps ctx.ids w₃ w' := by
    rw [ensures_when]
    refine ⟨fun _ => ?_, fun _ => .refl w₃⟩
    exact whenSome_setParent_spec fresh (second.sound sound) fact.agent
      fun p named => rooted.steps.known (ensured.steps.known (parentKnown p named))
  refine Ensures.mono moved ?_
  intro _ w₄ below
  refine Ensures.mono (whenSome_nameSpawn_spec ctx.ids fact.agent fact.spawnedBy w₄) ?_
  intro _ w₅ named
  refine Ensures.mono (changeAgent_spec ctx.ids rfl fact.agent w₅) ?_
  intro _ w₆ changed
  have before := ((second.trans below).trans named).trans changed
  refine Ensures.mono (reconcileLinks_keeps fresh w₆) ?_
  intro _ w₇ reconciled
  exact before.steps.trans (reconciled (before.sound sound))

include fresh in
theorem ensureInitialRoot_keeps : Keeps (TreeEvolves ctx.ids) (ensureInitialRoot ctx) := by
  unfold ensureInitialRoot
  intro w
  simp only [ensures_bind, ensures_getState]
  split
  next => simpa using Std.Refl.refl w
  next initial _ =>
    simp only [ensures_bind, ensures_changeState]
    refine Ensures.mono (seeAgent_keeps fresh initial.seen _) ?_
    intro _ w' seen
    exact (TreeStep.passive w _ (passive_bookkeeping ..)).evolves.trans seen

theorem announceAgentBranch_spec (ids : IdSource) (key : Key) (w : Work) :
    Ensures (announceAgentBranch key) w fun _ w' =>
      AgentSteps ids w w' ∧ w'.state = w.state := by
  unfold announceAgentBranch
  simp only [ensures_bind, ensures_get]
  refine ensures_forM (I := fun w' => AgentSteps ids w w' ∧ w'.state = w.state) _ ?_ w
    ⟨.refl w, rfl⟩
  rintro agent listed w₁ ⟨before, same⟩
  rw [ensures_emit]
  have stored : ∃ k record, w.state.agents.get? k = some record ∧ record.agent = agent := by
    have member := List.mem_reverse.mp (List.mem_of_mem_filter listed)
    simp only [List.mem_filterMap, Option.map_eq_some_iff] at member
    obtain ⟨k, _, record, known, is_agent⟩ := member
    exact ⟨k, record, known, is_agent⟩
  obtain ⟨k, record, known, rfl⟩ := stored
  exact ⟨before.trans (.single (.announce w₁ k record (same ▸ known)) rfl), same⟩

end

end Ace
