import Ace.Properties.PendingNotices

/-!
# Rejected facts

A fact that validation rejects changes nothing but the rejection diagnostics. Under a root it
writes one notice, new or counted up for the same fact in the same run of the root; without a
root it only waits. The first valid fact that leaves a root behind publishes what waited, in
order and once.

## Main result

`rejections_of_reachable`.
-/

namespace Ace

open Script Script.Command

section

variable {ids : IdSource} {w w' w'' : Work}

/-! ### Items are created once -/

/-- The ids of the items that events create. -/
def createdIds (events : List EventPayload) : List String :=
  events.filterMap fun
    | .itemCreated item => some (Item.id item)
    | _ => none

def NamesItem (s : ThreadState) (id : String) : Prop :=
  ∃ key item, s.items.get? key = some item ∧ Item.id item = id

/-- The new events create every item once, and none that was there. -/
structure CreatesOnce (w w' : Work) : Prop where
  new : ∃ more, w'.events = w.events ++ more ∧ (createdIds more).Nodup ∧
    ∀ id ∈ createdIds more, ¬ NamesItem w.state id ∧ NamesItem w'.state id
  kept : ∀ id, NamesItem w.state id → NamesItem w'.state id

theorem CreatesOnce.refl (w : Work) : CreatesOnce w w :=
  ⟨⟨[], by simp [createdIds]⟩, fun _ named => named⟩

theorem createdIds_append (events more : List EventPayload) :
    createdIds (events ++ more) = createdIds events ++ createdIds more := List.filterMap_append ..

theorem CreatesOnce.trans (first : CreatesOnce w w') (second : CreatesOnce w' w'') :
    CreatesOnce w w'' := by
  obtain ⟨more, events, once, fresh⟩ := first.new
  obtain ⟨rest, events', once', fresh'⟩ := second.new
  refine ⟨⟨more ++ rest, by rw [events', events, List.append_assoc], ?_, ?_⟩,
    fun id named => second.kept id (first.kept id named)⟩
  · rw [createdIds_append]
    refine List.nodup_append.mpr ⟨once, once', ?_⟩
    rintro id created other later rfl
    exact (fresh' id later).1 (fresh id created).2
  · intro id created
    rw [createdIds_append, List.mem_append] at created
    rcases created with early | late
    · exact ⟨(fresh id early).1, second.kept id (fresh id early).2⟩
    · exact ⟨fun named => (fresh' id late).1 (first.kept id named), (fresh' id late).2⟩

theorem CreatesOnce.of_same {more : List EventPayload} (items : w'.state.items = w.state.items)
    (events : w'.events = w.events ++ more) (none_created : createdIds more = []) :
    CreatesOnce w w' := by
  have kept : ∀ id, NamesItem w.state id → NamesItem w'.state id := by
    intro id named
    rw [NamesItem, items]
    exact named
  exact ⟨⟨more, events, by simp [none_created], by simp [none_created]⟩, kept⟩

theorem namesItem_put {s s' : ThreadState} {key : Key} {item : Value}
    (items : s'.items = s.items.put key item)
    (keeps : ∀ previous, s.items.get? key = some previous → Item.id item = Item.id previous)
    {id : String} (named : NamesItem s id) : NamesItem s' id := by
  obtain ⟨other, stored, found, rfl⟩ := named
  by_cases same : key = other
  · subst same
    exact ⟨key, item, by simp [items], keeps stored found⟩
  · exact ⟨other, stored, by rw [items, Dictionary.get?_put_ne _ _ same, found], rfl⟩

theorem createdIds_deltaEvents (item : Value) (field : DeltaField) (text : String) :
    createdIds (deltaEvents item field text) = [] := by
  unfold deltaEvents createdIds
  induction (if field = .output then outputDeltas text else [text]) with
  | nil => rfl
  | cons piece pieces ih => simpa using ih

theorem TreeStep.createsOnce (sound : Sound ids w) (step : TreeStep ids w w') :
    CreatesOnce w w' := by
  cases step with
  | draw => exact .of_same rfl (List.append_nil _).symm rfl
  | passive s same => exact .of_same same.items (List.append_nil _).symm rfl
  | passiveEvent payload passive =>
    refine .of_same rfl rfl ?_
    cases payload <;> first | rfl | exact passive.elim
  | createAgent key => exact .of_same (addAgent_items ..) rfl rfl
  | touch => exact .of_same rfl (List.append_nil _).symm rfl
  | move key record =>
    refine .of_same (refreshAgentIndex_items ..) rfl ?_
    split <;> rfl
  | setRoot => exact .of_same rfl (List.append_nil _).symm rfl
  | changeAgent => exact .of_same rfl rfl rfl
  | announce => exact .of_same rfl rfl rfl
  | setStatus => exact .of_same rfl rfl rfl
  | threadStatus => exact .of_same rfl rfl rfl
  | writeItem key item tools texts links shape identity =>
    unfold KeepsIdentity at identity
    split at identity
    next previous found =>
      refine ⟨⟨_, rfl, ?_⟩, fun id => namesItem_put rfl ?_⟩
      · simp [Dictionary.contains, found, createdIds]
      · intro other stored
        rw [found] at stored
        cases stored
        exact identity.1
    next absent =>
      refine ⟨⟨_, rfl, ?_⟩, fun id => namesItem_put rfl (by simp [absent])⟩
      simp only [Dictionary.contains, absent, Option.isSome_none, Bool.false_eq_true, if_false,
        createdIds, List.filterMap_cons, List.filterMap_nil, List.nodup_singleton,
        List.mem_singleton, true_and]
      rintro id rfl
      refine ⟨?_, key, item, by simp, rfl⟩
      rintro ⟨other, stored, found, same⟩
      exact identity.2.2 other stored found same
  | deltaItem key item next field text known applied =>
    refine ⟨⟨_, rfl, by simp [createdIds_deltaEvents], by simp [createdIds_deltaEvents]⟩,
      fun id => namesItem_put rfl ?_⟩
    intro other stored
    rw [known] at stored
    cases stored
    have edits := edits_applyDelta (sound.rows.shape key item known) applied
    simp only [Item.id, edits.front "id" (by decide)]

theorem Step.createsOnce (sound : Sound ids w) (step : Step ids w w') : CreatesOnce w w' := by
  cases step with
  | tree step => exact step.createsOnce sound
  | recordRun key record run known new state endedBy trigger endedAt settled =>
    refine .of_same ?_ rfl rfl
    simp only [Work.change_state, storeRun]
    split <;> rfl
  | openInteraction key interaction =>
    refine .of_same ?_ rfl rfl
    simp only [Work.emit_state, Work.change_state, archiveInteraction]
    split <;> rfl
  | startTask key task =>
    refine .of_same ?_ rfl rfl
    simp only [Work.emit_state, Work.change_state, archiveTask]
    split <;> rfl
  | _ => exact .of_same rfl rfl rfl

theorem Steps.createsOnce (sound : Sound ids w) (steps : Steps ids w w') : CreatesOnce w w' := by
  induction steps with
  | refl => exact .refl w
  | tail before step ih => exact ih.trans (step.createsOnce (Steps.sound sound before))

/-! ### Roots -/

def AgentsRooted (s : ThreadState) : Prop :=
  ∀ key, (s.agents.get? key).isSome → s.rootKey.isSome

theorem isSome_of_get?_modify {α : Type} {d : Dictionary α} {key other : Key} {f : α → α}
    (known : ((d.modify other f).get? key).isSome) : (d.get? key).isSome := by
  rw [Dictionary.get?_modify] at known
  split at known
  next same =>
    subst same
    simpa using known
  next => exact known

/-- The root of a thread is not lost, and no agent comes without one. -/
structure StaysRooted (s s' : ThreadState) : Prop where
  root : s.rootKey.isSome → s'.rootKey.isSome
  agents : ∀ key, (s'.agents.get? key).isSome → (s.agents.get? key).isSome ∨ s'.rootKey.isSome

theorem StaysRooted.of_same {s s' : ThreadState} (root : s'.rootKey = s.rootKey)
    (agents : s'.agents = s.agents) : StaysRooted s s' := by
  refine ⟨fun rooted => root ▸ rooted, fun key known => .inl ?_⟩
  rwa [agents] at known

theorem StaysRooted.of_modify {s s' : ThreadState} {key : Key} {f : AgentRecord → AgentRecord}
    (root : s'.rootKey = s.rootKey) (agents : s'.agents = s.agents.modify key f) :
    StaysRooted s s' := by
  refine ⟨fun rooted => root ▸ rooted, fun other known => .inl ?_⟩
  rw [agents] at known
  exact isSome_of_get?_modify known

theorem StaysRooted.agentsRooted {s s' : ThreadState} (stays : StaysRooted s s')
    (rooted : AgentsRooted s) : AgentsRooted s' := by
  intro key known
  rcases stays.agents key known with before | root
  · exact stays.root (rooted key before)
  · exact root

theorem TreeStep.staysRooted (step : TreeStep ids w w') : StaysRooted w.state w'.state := by
  cases step with
  | passive s same => exact .of_same same.rootKey same.agents
  | createAgent key =>
    have rooted : ∀ record, ((addAgent w.state key record).rootKey).isSome := by
      intro record
      rw [addAgent, refreshAgentIndex_rootKey]
      cases w.state.rootKey <;> rfl
    exact ⟨fun _ => rooted _, fun _ _ => .inr (rooted _)⟩
  | touch => exact .of_modify rfl rfl
  | changeAgent => exact .of_modify rfl rfl
  | move => exact .of_modify (refreshAgentIndex_rootKey ..) (refreshAgentIndex_agents ..)
  | setRoot => exact ⟨fun _ => rfl, fun _ known => .inl known⟩
  | setStatus => exact .of_modify rfl rfl
  | _ => exact .of_same rfl rfl

theorem Step.staysRooted (step : Step ids w w') : StaysRooted w.state w'.state := by
  cases step with
  | tree step => exact step.staysRooted
  | startRun => exact .of_modify rfl rfl
  | recordRun key record run known new state endedBy trigger endedAt settled =>
    simp only [Work.change_state, storeRun]
    split
    · exact .of_same rfl rfl
    · exact .of_modify rfl rfl
  | endRun => exact .of_modify rfl rfl
  | openInteraction key interaction =>
    simp only [Work.emit_state, Work.change_state, archiveInteraction]
    split <;> exact .of_same rfl rfl
  | startTask key task =>
    simp only [Work.emit_state, Work.change_state, archiveTask]
    split <;> exact .of_same rfl rfl
  | _ => exact .of_same rfl rfl

theorem Steps.agentsRooted (steps : Steps ids w w') (rooted : AgentsRooted w.state) :
    AgentsRooted w'.state := by
  induction steps with
  | refl => exact rooted
  | tail _ step ih => exact step.staysRooted.agentsRooted ih

theorem Steps.rooted (steps : Steps ids w w') (root : w.state.rootKey.isSome) :
    w'.state.rootKey.isSome := by
  induction steps with
  | refl => exact root
  | tail _ step ih => exact step.staysRooted.root ih

/-! ### The flush -/

/-- The events that publish `notices` as items of the root. -/
def publication (rootId : String) (itemIds : List String) (notices : List PendingNotice) :
    List EventPayload :=
  List.zipWith (fun id notice => .itemCreated (noticeItem id rootId none notice)) itemIds notices

theorem publishNotice_spec (ctx : ApplyContext) (owner : AgentRecord) (notice : PendingNotice)
    (runId : Option String) (w : Work) :
    Ensures (publishNotice ctx owner notice runId) w fun key w' =>
      let item := noticeItem (ctx.ids .item w.drawn) owner.agent.id runId notice
      w.state.items.get? key = none ∧ w'.events = w.events ++ [.itemCreated item] ∧
      w'.state = { w.state with items := w.state.items.put key item } := by
  unfold publishNotice
  simp only [ensures_bind]
  apply ensures_nextId
  simp only [ensures_getState, ensures_changeState, ensures_emit, ensures_pure]
  exact ⟨noticeKey_free .., rfl, rfl⟩

theorem publishNotices_spec (ctx : ApplyContext) (owner : AgentRecord)
    (notices : List PendingNotice) (w : Work) :
    Ensures (notices.forM fun notice => do
      let _ ← publishNotice ctx owner notice none) w fun _ w' =>
      ∃ itemIds, itemIds.length = notices.length ∧
        w'.events = w.events ++ publication owner.agent.id itemIds notices ∧
        w'.state = { w.state with items := w'.state.items } := by
  induction notices generalizing w with
  | nil =>
    simp only [List.forM_eq_forM, List.forM_nil, ensures_pure]
    exact ⟨[], rfl, (List.append_nil _).symm, trivial⟩
  | cons notice notices ih =>
    simp only [List.forM_eq_forM, List.forM_cons, ensures_bind, ensures_pure]
    refine Ensures.mono (publishNotice_spec ctx owner notice none w) ?_
    rintro key w₁ ⟨-, events, state⟩
    refine Ensures.mono (ih w₁) ?_
    rintro _ w₂ ⟨itemIds, lengths, events', state'⟩
    refine ⟨ctx.ids .item w.drawn :: itemIds, by simp [lengths], ?_, ?_⟩
    · rw [events', events]
      simp [publication]
    · rw [state', state]

/-- `pending` was published under the root, in order, and nothing waits. -/
structure Published (pending : List PendingNotice) (w : Work) : Prop where
  events : ∃ key root itemIds early late, w.state.rootKey = some key ∧
    w.state.agents.get? key = some root ∧ itemIds.length = pending.length ∧
    w.events = early ++ publication root.agent.id itemIds pending ++ late
  emptied : w.state.pendingNotices = []

/-- `pending` waits for a root, or was published under it. -/
def Settled (pending : List PendingNotice) (w : Work) : Prop :=
  w.state.rootKey = none ∧ w.state.pendingNotices = pending ∨ Published pending w

theorem flushNotices_spec (ctx : ApplyContext) (sound : Sound ids w) :
    Ensures (flushNotices ctx) w fun _ w' => Settled w.state.pendingNotices w' ∧
      w'.state = { w.state with
        items := w'.state.items, pendingNotices := w'.state.pendingNotices } := by
  unfold flushNotices
  simp only [ensures_bind, ensures_getState]
  split
  next unowned =>
    rw [ensures_pure]
    refine ⟨.inl ⟨?_, rfl⟩, rfl⟩
    -- A root that is named is known.
    cases root : w.state.rootKey with
    | none => rfl
    | some key =>
      have known := sound.tree.root key root
      simp only [root, Option.bind_some] at unowned
      simp [agentRow, unowned] at known
  next owner owned =>
    obtain ⟨key, root, known⟩ := Option.bind_eq_some_iff.mp owned
    simp only [ensures_bind, ensures_changeState]
    refine Ensures.mono (publishNotices_spec ctx owner _ w) ?_
    rintro _ w₁ ⟨itemIds, lengths, events, state⟩
    have after : (w₁.change fun s => { s with pendingNotices := [] }).state =
        { w.state with items := w₁.state.items, pendingNotices := [] } := by
      rw [Work.change_state, state]
    refine ⟨.inr ⟨⟨key, owner, itemIds, w.events, [], ?_, ?_, lengths, ?_⟩, rfl⟩, ?_⟩
    · rw [after]
      exact root
    · rw [after]
      exact known
    · simpa using events
    · rw [after]

/-! ### After the flush -/

def RootStays (w w' : Work) : Prop :=
  ∀ key, w.state.rootKey = some key → w'.state.rootKey = some key

instance : Std.Refl RootStays := ⟨fun _ _ root => root⟩

instance : IsTrans Work RootStays :=
  ⟨fun _ _ _ first second key root => second key (first key root)⟩

theorem quiet_rootStays : Quiet RootStays where
  emit _ _ _ root := root
  draw _ _ root := root
  change w f change key root := (change.root w.state).trans root
  add w key record root named := by
    rw [Work.change_state, addAgent, refreshAgentIndex_rootKey, named, Option.some_or]
  link _ _ _ _ _ root := root

def SameRoot (w w' : Work) : Prop := w'.state.rootKey = w.state.rootKey

instance : Std.Refl SameRoot := ⟨fun _ => rfl⟩

instance : IsTrans Work SameRoot := ⟨fun _ _ _ first second => second.trans first⟩

theorem still_sameRoot : Still SameRoot :=
  ⟨fun _ _ => rfl, fun w _ change => change.root w.state⟩

theorem Published.mono {pending : List PendingNotice} (published : Published pending w)
    (sound : Sound ids w) (steps : TreeSteps ids w w') (root : RootStays w w')
    (waits : Waits w w') : Published pending w' := by
  obtain ⟨key, record, itemIds, early, late, is_root, known, lengths, events⟩ := published.events
  obtain ⟨more, events', -⟩ := (Steps.createsOnce sound steps.steps).new
  have named : agentIdOf w'.state key = some record.agent.id :=
    steps.agentIdOf (by simp [agentIdOf, known])
  obtain ⟨record', known', same⟩ := Option.map_eq_some_iff.mp named
  refine ⟨⟨key, record', itemIds, early, late ++ more, root key is_root, known', lengths, ?_⟩,
    waits.pending.trans published.emptied⟩
  rw [events', events, same, List.append_assoc]

/-- No agent, no root, and no link that names an agent. -/
structure Unrooted (s : ThreadState) : Prop where
  root : s.rootKey = none
  agents : ∀ key, s.agents.get? key = none
  links : LinksKnown s

theorem joinSpawnLink_unrooted (itemKey : Key) (item : Value) (key : Key)
    (unrooted : Unrooted w.state) :
    Ensures (joinSpawnLink itemKey item key) w fun _ w' => Unrooted w'.state := by
  unfold joinSpawnLink
  simp only [ensures_bind, ensures_getState, unrooted.agents key, ensures_pure]
  exact unrooted

theorem joinItemLink_unrooted (ctx : ApplyContext) (key : Key) (unrooted : Unrooted w.state) :
    Ensures (joinItemLink ctx key) w fun _ w' => Unrooted w'.state := by
  unfold joinItemLink
  simp only [ensures_bind, ensures_getState]
  split
  next links item stored _ =>
    split
    next =>
      rw [ensures_pure]
      exact unrooted
    next linkedKey linked =>
      -- The link would name a known agent, and there is none.
      have names : links.childAgent = some linkedKey ∨ links.targetAgent = some linkedKey := by
        unfold linkedAgentKey at linked
        split at linked
        · exact .inl linked
        · split at linked
          · exact .inr linked
          · cases linked
      have known := unrooted.links key links stored linkedKey names
      simp [unrooted.agents] at known
  next =>
    rw [ensures_pure]
    exact unrooted

theorem reconcileLinks_unrooted (ctx : ApplyContext) (unrooted : Unrooted w.state) :
    Ensures (reconcileLinks ctx) w fun _ w' => Unrooted w'.state := by
  unfold reconcileLinks
  simp only [ensures_bind, ensures_getState]
  have spawns : ∀ entries : List (Key × Dictionary Unit),
      Ensures (entries.forM fun entry => joinSpawnLinks entry.1 entry.2.keys) w
        fun _ w' => Unrooted w'.state := by
    intro entries
    apply ensures_forM (I := fun w => Unrooted w.state) entries _ w unrooted
    intro entry _ w₁ unrooted₁
    unfold joinSpawnLinks
    simp only [ensures_bind, ensures_getState]
    split
    next =>
      rw [ensures_pure]
      exact unrooted₁
    next item _ =>
      simp only [ensures_bind, ensures_changeState]
      refine Ensures.mono (ensures_forM (I := fun w => Unrooted w.state) _ (fun key _ w₂ before =>
        joinSpawnLink_unrooted entry.1 item key before) w₁ unrooted₁) ?_
      intro _ w₂ unrooted₂
      exact ⟨unrooted₂.root, unrooted₂.agents, unrooted₂.links⟩
  refine Ensures.mono (spawns _) ?_
  intro _ w₁ unrooted₁
  apply ensures_forM (I := fun w => Unrooted w.state) _ _ w₁ unrooted₁
  intro key _ w₂ unrooted₂
  simp only [ensures_bind]
  refine Ensures.mono (joinItemLink_unrooted ctx key unrooted₂) ?_
  intro _ w₃ unrooted₃
  rw [ensures_changeState]
  exact ⟨unrooted₃.root, unrooted₃.agents, unrooted₃.links⟩

/-! ### A valid fact -/

/-- What holds of a thread between the commands of a fact. -/
structure Orderly (ids : IdSource) (w : Work) : Prop where
  sound : Sound ids w
  rooted : AgentsRooted w.state
  links : LinksKnown w.state

theorem Orderly.keep {α : Type} {m : Fold α} (orderly : Orderly ids w)
    (evolves : Keeps (Evolves ids) m) (waits : Keeps Waits m) :
    Ensures m w fun _ w' => Orderly ids w' ∧ Waits w w' := by
  refine Ensures.mono ((evolves w).and (waits w)) ?_
  rintro _ w' ⟨later, kept⟩
  have steps := later orderly.sound
  exact ⟨⟨Steps.sound orderly.sound steps, steps.agentsRooted orderly.rooted,
    kept.links orderly.links⟩, kept⟩

theorem Orderly.unrooted (orderly : Orderly ids w) (root : w.state.rootKey = none) :
    Unrooted w.state where
  root := root
  agents key := by
    cases known : w.state.agents.get? key with
    | none => rfl
    | some record =>
      have rooted := orderly.rooted key (by simp [known])
      simp [root] at rooted
  links := orderly.links

/-- What a fact that began in `w₀` has led to once the notices were flushed. -/
structure Concluded (ids : IdSource) (w₀ w : Work) : Prop where
  settled : Settled w₀.state.pendingNotices w
  orderly : Orderly ids w
  rejected : w.state.rejectionNotices = w₀.state.rejectionNotices

theorem Concluded.after {w₀ : Work} (concluded : Concluded ids w w') (waits : Waits w₀ w) :
    Concluded ids w₀ w' := by
  refine ⟨?_, concluded.orderly, concluded.rejected.trans waits.rejected⟩
  rw [← waits.pending]
  exact concluded.settled

variable {ctx : ApplyContext} {w₀ : Work}

theorem recomputeStatuses_concludes (now : Nat) (concluded : Concluded ids w₀ w) :
    Ensures (recomputeStatuses now) w fun _ w' => Concluded ids w₀ w' := by
  obtain ⟨settled, orderly, rejected⟩ := concluded
  have kept := orderly.keep (Keeps.evolves (recomputeStatuses_keeps now))
    (still_waits.recomputeStatuses now)
  have steps : Ensures (recomputeStatuses now) w fun _ w' => TreeEvolves ids w w' :=
    recomputeStatuses_keeps now w
  refine Ensures.mono ((kept.and steps).and (still_sameRoot.recomputeStatuses now w)) ?_
  rintro _ w' ⟨⟨⟨orderly', waits⟩, steps⟩, root⟩
  refine ⟨?_, orderly', waits.rejected.trans rejected⟩
  rcases settled with ⟨unrooted, same⟩ | published
  · exact .inl ⟨root.trans unrooted, waits.pending.trans same⟩
  · exact .inr (published.mono orderly.sound (steps orderly.sound)
      (fun key named => root.trans named) waits)

variable (fresh : FreshIds ctx.ids)

include fresh

theorem reconcileLinks_concludes (concluded : Concluded ctx.ids w₀ w) :
    Ensures (reconcileLinks ctx) w fun _ w' => Concluded ctx.ids w₀ w' := by
  obtain ⟨settled, orderly, rejected⟩ := concluded
  have kept := orderly.keep (Keeps.evolves (reconcileLinks_keeps fresh))
    (quiet_waits.reconcileLinks ctx)
  rcases settled with ⟨unrooted, same⟩ | published
  · refine Ensures.mono (kept.and (reconcileLinks_unrooted ctx (orderly.unrooted unrooted))) ?_
    rintro _ w' ⟨⟨orderly', waits⟩, unrooted'⟩
    exact ⟨.inl ⟨unrooted'.root, waits.pending.trans same⟩, orderly',
      waits.rejected.trans rejected⟩
  · refine Ensures.mono ((kept.and (reconcileLinks_keeps fresh w)).and
      (quiet_rootStays.reconcileLinks ctx w)) ?_
    rintro _ w' ⟨⟨⟨orderly', waits⟩, steps⟩, root⟩
    exact ⟨.inr (published.mono orderly.sound (steps orderly.sound) root waits), orderly',
      waits.rejected.trans rejected⟩

theorem flushNotices_concludes (orderly : Orderly ctx.ids w) :
    Ensures (flushNotices ctx) w fun _ w' => Concluded ctx.ids w w' := by
  refine Ensures.mono ((flushNotices_spec ctx orderly.sound).and (flushNotices_keeps fresh w)) ?_
  rintro _ w' ⟨⟨settled, same⟩, steps⟩
  have later := (steps orderly.sound).steps
  refine ⟨settled, ⟨Steps.sound orderly.sound later, later.agentsRooted orderly.rooted, ?_⟩, ?_⟩
  · rw [same]
    exact orderly.links
  · rw [same]

theorem finishFact_concludes (orderly : Orderly ctx.ids w) :
    Ensures (finishFact ctx (recomputeStatuses ctx.now)) w fun _ w' =>
      Concluded ctx.ids w w' := by
  unfold finishFact
  simp only [ensures_bind]
  refine Ensures.mono (flushNotices_concludes fresh orderly) ?_
  intro _ w₁ flushed
  refine Ensures.mono (reconcileLinks_concludes fresh flushed) ?_
  intro _ w₂ joined
  exact recomputeStatuses_concludes ctx.now joined

theorem finishQuietly_concludes (needed : Bool) (orderly : Orderly ctx.ids w) :
    Ensures (finishQuietly ctx needed) w fun _ w' => Concluded ctx.ids w w' := by
  unfold finishQuietly
  simp only [ensures_bind, ensures_when]
  refine ⟨fun _ => ?_, fun _ => flushNotices_concludes fresh orderly⟩
  -- The flush comes last: it publishes what waited before the links were reconciled.
  have first := orderly.keep (Keeps.evolves (reconcileLinks_keeps fresh))
    (quiet_waits.reconcileLinks ctx)
  refine Ensures.mono first ?_
  rintro _ w₁ ⟨orderly₁, waits₁⟩
  have second := orderly₁.keep (Keeps.evolves (recomputeStatuses_keeps ctx.now))
    (still_waits.recomputeStatuses ctx.now)
  refine Ensures.mono second ?_
  rintro _ w₂ ⟨orderly₂, waits₂⟩
  refine Ensures.mono (flushNotices_concludes fresh orderly₂) ?_
  intro _ w₃ flushed
  exact (flushed.after waits₂).after waits₁

/-- A valid fact leaves the waiting notices alone as long as there is no root, and publishes
them once there is one. -/
theorem foldFact_concludes {fact : Fact} (honest : fact.Honest) (orderly : Orderly ctx.ids w) :
    Ensures (foldFact ctx fact (recomputeStatuses ctx.now)) w fun _ w' =>
      Concluded ctx.ids w w' := by
  unfold foldFact
  simp only [ensures_bind, ensures_getState]
  have root := orderly.keep (Keeps.evolves (ensureInitialRoot_keeps fresh))
    (waits_ensureInitialRoot ctx)
  refine Ensures.mono root ?_
  rintro _ w₁ ⟨orderly₁, waits₁⟩
  have moves := @Orderly.keep _ _ _ (when (fact.movesTransport = true) (changeState fun state =>
      { state with lastTransportSignalAt := some ctx.now })) orderly₁
    (Keeps.when fun _ => Keeps.evolves (keeps_passive fun _ => passive_bookkeeping ..))
    (Keeps.when fun _ => waits_change {})
  refine Ensures.mono moves ?_
  rintro _ w₂ ⟨orderly₂, waits₂⟩
  have signals := orderly₂.keep (Keeps.evolves (signal_keeps fresh fact)) (waits_signal ctx fact)
  refine Ensures.mono signals ?_
  rintro _ w₃ ⟨orderly₃, waits₃⟩
  -- Each way the fact is carried out ends in a conclusion from where it has got to.
  have began : ∀ {w₄ w'}, Waits w₃ w₄ → Concluded ctx.ids w₄ w' → Concluded ctx.ids w w' :=
    fun waits₄ concluded => (((concluded.after waits₄).after waits₃).after waits₂).after waits₁
  split
  next agent item field append =>
    simp only [ensures_bind, ensures_getState]
    have streams := orderly₃.keep (Keeps.evolves (appendItem_keeps fresh agent item field append))
      (waits_appendItem ctx agent item field append)
    refine Ensures.mono streams ?_
    rintro changed w₄ ⟨orderly₄, waits₄⟩
    exact Ensures.mono (finishQuietly_concludes fresh _ orderly₄) fun _ _ => began waits₄
  next agent =>
    simp only [ensures_bind]
    have ensures := orderly₃.keep (Keeps.evolves (ensureAgent_keeps fresh agent))
      (quiet_waits.ensureAgent ctx agent)
    refine Ensures.mono ensures ?_
    rintro record w₄ ⟨orderly₄, waits₄⟩
    split
    · simp only [ensures_bind, ensures_getState]
      exact Ensures.mono (finishQuietly_concludes fresh _ orderly₄) fun _ _ => began waits₄
    · simp only [ensures_bind]
      have cleared := @Orderly.keep _ _ _ (changeRecord agent fun record =>
          { record with retry := none }) orderly₄
        (Keeps.evolves (keeps_soft agent ⟨fun _ => rfl, fun _ => rfl, fun _ => rfl, fun _ => rfl⟩))
        (still_waits.changeRecord agent _)
      refine Ensures.mono cleared ?_
      rintro _ w₅ ⟨orderly₅, waits₅⟩
      exact Ensures.mono (finishFact_concludes fresh orderly₅) fun _ _ concluded =>
        began waits₄ (concluded.after waits₅)
  next =>
    simp only [ensures_bind]
    have carried := orderly₃.keep (carryOut_keeps fresh honest) (waits_carryOut ctx _)
    refine Ensures.mono carried ?_
    rintro _ w₄ ⟨orderly₄, waits₄⟩
    exact Ensures.mono (finishFact_concludes fresh orderly₄) fun _ _ => began waits₄

end

/-! ### Signatures -/

def Plain (text : String) : Prop := Char.ofNat 0 ∉ text.toList

instance (text : String) : Decidable (Plain text) :=
  inferInstanceAs (Decidable (Char.ofNat 0 ∉ text.toList))

def PlainError (error : Option String) : Prop := ∀ reason ∈ error, Plain reason

theorem PlainError.none : PlainError none := by
  intro reason named
  cases named

theorem PlainError.some {reason : String} (plain : Plain reason) : PlainError (some reason) := by
  intro _ named
  cases named
  exact plain

theorem PlainError.or {first second : Option String} (h : PlainError first)
    (h' : PlainError second) : PlainError (first.or second) := by
  cases first with
  | none => exact h'
  | some => exact h

theorem PlainError.bind {α : Type} {o : Option α} {f : α → Option String}
    (each : ∀ a, PlainError (f a)) : PlainError (o.bind f) := by
  cases o with
  | none => exact .none
  | some a => exact each a

theorem PlainError.ite {c : Prop} [Decidable c] {first second : Option String}
    (h : PlainError first) (h' : PlainError second) :
    PlainError (if c then first else second) := by
  split
  · exact h
  · exact h'

theorem plainError_relationError (state : ThreadState) (agent parent : Key) :
    PlainError (relationError state agent parent) := by
  unfold relationError
  refine .ite (.some (by decide)) (.ite (.some (by decide)) (.ite (.some (by decide)) ?_))
  exact .ite (.some (by decide)) .none

theorem plainError_keyError (input : Value) (type : String) (fields : List String) :
    PlainError (keyError input type fields) := by
  unfold keyError
  simp only
  split
  next key found =>
    have member := List.mem_of_find?_eq_some found
    have plain : ∀ key ∈ ["parent", "spawnedBy", "nativeTurnId", "item", "childAgent"],
        Plain (key ++ " must be a string") := by decide
    exact .some (plain key member)
  next =>
    refine .ite (.some (by decide)) ?_
    split
    next key found =>
      have member := List.mem_of_find?_eq_some found
      have plain : ∀ key ∈ ["interaction", "task"], Plain (key ++ " key must be a string") := by
        decide
      exact .some (plain key member)
    next => exact .ite (.some (by decide)) .none

theorem plainError_linkError (state : ThreadState) (input : Value) (type : String) :
    PlainError (linkError state input type) := by
  unfold linkError
  refine .ite .none (.ite (.some (by decide)) (.or ?_ ?_))
  · exact .bind fun parent => plainError_relationError state _ parent
  · refine .bind fun owner => .or (plainError_relationError state _ owner) ?_
    exact .ite (.some (by decide)) .none

theorem plainError_deltaError (state : ThreadState) (input : Value) (type : String) :
    PlainError (deltaError state input type) := by
  unfold deltaError
  refine .ite .none ?_
  split
  · exact .none
  · exact .ite (.some (by decide)) (.ite .none (.some (by decide)))

theorem plainError_workLinkError (state : ThreadState) (input : Value) (type : String) :
    PlainError (workLinkError state input type) := by
  unfold workLinkError
  refine .ite .none ?_
  split
  · split
    · exact .ite (.some (by decide)) (.ite (.some (by decide)) .none)
    · exact .ite (.some (by decide)) .none
  · exact .none

theorem plainError_resolutionError (state : ThreadState) (input : Value) (type : String) :
    PlainError (resolutionError state input type) := by
  unfold resolutionError
  refine .ite .none ?_
  split
  · exact .ite (.some (by decide)) .none
  · exact .none

theorem plainError_childError (state : ThreadState) (input : Value) (type : String) :
    PlainError (childError state input type) :=
  .ite .none (.bind fun child => plainError_relationError state child _)

theorem plainError_contextError (state : ThreadState) (input : Value) (type : String) :
    PlainError (contextError state input type) := by
  unfold contextError
  apply PlainError.or (plainError_linkError state input type)
  apply PlainError.or (plainError_deltaError state input type)
  apply PlainError.or (plainError_workLinkError state input type)
  apply PlainError.or
  · exact .ite (.some (by decide)) .none
  · apply PlainError.or (plainError_resolutionError state input type)
    exact plainError_childError state input type

theorem plain_of_rejected {state : ThreadState} {input : Value} {now : Nat} {reason : String}
    (rejects : validateFact state input now = .error reason) : Plain reason := by
  unfold validateFact at rejects
  split at rejects
  · cases rejects
    decide
  · cases rejects
    decide
  · split at rejects
    · split at rejects
      · cases rejects
        decide
      next fields _ =>
        split at rejects
        · cases rejects
          decide
        · split at rejects
          next error found =>
            cases rejects
            exact PlainError.or (plainError_keyError input _ fields)
              (plainError_contextError state input _) _ found
          next =>
            split at rejects
            · cases rejects
              decide
            · cases rejects
              decide
            · cases rejects
    · cases rejects
      decide

def signature (type reason : String) : String := type ++ "\u0000" ++ reason

theorem append_cons_inj {α : Type} {c : α} {r r' t t' : List α} (plain : c ∉ r) (plain' : c ∉ r')
    (same : r ++ c :: t = r' ++ c :: t') : r = r' ∧ t = t' := by
  induction r generalizing r' with
  | nil =>
    cases r' with
    | nil => exact ⟨rfl, List.tail_eq_of_cons_eq same⟩
    | cons d r' =>
      obtain rfl : c = d := (List.cons.inj same).1
      exact absurd (List.mem_cons_self ..) plain'
  | cons d r ih =>
    cases r' with
    | nil =>
      obtain rfl : d = c := (List.cons.inj same).1
      exact absurd (List.mem_cons_self ..) plain
    | cons e r' =>
      obtain ⟨rfl, rest⟩ := List.cons.inj same
      obtain ⟨rfl, tails⟩ := ih (fun member => plain (List.mem_cons_of_mem _ member))
        (fun member => plain' (List.mem_cons_of_mem _ member)) rest
      exact ⟨rfl, tails⟩

theorem signature_inj {type type' reason reason' : String} (plain : Plain reason)
    (plain' : Plain reason') (same : signature type reason = signature type' reason') :
    type = type' ∧ reason = reason' := by
  have lists : (signature type reason).toList.reverse =
      (signature type' reason').toList.reverse := by rw [same]
  have shape : ∀ a b : String, (signature a b).toList.reverse =
      b.toList.reverse ++ Char.ofNat 0 :: a.toList.reverse := by
    intro a b
    simp [signature, String.toList_append]
  rw [shape, shape] at lists
  obtain ⟨reasons, types⟩ := append_cons_inj (fun member => plain (List.mem_reverse.mp member))
    (fun member => plain' (List.mem_reverse.mp member)) lists
  exact ⟨String.toList_inj.mp (List.reverse_injective types),
    String.toList_inj.mp (List.reverse_injective reasons)⟩

/-! ### What a rejection writes -/

def rejection (now : Nat) (input : Value) (reason : String) : PendingNotice where
  createdAt := now
  text := "Ignored adapter fact: " ++ reason
  raw := [.obj [("type", .str "core.rejected_fact"), ("data", diagnosticData input 0)]]

def rootOf (s : ThreadState) : Option AgentRecord := s.rootKey.bind s.agents.get?

def noticeRun (owner : AgentRecord) : String := owner.activeRun.getD ""

/-- One item is written under a root: a new one, or the one recorded for the signature. -/
structure WritesNotice (owner : AgentRecord) (type reason : String) (key : Key) (item : Value)
    (w w' : Work) : Prop where
  state : ∃ count, w'.state = { w.state with
    items := w.state.items.put key item
    rejectionNotices := some { currentNotices w.state (noticeRun owner) with
      notices := (currentNotices w.state (noticeRun owner)).notices.put (signature type reason)
        { item := key, count } } }
  event : w.state.items.get? key = none ∧ w'.events = w.events ++ [.itemCreated item] ∨
    (∃ known, (currentNotices w.state (noticeRun owner)).notices.get? (signature type reason) =
      some known ∧ known.item = key) ∧ (w.state.items.get? key).isSome ∧
      w'.events = w.events ++ [.itemUpdated item]

theorem rejectFact_spec (ctx : ApplyContext) (input : Value) (reason : String) (w : Work) :
    Ensures (rejectFact ctx input reason) w fun _ w' =>
      (rootOf w.state = none → w'.events = w.events ∧ w'.state = { w.state with
        pendingNotices := w.state.pendingNotices ++ [rejection ctx.now input reason] }) ∧
      ∀ owner, rootOf w.state = some owner → ∃ type key item, factType input = some type ∧
        WritesNotice owner type reason key item w w' := by
  unfold rejectFact
  simp only [ensures_bind, ensures_getState]
  split
  next unowned =>
    rw [ensures_changeState]
    refine ⟨fun _ => ⟨rfl, rfl⟩, fun owner owned => ?_⟩
    rw [rootOf, unowned] at owned
    cases owned
  next owner owned =>
    simp only [ensures_bind, ensures_changeState]
    have only : ∀ other, rootOf w.state = some other → other = owner :=
      fun other is_root => Option.some.inj (is_root.symm.trans owned)
    have rooted : rootOf w.state ≠ none := by simp [rootOf, owned]
    split
    next => simp
    next type named =>
      have under : ∀ {key item w'}, WritesNotice owner type reason key item w w' →
          (rootOf w.state = none → w'.events = w.events ∧ w'.state = { w.state with
            pendingNotices := w.state.pendingNotices ++ [rejection ctx.now input reason] }) ∧
          ∀ owner, rootOf w.state = some owner → ∃ type key item, factType input = some type ∧
            WritesNotice owner type reason key item w w' := by
        intro key item w' writes
        refine ⟨fun unowned => absurd unowned rooted, fun other is_root => ?_⟩
        rw [only other is_root]
        exact ⟨type, key, item, named, writes⟩
      split
      next known item is_known found =>
        unfold putNotice updateItem
        simp only [ensures_bind, ensures_changeState, ensures_emit]
        obtain ⟨stored, -⟩ := Option.filter_eq_some_iff.mp found
        have there : w.state.items.get? known.item = some item := by
          simpa [is_known] using stored
        exact under ⟨⟨known.count + 1, rfl⟩,
          .inr ⟨⟨known, is_known, rfl⟩, by simp [there], rfl⟩⟩
      next =>
        simp only [ensures_bind]
        refine Ensures.mono (publishNotice_spec ctx owner _ owner.activeRun _) ?_
        rintro key w₁ ⟨free, events, state⟩
        unfold putNotice
        rw [ensures_changeState]
        refine under ⟨⟨1, ?_⟩, .inl ⟨free, events⟩⟩
        rw [Work.change_state, state]
        rfl

/-! ### Calls -/

/-- A call on the way to a state rejected a fact of `type` for `reason` while the root was in
`run`, and created the item `key`. -/
inductive Noticed (ids : IdSource) (run type reason : String) (key : Key) : Work → Prop where
  | rejected {w w' : Work} {ctx : ApplyContext} {input : Value} {owner : AgentRecord}
      (reachable : Reachable ids w) (same : ctx.ids = ids) (root : rootOf w.state = some owner)
      (current : noticeRun owner = run) (named : factType input = some type)
      (rejects : validateFact w.state input ctx.now = .error reason)
      (returned : apply ctx input w = .ok w') (free : w.state.items.get? key = none)
      (written : (w'.state.items.get? key).isSome) : Noticed ids run type reason key w'
  | later {w w' : Work} {ctx : ApplyContext} {input : Value}
      (before : Noticed ids run type reason key w) (same : ctx.ids = ids)
      (returned : apply ctx input w = .ok w') : Noticed ids run type reason key w'

/-- Every recorded notice was created by a rejection of the same fact in the recorded run. -/
def NoticesRecorded (ids : IdSource) (w : Work) : Prop :=
  ∀ notices, w.state.rejectionNotices = some notices → ∀ name known,
    notices.notices.get? name = some known → ∃ type reason, Plain reason ∧
      name = signature type reason ∧ Noticed ids notices.run type reason known.item w

section

variable {ids : IdSource} {w w' : Work} {ctx : ApplyContext}

theorem runFold_ok {command : Fold PUnit} (returned : runFold command w = .ok w') :
    command { w with events := [] } = .ok (⟨⟩, w') := by
  unfold runFold at returned
  cases ran : command { w with events := [] } with
  | error fault => simp [ran, Except.map] at returned
  | ok result =>
    simp only [ran, Except.map, Except.ok.injEq] at returned
    exact congrArg Except.ok (Prod.ext rfl returned)

theorem apply_ok {input : Value} (returned : apply ctx input w = .ok w') :
    match validateFact w.state input ctx.now with
    | .error reason => rejectFact ctx input reason { w with events := [] } = .ok (⟨⟩, w')
    | .ok fact =>
      foldFact ctx fact (recomputeStatuses ctx.now) { w with events := [] } = .ok (⟨⟩, w') := by
  have ran := runFold_ok returned
  have folded : Ensures (fold ctx input (recomputeStatuses ctx.now)) { w with events := [] }
      fun _ w' => match validateFact w.state input ctx.now with
        | .error reason => rejectFact ctx input reason { w with events := [] } = .ok (⟨⟩, w')
        | .ok fact =>
          foldFact ctx fact (recomputeStatuses ctx.now) { w with events := [] } =
            .ok (⟨⟩, w') := by
    unfold fold
    simp only [ensures_bind, ensures_refuse, ensures_getState]
    intro _
    cases validateFact w.state input ctx.now with
    | error reason => exact fun _ _ ran => ran
    | ok fact => exact fun _ _ ran => ran
  exact folded _ _ ran

/-! ### Records of notices -/

theorem currentNotices_run (s : ThreadState) (run : String) : (currentNotices s run).run = run := by
  unfold currentNotices
  split
  · split
    next same => exact same
    next => rfl
  · rfl

theorem currentNotices_recorded {s : ThreadState} {run name : String} {known : RejectionNotice}
    (found : (currentNotices s run).notices.get? name = some known) :
    s.rejectionNotices = some (currentNotices s run) := by
  unfold currentNotices at found ⊢
  split at found
  next notices stored =>
    split at found
    next same => simp [stored, same]
    next => cases found
  next => cases found

theorem NoticesRecorded.rejected (recorded : NoticesRecorded ctx.ids w)
    (reachable : Reachable ctx.ids w) {input : Value} {reason type : String} {owner : AgentRecord}
    {key : Key} {item : Value} (root : rootOf w.state = some owner)
    (named : factType input = some type)
    (rejects : validateFact w.state input ctx.now = .error reason)
    (returned : apply ctx input w = .ok w')
    (writes : WritesNotice owner type reason key item { w with events := [] } w') :
    (w.state.items.get? key = none ∨ Noticed ctx.ids (noticeRun owner) type reason key w) ∧
      NoticesRecorded ctx.ids w' := by
  have plain := plain_of_rejected rejects
  obtain ⟨⟨count, state⟩, event⟩ := writes
  -- A record of the current run is one of this fact's own, or another's.
  have older : ∀ name known,
      (currentNotices w.state (noticeRun owner)).notices.get? name = some known →
      ∃ type reason, Plain reason ∧ name = signature type reason ∧
        Noticed ctx.ids (noticeRun owner) type reason known.item w := by
    intro name known found
    obtain ⟨type', reason', plain', is_name, noticed⟩ :=
      recorded _ (currentNotices_recorded found) name known found
    rw [currentNotices_run] at noticed
    exact ⟨type', reason', plain', is_name, noticed⟩
  have here : w.state.items.get? key = none ∨
      Noticed ctx.ids (noticeRun owner) type reason key w := by
    rcases event with ⟨free, -⟩ | ⟨⟨known, found, rfl⟩, -⟩
    · exact .inl free
    · obtain ⟨type', reason', plain', is_name, noticed⟩ := older _ known found
      obtain ⟨rfl, rfl⟩ := signature_inj plain plain' is_name
      exact .inr noticed
  have noticed : Noticed ctx.ids (noticeRun owner) type reason key w' := by
    rcases here with free | before
    · refine .rejected reachable rfl root rfl named rejects returned free ?_
      simp [state]
    · exact .later before rfl returned
  refine ⟨here, fun notices stored name known found => ?_⟩
  simp only [state, Option.some.injEq] at stored
  subst stored
  simp only [Dictionary.get?_put] at found
  simp only [currentNotices_run]
  split at found
  next same =>
    cases found
    exact ⟨type, reason, plain, same.symm, noticed⟩
  next =>
    obtain ⟨type', reason', plain', is_name, before⟩ := older name known found
    exact ⟨type', reason', plain', is_name, .later before rfl returned⟩

theorem NoticesRecorded.later (recorded : NoticesRecorded ctx.ids w) {input : Value}
    (returned : apply ctx input w = .ok w')
    (same : w'.state.rejectionNotices = w.state.rejectionNotices) :
    NoticesRecorded ctx.ids w' := by
  intro notices stored name known found
  rw [same] at stored
  obtain ⟨type, reason, plain, is_name, noticed⟩ := recorded notices stored name known found
  exact ⟨type, reason, plain, is_name, .later noticed rfl returned⟩

/-! ### What holds of every reachable thread -/

structure Accountable (ids : IdSource) (w : Work) : Prop where
  orderly : Orderly ids w
  emptied : w.state.rootKey.isSome → w.state.pendingNotices = []
  recorded : NoticesRecorded ids w

theorem rootOf_none_iff (sound : Sound ids w) : rootOf w.state = none ↔ w.state.rootKey = none := by
  constructor
  · intro unowned
    cases root : w.state.rootKey with
    | none => rfl
    | some key =>
      have known := sound.tree.root key root
      simp only [rootOf, root, Option.bind_some] at unowned
      simp [agentRow, unowned] at known
  · intro unrooted
    simp [rootOf, unrooted]

theorem rejected_state {input : Value} {reason : String}
    (rejects : validateFact w.state input ctx.now = .error reason)
    (returned : apply ctx input w = .ok w') :
    w'.state = { w.state with
      items := w'.state.items
      pendingNotices := w'.state.pendingNotices
      rejectionNotices := w'.state.rejectionNotices } := by
  have ran := apply_ok returned
  rw [rejects] at ran
  obtain ⟨deferred, written⟩ := rejectFact_spec ctx input reason _ _ _ ran
  cases root : rootOf w.state with
  | none =>
    obtain ⟨-, state⟩ := deferred root
    rw [state]
  | some owner =>
    obtain ⟨type, key, item, -, ⟨count, state⟩, -⟩ := written owner root
    rw [state]

theorem Accountable.apply (fresh : FreshIds ctx.ids) (accountable : Accountable ctx.ids w)
    (reachable : Reachable ctx.ids w) {input : Value} (returned : apply ctx input w = .ok w') :
    Accountable ctx.ids w' := by
  obtain ⟨orderly, emptied, recorded⟩ := accountable
  have clean := orderly.sound.without_events
  have steps := apply_steps fresh input orderly.sound returned
  have ran := apply_ok returned
  cases validated : validateFact w.state input ctx.now with
  | ok fact =>
    rw [validated] at ran
    obtain ⟨_, _, accepted, rfl⟩ := validateFact_ok validated
    have concluded : Concluded ctx.ids { w with events := [] } w' :=
      foldFact_concludes fresh accepted.honest ⟨clean, orderly.rooted, orderly.links⟩ _ _ ran
    refine ⟨concluded.orderly, fun rooted => ?_, recorded.later returned concluded.rejected⟩
    rcases concluded.settled with ⟨unrooted, -⟩ | published
    · simp [unrooted] at rooted
    · exact published.emptied
  | error reason =>
    rw [validated] at ran
    have inert := rejected_state validated returned
    obtain ⟨deferred, written⟩ := rejectFact_spec ctx input reason _ _ _ ran
    have links : LinksKnown w'.state := by
      rw [inert]
      exact orderly.links
    refine ⟨⟨Steps.sound clean steps, steps.agentsRooted orderly.rooted, links⟩, ?_, ?_⟩
    · intro rooted
      rw [inert] at rooted
      cases root : rootOf w.state with
      | none => simp [(rootOf_none_iff orderly.sound).mp root] at rooted
      | some owner =>
        obtain ⟨type, key, item, -, ⟨count, state⟩, -⟩ := written owner root
        rw [state]
        exact emptied rooted
    · cases root : rootOf w.state with
      | none =>
        obtain ⟨-, state⟩ := deferred root
        exact recorded.later returned (by rw [state])
      | some owner =>
        obtain ⟨type, key, item, named, writes⟩ := written owner root
        exact (recorded.rejected reachable root named validated returned writes).2

theorem accountable_newThread (ids : IdSource) (threadId : String)
    (rootAgent : Option RootAgentInit) (config : CoreConfig) :
    Accountable ids (newThread threadId rootAgent config) where
  orderly := by
    refine ⟨sound_newThread .., ?_, ?_⟩
    · intro key known
      simp [newThread, createThreadState] at known
    · intro item links stored
      simp [newThread, createThreadState] at stored
  emptied _ := rfl
  recorded := by
    intro notices stored
    simp [newThread, createThreadState] at stored

theorem Reachable.apply (reachable : Reachable ctx.ids w) {input : Value}
    (returned : apply ctx input w = .ok w') : Reachable ctx.ids w' := by
  obtain ⟨threadId, rootAgent, config, log, calls⟩ := reachable
  exact ⟨threadId, rootAgent, config, _, calls.apply ctx rfl input returned⟩

theorem Calls.accountable (fresh : FreshIds ids) {log : List EventPayload}
    (calls : Calls ids w log w') (accountable : Accountable ids w) (reachable : Reachable ids w) :
    Accountable ids w' ∧ Reachable ids w' := by
  induction calls with
  | none => exact ⟨accountable, reachable⟩
  | apply before ctx same input returned ih =>
    subst same
    exact ⟨ih.1.apply fresh ih.2 returned, ih.2.apply returned⟩

theorem Reachable.accountable (fresh : FreshIds ids) (reachable : Reachable ids w) :
    Accountable ids w := by
  obtain ⟨threadId, rootAgent, config, log, calls⟩ := reachable
  refine (calls.accountable fresh (accountable_newThread ids threadId rootAgent config) ?_).1
  exact ⟨threadId, rootAgent, config, [], .none⟩

/-! ### Publication -/

theorem Calls.createdOnce (fresh : FreshIds ids) {log : List EventPayload}
    (calls : Calls ids w log w') (sound : Sound ids w) :
    (createdIds log).Nodup ∧
      (∀ id ∈ createdIds log, ¬ NamesItem w.state id ∧ NamesItem w'.state id) ∧
      ∀ id, NamesItem w.state id → NamesItem w'.state id := by
  induction calls with
  | none => simp [createdIds]
  | apply before ctx same input returned ih =>
    subst same
    obtain ⟨once, created, kept⟩ := ih
    have sound' := (before.keep fresh sound).1
    have steps := apply_steps fresh input sound' returned
    obtain ⟨⟨more, events, once', created'⟩, kept'⟩ :=
      Steps.createsOnce sound'.without_events steps
    simp only [List.nil_append] at events
    rw [events, createdIds_append]
    refine ⟨List.nodup_append.mpr ⟨once, once', ?_⟩, ?_, fun id named => kept' id (kept id named)⟩
    · rintro id early other late rfl
      exact (created' id late).1 (created id early).2
    · intro id member
      rcases List.mem_append.mp member with early | late
      · exact ⟨(created id early).1, kept' id (created id early).2⟩
      · exact ⟨fun named => (created' id late).1 (kept id named), (created' id late).2⟩

theorem Calls.rooted (fresh : FreshIds ids) {log : List EventPayload} (calls : Calls ids w log w')
    (sound : Sound ids w) (root : w.state.rootKey.isSome) : w'.state.rootKey.isSome := by
  induction calls with
  | none => exact root
  | apply before ctx same input returned ih =>
    subst same
    have steps := apply_steps fresh input (before.keep fresh sound).1 returned
    exact steps.rooted ih

/-- On the way from `w` to `w'` the first valid fact that left a root published, once and in
order, what waited by then: all that waited in `w`, and nothing waits in `w'`. -/
structure PublishedOnce (ids : IdSource) (w : Work) (log : List EventPayload) (w' : Work) :
    Prop where
  call : ∃ early w₁ ctx input fact w₂ late, Calls ids w early w₁ ∧ w₁.state.rootKey = none ∧
    w.state.pendingNotices <+: w₁.state.pendingNotices ∧ ctx.ids = ids ∧
    validateFact w₁.state input ctx.now = .ok fact ∧ apply ctx input w₁ = .ok w₂ ∧
    Published w₁.state.pendingNotices w₂ ∧ Calls ids w₂ late w' ∧
    log = early ++ w₂.events ++ late
  once : (createdIds log).Nodup
  emptied : w'.state.pendingNotices = []

/-- Until there is a root the waiting notices are only added to; the first valid fact that
leaves a root publishes them. -/
theorem Calls.published (fresh : FreshIds ids) {log : List EventPayload}
    (calls : Calls ids w log w') (reachable : Reachable ids w)
    (unrooted : w.state.rootKey = .none) :
    w'.state.rootKey = .none ∧ w.state.pendingNotices <+: w'.state.pendingNotices ∨
      PublishedOnce ids w log w' := by
  have accountable := reachable.accountable fresh
  induction calls with
  | none => exact .inl ⟨unrooted, List.prefix_rfl⟩
  | @apply log w₁ w₂ before ctx same input returned ih =>
    subst same
    obtain ⟨accountable₁, reachable₁⟩ := before.accountable fresh accountable reachable
    have accountable₂ := accountable₁.apply fresh reachable₁ returned
    have calls := before.apply ctx rfl input returned
    have once := (calls.createdOnce fresh accountable.orderly.sound).1
    have sound₁ := accountable₁.orderly.sound
    rcases ih with ⟨unrooted₁, waiting⟩ | published
    · have ran := apply_ok returned
      cases validated : validateFact w₁.state input ctx.now with
      | error reason =>
        rw [validated] at ran
        obtain ⟨-, state⟩ := (rejectFact_spec ctx input reason _ _ _ ran).1
          ((rootOf_none_iff sound₁).mpr unrooted₁)
        refine .inl ⟨by rw [state]; exact unrooted₁, waiting.trans ?_⟩
        rw [state]
        exact List.prefix_append ..
      | ok fact =>
        rw [validated] at ran
        obtain ⟨_, _, accepted, rfl⟩ := validateFact_ok validated
        have concluded : Concluded ctx.ids { w₁ with events := [] } w₂ :=
          foldFact_concludes fresh accepted.honest ⟨sound₁.without_events,
            accountable₁.orderly.rooted, accountable₁.orderly.links⟩ _ _ ran
        rcases concluded.settled with ⟨unrooted₂, same⟩ | published
        · exact .inl ⟨unrooted₂, same ▸ waiting⟩
        · exact .inr ⟨⟨log, w₁, ctx, input, _, w₂, [], before, unrooted₁, waiting, rfl, validated,
            returned, published, .none, (List.append_nil _).symm⟩, once, published.emptied⟩
    · obtain ⟨⟨early, v₁, ctx', input', fact, v₂, late, first, unrooted₁, waiting, same, valid,
        returned', published', rest, is_log⟩, -, -⟩ := published
      refine .inr ⟨⟨early, v₁, ctx', input', fact, v₂, late ++ w₂.events, first, unrooted₁, waiting,
        same, valid, returned', published', rest.apply ctx rfl input returned, ?_⟩, once, ?_⟩
      · rw [is_log, List.append_assoc]
      · -- The root is not lost, and under a root nothing waits.
        obtain ⟨key, root, _, _, _, is_root, -⟩ := published'.events
        have reachable₂ : Reachable ctx.ids v₂ := by
          have began := (first.accountable fresh accountable reachable).2
          rw [← same] at began ⊢
          exact began.apply returned'
        have later := (rest.apply ctx rfl input returned).rooted fresh
          (reachable₂.accountable fresh).orderly.sound (by simp [is_root])
        exact accountable₂.emptied later

/-- **Rejection is inert.** A rejected fact changes the diagnostics alone: without a root one
more notice waits, under a root one item is written, a new one or the one that an earlier
rejection of the same fact in the same run of the root created. What waits is published once,
in order, by the first valid fact that leaves a root. -/
theorem rejections_of_reachable (fresh : FreshIds ids) (reachable : Reachable ids w) :
    (∀ ctx input reason w', ctx.ids = ids →
      validateFact w.state input ctx.now = .error reason → apply ctx input w = .ok w' →
      (w'.state = { w.state with
        items := w'.state.items
        pendingNotices := w'.state.pendingNotices
        rejectionNotices := w'.state.rejectionNotices }) ∧
      (w.state.rootKey = none → w'.events = [] ∧ w'.state = { w.state with
        pendingNotices := w.state.pendingNotices ++ [rejection ctx.now input reason] }) ∧
      (w.state.rootKey.isSome → w'.state.pendingNotices = w.state.pendingNotices ∧
        ∃ owner type key item, rootOf w.state = some owner ∧ factType input = some type ∧
          w'.state.items = w.state.items.put key item ∧
          (w.state.items.get? key = none ∧ w'.events = [.itemCreated item] ∨
            Noticed ids (noticeRun owner) type reason key w ∧
              w'.events = [.itemUpdated item]))) ∧
    (w.state.rootKey.isSome → w.state.pendingNotices = []) ∧
    ∀ log w', w.state.rootKey = none → Calls ids w log w' →
      w'.state.rootKey = none ∧ w.state.pendingNotices <+: w'.state.pendingNotices ∨
        PublishedOnce ids w log w' := by
  have accountable := reachable.accountable fresh
  have sound := accountable.orderly.sound
  refine ⟨?_, accountable.emptied, fun log w' unrooted calls =>
    calls.published fresh reachable unrooted⟩
  rintro ctx input reason w' rfl rejects returned
  have ran := apply_ok returned
  rw [rejects] at ran
  obtain ⟨deferred, written⟩ := rejectFact_spec ctx input reason _ _ _ ran
  refine ⟨rejected_state rejects returned,
    fun unrooted => deferred ((rootOf_none_iff sound).mpr unrooted), fun rooted => ?_⟩
  cases root : rootOf w.state with
  | none => simp [(rootOf_none_iff sound).mp root] at rooted
  | some owner =>
    obtain ⟨type, key, item, named, writes⟩ := written owner root
    obtain ⟨here, -⟩ := accountable.recorded.rejected reachable root named rejects returned writes
    obtain ⟨⟨count, state⟩, event⟩ := writes
    refine ⟨by rw [state], owner, type, key, item, rfl, named, by rw [state], ?_⟩
    rcases event with ⟨free, events⟩ | ⟨-, taken, events⟩
    · exact .inl ⟨free, events⟩
    · rcases here with free | noticed
      · simp [free] at taken
      · exact .inr ⟨noticed, events⟩

end

def sampleRejected : Value := .obj [("type", .str "bogus")]

/-- A notice waits, and a turn that follows publishes it. -/
def publishesNext (w : Work) : Bool :=
  w.state.rootKey.isNone && w.state.pendingNotices.length == 1 &&
    leadsTo sampleIds (sampleInputs.take 1) w fun w' => w'.state.rootKey.isSome

theorem rejections_of_sample :
    ∃ w log w', Reachable sampleIds w ∧ w.state.pendingNotices.length = 1 ∧
      Calls sampleIds w log w' ∧ PublishedOnce sampleIds w log w' := by
  obtain ⟨w, reachable, checked⟩ := reachable_of_leadsTo
    (show leadsTo sampleIds [(1, sampleRejected)] (newThread "thread" none sampleConfig)
      publishesNext = true by decide +kernel)
  simp only [publishesNext, Bool.and_eq_true, Option.isNone_iff_eq_none, beq_iff_eq] at checked
  obtain ⟨⟨unrooted, one⟩, leads⟩ := checked
  obtain ⟨log, w', calls, rooted⟩ := calls_of_leadsTo leads
  refine ⟨w, log, w', reachable, one, calls, ?_⟩
  rcases (rejections_of_reachable freshIds_sampleIds reachable).2.2 log w' unrooted calls with
    ⟨unrooted', -⟩ | published
  · simp [unrooted'] at rooted
  · exact published

end Ace
