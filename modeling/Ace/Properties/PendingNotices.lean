import Ace.Properties.Reachability

/-!
# Notices that wait for a root

Of all the commands of the reducer only two touch the notices that wait: a rejection without a
root adds one, and the flush under a root publishes all of them. Every other command leaves
them alone, whatever it does to the tables.

`Quiet` relations are kept by the commands that name no root; the commands that adopt one are
followed for the notices alone.
-/

namespace Ace

open Script Script.Command

/-- The agents that item links name are known. -/
def LinksKnown (s : ThreadState) : Prop :=
  ∀ item links, s.itemLinks.get? item = some links → ∀ key,
    links.childAgent = some key ∨ links.targetAgent = some key → (s.agents.get? key).isSome

/-- What only rejected facts and the flush change. -/
def ThreadState.diagnostics (s : ThreadState) : List PendingNotice × Option RejectionNotices :=
  (s.pendingNotices, s.rejectionNotices)

/-- A change that leaves the diagnostics, the item links and the root alone. -/
structure StillChange (f : ThreadState → ThreadState) : Prop where
  waiting : ∀ s, (f s).diagnostics = s.diagnostics := by intro _; rfl
  links : ∀ s, (f s).itemLinks = s.itemLinks := by intro _; rfl
  known : ∀ s key, (s.agents.get? key).isSome → ((f s).agents.get? key).isSome := by
    intro _ _ known; exact known
  root : ∀ s, (f s).rootKey = s.rootKey := by intro _; rfl

theorem StillChange.apart {f : ThreadState → ThreadState}
    (same : ∀ s, ((f s).diagnostics, (f s).itemLinks, (f s).agents, (f s).rootKey) =
      (s.diagnostics, s.itemLinks, s.agents, s.rootKey)) : StillChange f := by
  simp only [Prod.mk.injEq] at same
  refine ⟨fun s => (same s).1, fun s => (same s).2.1, fun s key known => ?_,
    fun s => (same s).2.2.2⟩
  rwa [(same s).2.2.1]

/-- A relation between states that such changes keep, and events. -/
structure Still (R : Work → Work → Prop) : Prop where
  emit : ∀ w payload, R w (w.emit payload)
  change : ∀ w f, StillChange f → R w (w.change f)

/-- A relation that also allows new agents, and links to known ones. -/
structure Quiet (R : Work → Work → Prop) : Prop extends Still R where
  draw : ∀ w, R w { w with drawn := w.drawn + 1 }
  add : ∀ w key record, R w (w.change (addAgent · key record))
  link : ∀ w item key, (w.state.agents.get? key).isSome →
    R w (w.change fun s => registerItemLink { s with
      itemLinks := s.itemLinks.put item
        { (w.state.itemLinks.get? item).getD {} with childAgent := some key } } item)

theorem isSome_get?_modify {α : Type} {d : Dictionary α} {key other : Key} {f : α → α}
    (known : (d.get? key).isSome) : ((d.modify other f).get? key).isSome := by
  rw [Dictionary.get?_modify]
  split
  next same =>
    subst same
    simpa using known
  next => exact known

theorem stillChange_modify (key : Key) (f : AgentRecord → AgentRecord) :
    StillChange fun s => { s with agents := s.agents.modify key f } where
  known _ _ known := isSome_get?_modify known

theorem stillChange_indexes {f : ThreadState → ThreadState}
    (only : ∀ s, ∃ indexes, f s = { s with indexes }) : StillChange f where
  waiting s := by
    obtain ⟨_, same⟩ := only s
    have diagnostics := congrArg ThreadState.diagnostics same
    exact diagnostics
  links s := by
    obtain ⟨_, same⟩ := only s
    rw [same]
  known s _ known := by
    obtain ⟨_, same⟩ := only s
    rw [same]
    exact known
  root s := by
    obtain ⟨_, same⟩ := only s
    rw [same]

theorem stillChange_refreshAgentIndex (key : Key) (previous : Option String) :
    StillChange (refreshAgentIndex · key previous) := by
  refine stillChange_indexes fun s => ?_
  unfold refreshAgentIndex
  split
  · exact ⟨s.indexes, rfl⟩
  · exact ⟨_, rfl⟩

theorem stillChange_refreshItemIndex (key : Key) : StillChange (refreshItemIndex · key) := by
  refine stillChange_indexes fun s => ?_
  unfold refreshItemIndex
  simp only
  split <;> exact ⟨_, rfl⟩

theorem isSome_get?_addAgent {s : ThreadState} {key other : Key} (record : AgentRecord)
    (known : (s.agents.get? other).isSome) :
    ((addAgent s key record).agents.get? other).isSome := by
  rw [addAgent_agents, Dictionary.get?_put]
  split
  · rfl
  · exact known

/-! ### Commands that name no root -/

section

variable {R : Work → Work → Prop} [Std.Refl R] [IsTrans Work R]

theorem keeps_refuse (c : Prop) [Decidable c] (e : Fault) : Keeps R (refuse c e : Fold PUnit) := by
  intro w
  rw [ensures_refuse]
  exact fun _ => Std.Refl.refl w

namespace Still

variable (still : Still R)

include still

theorem changeState {f : ThreadState → ThreadState} (change : StillChange f) :
    Keeps R (changeState f) := by
  intro w
  rw [ensures_changeState]
  exact still.change w f change

theorem announce (payload : EventPayload) : Keeps R (Ace.emit payload) := by
  intro w
  rw [ensures_emit]
  exact still.emit w payload

theorem changeRecord (key : Key) (f : AgentRecord → AgentRecord) : Keeps R (changeRecord key f) :=
  still.changeState (stillChange_modify key f)

theorem announceAgentBranch (key : Key) :
    Keeps R (announceAgentBranch key) := by
  refine keeps_get_bind fun w => ?_
  exact Keeps.forM (fun agent _ => still.announce _) w

theorem recomputeStatuses (now : Nat) : Keeps R (recomputeStatuses now) := by
  refine Keeps.bind (still.changeState (.apart fun _ => rfl)) fun _ => ?_
  refine Keeps.bind (keeps_getState _) fun state => ?_
  split
  · exact keeps_throw _
  · refine Keeps.bind (Keeps.forM fun derived _ => ?_) fun _ => ?_
    · refine Keeps.bind (keeps_getState _) fun state => ?_
      split
      · exact keeps_pure _
      · split
        · exact keeps_pure _
        · refine Keeps.bind (Keeps.when fun _ => still.announceAgentBranch _) fun _ => ?_
          exact Keeps.bind (still.changeRecord _ _) fun _ => still.announce _
    · refine Keeps.bind (keeps_getState _) fun state => ?_
      simp only
      split
      · exact keeps_pure _
      · exact Keeps.bind (still.changeState (.apart fun _ => rfl)) fun _ => still.announce _

theorem changeAgent (key : Key) (fields : AgentChanges) :
    Keeps R (changeAgent key fields) := by
  refine Keeps.bind (keeps_getState _) fun state => ?_
  split
  · exact keeps_throw _
  · simp only
    split
    · exact keeps_pure _
    · exact Keeps.bind (still.changeRecord key _) fun _ => still.announce _

theorem moveAgent (key : Key) (parentKey : Option Key) (parentId : Option String)
    (clearsSpawn : Bool) : Keeps R (moveAgent key parentKey parentId clearsSpawn) := by
  refine Keeps.bind (still.changeRecord key _) fun _ => ?_
  refine Keeps.bind (keeps_getState _) fun state => ?_
  refine Keeps.bind (still.changeAgent key _) fun _ => ?_
  exact still.changeState (stillChange_refreshAgentIndex key _)

theorem updateItem (key : Key) (item : Value) :
    Keeps R (updateItem key item) :=
  Keeps.bind (still.changeState (.apart fun _ => rfl)) fun _ => still.announce _

end Still

def KeepsKnown (w w' : Work) : Prop :=
  ∀ key, (w.state.agents.get? key).isSome → (w'.state.agents.get? key).isSome

instance : Std.Refl KeepsKnown := ⟨fun _ _ known => known⟩

instance : IsTrans Work KeepsKnown :=
  ⟨fun _ _ _ first second key known => second key (first key known)⟩

theorem still_known : Still KeepsKnown where
  emit _ _ _ known := known
  change w _ change key := change.known w.state key

namespace Quiet

variable (quiet : Quiet R)

include quiet

theorem nextId (ctx : ApplyContext) (kind : EntityKind) : Keeps R (nextId ctx kind) := by
  intro w
  apply ensures_nextId
  exact quiet.draw w

/-! ### Agents -/

variable (ctx : ApplyContext)

theorem ensureAgent (key : Key) : Keeps R (ensureAgent ctx key) := by
  refine Keeps.bind (keeps_getState _) fun state => ?_
  split
  · exact keeps_pure _
  · refine Keeps.bind (quiet.nextId ctx _) fun id => ?_
    refine Keeps.bind (fun w => ?_) fun _ => ?_
    · rw [ensures_changeState]
      exact quiet.add w key _
    · exact Keeps.bind (quiet.toStill.announce _) fun _ => keeps_pure _

theorem setParent (key : Key) (parentKey : Option Key) :
    Keeps R (setParent ctx key parentKey) := by
  refine Keeps.bind (quiet.ensureAgent ctx key) fun record => ?_
  refine Keeps.bind (keeps_refuse _ _) fun _ => ?_
  cases parentKey with
  | none => exact quiet.toStill.moveAgent key none none _
  | some parentKey =>
    refine Keeps.bind (keeps_getState _) fun state => ?_
    refine Keeps.bind (keeps_refuse _ _) fun _ => ?_
    exact Keeps.bind (quiet.ensureAgent ctx parentKey) fun parent =>
      quiet.toStill.moveAgent key _ _ _

/-! ### Links -/

theorem joinSpawnLink (itemKey : Key) (item : Value) (key : Key) :
    Keeps R (joinSpawnLink itemKey item key) := by
  refine fun w => ?_
  unfold Ace.joinSpawnLink
  simp only [ensures_bind, ensures_getState]
  split
  · rw [ensures_pure]
    exact Std.Refl.refl w
  next record found =>
    split
    · rw [ensures_pure]
      exact Std.Refl.refl w
    · simp only [ensures_bind, ensures_getState]
      refine Ensures.mono ((quiet.toStill.changeAgent key
        { spawnedBy := some (some (Item.id item)) } w).and (still_known.changeAgent key _ w)) ?_
      rintro _ w₁ ⟨kept, known⟩
      split
      · rw [ensures_changeState]
        exact IsTrans.trans _ _ _ kept (quiet.link w₁ itemKey key (known key (by simp [found])))
      · rw [ensures_pure]
        exact kept

theorem joinSpawnLinks (itemKey : Key) (agents : List Key) :
    Keeps R (joinSpawnLinks itemKey agents) := by
  refine Keeps.bind (keeps_getState _) fun state => ?_
  split
  · exact keeps_pure _
  next item _ =>
    refine Keeps.bind (Keeps.forM fun key _ => quiet.joinSpawnLink itemKey item key) fun _ => ?_
    exact quiet.toStill.changeState (.apart fun _ => rfl)

theorem joinItemLink (key : Key) : Keeps R (joinItemLink ctx key) := by
  refine Keeps.bind (keeps_getState _) fun state => ?_
  split
  · split
    · exact keeps_pure _
    next linkedKey _ =>
      refine Keeps.bind (quiet.ensureAgent ctx linkedKey) fun linked => ?_
      split
      · split
        · refine Keeps.bind (quiet.toStill.changeRecord linkedKey _) fun _ => ?_
          refine Keeps.bind (keeps_getState _) fun state => ?_
          refine Keeps.bind (quiet.setParent ctx linkedKey _) fun _ => ?_
          exact Keeps.bind (quiet.toStill.changeAgent linkedKey _) fun _ =>
            quiet.toStill.updateItem key _
        · exact keeps_pure _
      · split
        · exact quiet.toStill.updateItem key _
        · exact keeps_pure _
  · exact keeps_pure _

theorem reconcileLinks : Keeps R (reconcileLinks ctx) := by
  refine Keeps.bind (keeps_getState _) fun state => ?_
  refine Keeps.bind (Keeps.forM fun entry _ => quiet.joinSpawnLinks entry.1 _) fun _ => ?_
  refine Keeps.bind (keeps_getState _) fun state => ?_
  refine Keeps.forM fun key _ => ?_
  exact Keeps.bind (quiet.joinItemLink ctx key) fun _ => quiet.toStill.changeState (.apart fun _ => rfl)

end Quiet

end

/-! ### The same notices wait -/

/-- The same diagnostics, and links still name known agents. -/
structure Waits (w w' : Work) : Prop where
  same : w'.state.diagnostics = w.state.diagnostics
  known : KeepsKnown w w'
  links : LinksKnown w.state → LinksKnown w'.state

instance : Std.Refl Waits := ⟨fun _ => ⟨rfl, fun _ known => known, fun links => links⟩⟩

instance : IsTrans Work Waits where
  trans _ _ _ first second :=
    ⟨second.same.trans first.same, fun key known => second.known key (first.known key known),
      fun links => second.links (first.links links)⟩

theorem Waits.pending {w w' : Work} (waits : Waits w w') :
    w'.state.pendingNotices = w.state.pendingNotices := congrArg Prod.fst waits.same

theorem Waits.rejected {w w' : Work} (waits : Waits w w') :
    w'.state.rejectionNotices = w.state.rejectionNotices := congrArg Prod.snd waits.same

theorem LinksKnown.mono {s s' : ThreadState} (links : LinksKnown s)
    (same : s'.itemLinks = s.itemLinks)
    (known : ∀ key, (s.agents.get? key).isSome → (s'.agents.get? key).isSome) :
    LinksKnown s' := by
  intro item entry stored key names
  rw [same] at stored
  exact known key (links item entry stored key names)

theorem LinksKnown.put {s s' : ThreadState} (links : LinksKnown s) {item : Key}
    {entry : ItemLinks} (same : s'.itemLinks = s.itemLinks.put item entry)
    (agents : s'.agents = s.agents)
    (named : ∀ key, entry.childAgent = some key ∨ entry.targetAgent = some key →
      (s.agents.get? key).isSome) : LinksKnown s' := by
  intro other stored found key names
  rw [same, Dictionary.get?_put] at found
  rw [agents]
  split at found
  next => 
    cases found
    exact named key names
  next => exact links other stored found key names

theorem LinksKnown.getD {s : ThreadState} (links : LinksKnown s) (item key : Key)
    (names : ((s.itemLinks.get? item).getD {}).childAgent = some key ∨
      ((s.itemLinks.get? item).getD {}).targetAgent = some key) :
    (s.agents.get? key).isSome := by
  cases stored : s.itemLinks.get? item with
  | none => simp [stored] at names
  | some entry =>
    rw [stored] at names
    exact links item entry stored key names

theorem quiet_waits : Quiet Waits where
  emit _ _ := ⟨rfl, fun _ known => known, fun links => links⟩
  draw _ := ⟨rfl, fun _ known => known, fun links => links⟩
  change w f change := ⟨change.waiting _, change.known _,
    fun links => links.mono (change.links _) (change.known _)⟩
  add w key record := by
    have kept : addAgent w.state key record = { w.state with
        agents := (addAgent w.state key record).agents
        indexes := (addAgent w.state key record).indexes
        rootKey := (addAgent w.state key record).rootKey } := by
      unfold addAgent refreshAgentIndex
      split <;> rfl
    refine ⟨?_, fun other known => isSome_get?_addAgent record known, fun links =>
      links.mono ?_ fun other known => isSome_get?_addAgent record known⟩
    · have diagnostics := congrArg ThreadState.diagnostics kept
      exact diagnostics
    · have links := congrArg ThreadState.itemLinks kept
      exact links
  link w item key known := by
    refine ⟨rfl, fun _ known => known, fun links => links.put rfl rfl ?_⟩
    intro other names
    rcases names with child | target
    · cases child
      exact known
    · exact links.getD item other (.inr target)

theorem still_waits : Still Waits := quiet_waits.toStill

/-- A change that may name another root. -/
structure TameChange (f : ThreadState → ThreadState) : Prop where
  waiting : ∀ s, (f s).diagnostics = s.diagnostics := by intro _; rfl
  links : ∀ s, (f s).itemLinks = s.itemLinks := by intro _; rfl
  known : ∀ s key, (s.agents.get? key).isSome → ((f s).agents.get? key).isSome := by
    intro _ _ known; exact known

theorem TameChange.apart {f : ThreadState → ThreadState}
    (same : ∀ s, ((f s).diagnostics, (f s).itemLinks, (f s).agents) =
      (s.diagnostics, s.itemLinks, s.agents)) : TameChange f := by
  simp only [Prod.mk.injEq] at same
  refine ⟨fun s => (same s).1, fun s => (same s).2.1, fun s key known => ?_⟩
  rwa [(same s).2.2]

theorem tameChange {f : ThreadState → ThreadState}
    (kept : ∀ s, (f s).diagnostics = s.diagnostics ∧ (f s).itemLinks = s.itemLinks ∧
      ∀ key, (s.agents.get? key).isSome → ((f s).agents.get? key).isSome) : TameChange f :=
  ⟨fun s => (kept s).1, fun s => (kept s).2.1, fun s => (kept s).2.2⟩

theorem tameChange_modify {f : ThreadState → ThreadState}
    (modifies : ∀ s, (f s).diagnostics = s.diagnostics ∧ (f s).itemLinks = s.itemLinks ∧
      ∃ key g, (f s).agents = s.agents.modify key g) : TameChange f := by
  refine tameChange fun s => ?_
  obtain ⟨waiting, links, key, g, agents⟩ := modifies s
  refine ⟨waiting, links, fun other known => ?_⟩
  rw [agents]
  exact isSome_get?_modify known

theorem StillChange.tame {f : ThreadState → ThreadState} (still : StillChange f) : TameChange f :=
  ⟨still.waiting, still.links, still.known⟩

theorem waits_change {f : ThreadState → ThreadState} (tame : TameChange f) :
    Keeps Waits (changeState f) := by
  intro w
  rw [ensures_changeState]
  exact ⟨tame.waiting _, tame.known _, fun links => links.mono (tame.links _) (tame.known _)⟩

theorem waits_record {f : ThreadState → ThreadState}
    (modifies : ∀ s, (f s).diagnostics = s.diagnostics ∧ (f s).itemLinks = s.itemLinks ∧
      ∃ key g, (f s).agents = s.agents.modify key g) : Keeps Waits (changeState f) :=
  waits_change (tameChange_modify modifies)

section

variable (ctx : ApplyContext)

theorem waits_adoptRoot (key : Key) : Keeps Waits (adoptRoot ctx key) := by
  refine Keeps.bind (keeps_getState _) fun state => ?_
  refine Keeps.bind (waits_change (.apart fun _ => rfl)) fun _ => ?_
  refine Keeps.bind (quiet_waits.setParent ctx key none) fun _ => ?_
  refine Keeps.bind (quiet_waits.ensureAgent ctx key) fun _ => ?_
  refine Keeps.bind (still_waits.changeAgent key _) fun _ => ?_
  split
  · exact keeps_pure _
  next oldRootKey _ =>
    split
    · exact keeps_pure _
    · refine Keeps.bind (keeps_getState _) fun state => ?_
      split
      · exact keeps_pure _
      · split
        · exact Keeps.bind (quiet_waits.setParent ctx oldRootKey _) fun _ =>
            still_waits.changeAgent oldRootKey _
        · exact keeps_pure _

theorem waits_ensureParent (key parentKey : Key) :
    Keeps Waits (ensureParent ctx key parentKey) := by
  refine Keeps.bind (keeps_refuse _ _) fun _ => ?_
  refine Keeps.bind (quiet_waits.ensureAgent ctx parentKey) fun _ => ?_
  refine Keeps.bind (keeps_getState _) fun state => ?_
  exact Keeps.when fun _ => waits_adoptRoot ctx parentKey

/-! ### Links -/

theorem waits_nameSpawn (key spawnedBy : Key) : Keeps Waits (nameSpawn key spawnedBy) :=
  Keeps.bind (still_waits.changeRecord key _) fun _ => waits_change (.apart fun _ => rfl)

theorem waits_seeAgent (fact : AgentSeenFact) : Keeps Waits (seeAgent ctx fact) := by
  refine Keeps.bind (Keeps.whenSome fun parent _ =>
    waits_ensureParent ctx fact.agent parent) fun _ => ?_
  refine Keeps.bind (quiet_waits.ensureAgent ctx fact.agent) fun _ => ?_
  refine Keeps.bind (Keeps.when fun _ => waits_adoptRoot ctx fact.agent) fun _ => ?_
  refine Keeps.bind (Keeps.when fun _ => Keeps.whenSome fun parent _ =>
    quiet_waits.setParent ctx fact.agent (some parent)) fun _ => ?_
  refine Keeps.bind (Keeps.whenSome fun item _ => waits_nameSpawn fact.agent item) fun _ => ?_
  exact Keeps.bind (still_waits.changeAgent fact.agent _) fun _ => quiet_waits.reconcileLinks ctx

theorem waits_linkAgent (fact : AgentLinkedFact) : Keeps Waits (linkAgent ctx fact) := by
  refine Keeps.bind (Keeps.whenSome fun parent _ =>
    waits_ensureParent ctx fact.agent parent) fun _ => ?_
  refine Keeps.bind (quiet_waits.ensureAgent ctx fact.agent) fun _ => ?_
  refine Keeps.bind (Keeps.whenSome fun parent _ =>
    quiet_waits.setParent ctx fact.agent (some parent)) fun _ => ?_
  refine Keeps.bind (Keeps.whenSome fun item _ => waits_nameSpawn fact.agent item) fun _ => ?_
  exact Keeps.bind (still_waits.changeAgent fact.agent _) fun _ => quiet_waits.reconcileLinks ctx

theorem waits_ensureInitialRoot : Keeps Waits (ensureInitialRoot ctx) := by
  refine Keeps.bind (keeps_getState _) fun state => ?_
  split
  · exact keeps_pure _
  · exact Keeps.bind (waits_change (.apart fun _ => rfl)) fun _ => waits_seeAgent ctx _

/-! ### Items -/

theorem ensureAgent_known (key : Key) (w : Work) :
    Ensures (ensureAgent ctx key) w fun _ w' => (w'.state.agents.get? key).isSome := by
  refine Ensures.mono (ensureAgent_cases ctx key w) ?_
  rintro record w' (⟨known, rfl⟩ | ⟨-, rfl, -⟩)
  · simp [known]
  · simp [createdAgent_known]

theorem waits_linkDetail (key : Key) (draft : Value) (name idName : String)
    {link : ItemLinks → Key → ItemLinks}
    (adds : ∀ links agent other,
      (link links agent).childAgent = some other ∨ (link links agent).targetAgent = some other →
      other = agent ∨ links.childAgent = some other ∨ links.targetAgent = some other) :
    Keeps Waits (linkDetail ctx key draft name idName link) := by
  refine fun w => ?_
  unfold linkDetail
  simp only
  split
  next agentKey _ =>
    simp only [ensures_bind]
    refine Ensures.mono ((quiet_waits.ensureAgent ctx agentKey w).and
      (ensureAgent_known ctx agentKey w)) ?_
    rintro named w₁ ⟨kept, known⟩
    simp only [ensures_changeState, ensures_pure]
    refine IsTrans.trans _ _ _ kept ⟨rfl, fun _ known => known, fun links => ?_⟩
    refine links.put rfl rfl fun other names => ?_
    rcases adds _ _ _ names with same | before
    · rw [same]
      exact known
    · exact links.getD key other before
  next =>
    rw [ensures_pure]
    exact Std.Refl.refl w

theorem waits_canonicalDetail (key : Key) (draft : Value) :
    Keeps Waits (canonicalDetail ctx key draft) := by
  unfold canonicalDetail
  split
  · refine waits_linkDetail ctx key draft _ _ ?_
    rintro links agent other (child | target)
    · exact .inl (Option.some.inj child).symm
    · exact .inr (.inr target)
  · split
    · refine waits_linkDetail ctx key draft _ _ ?_
      rintro links agent other (child | target)
      · exact .inr (.inl child)
      · exact .inl (Option.some.inj target).symm
    · exact keeps_pure _

theorem waits_patchDetail (key : Key) (detail : Value) :
    Keeps Waits (patchDetail ctx key detail) := by
  unfold patchDetail
  split
  · exact keeps_pure _
  · exact waits_canonicalDetail ctx key detail

theorem waits_appendDelta (key : Key) (field : DeltaField) (text : String) :
    Keeps Waits (appendDelta key field text) := by
  refine Keeps.bind (keeps_getState _) fun state => ?_
  split
  · exact keeps_throw _
  · split
    · exact keeps_throw _
    · refine Keeps.bind (waits_change (.apart fun _ => rfl)) fun _ => ?_
      exact Keeps.forM fun payload _ => still_waits.announce payload

theorem waits_storeItem (key : Key) (item : Value) : Keeps Waits (storeItem key item) := by
  refine Keeps.bind (keeps_getState _) fun state => ?_
  refine Keeps.bind (waits_change (tameChange fun s => ?_)) fun _ => still_waits.announce _
  have still := stillChange_refreshItemIndex key
  exact ⟨still.waiting _, still.links _, still.known { s with items := s.items.put key item }⟩

theorem waits_storePatched (key : Key) (previous : Option Value) (patch item : Value) :
    Keeps Waits (storePatched key previous patch item) := by
  unfold storePatched
  split
  · exact waits_storeItem key item
  · exact Keeps.bind (waits_storeItem key _) fun _ => waits_appendDelta key .output _

theorem waits_linkSpawn (agentKey key : Key) (previous : Option Value) (detail item : Value) :
    Keeps Waits (linkSpawn ctx agentKey key previous detail item) := by
  refine Keeps.bind (keeps_getState _) fun state => ?_
  refine Keeps.whenSome fun child _ => ?_
  exact Keeps.when fun _ => waits_linkAgent ctx _

theorem waits_upsertItem (agentKey key : Key) (patch : Value) :
    Keeps Waits (upsertItem ctx agentKey key patch) := by
  refine Keeps.bind (quiet_waits.ensureAgent ctx agentKey) fun record => ?_
  refine Keeps.bind (keeps_getState _) fun state => ?_
  refine Keeps.bind (keeps_refuse _ _) fun _ => ?_
  refine Keeps.bind ?_ fun id => Keeps.bind ?_ fun detail => Keeps.bind ?_ fun item => ?_
  · unfold itemIdFor
    split
    · exact keeps_pure _
    · exact quiet_waits.nextId ctx _
  · exact waits_patchDetail ctx key _
  · unfold parseItem
    split
    · exact keeps_throw _
    · split
      · exact keeps_throw _
      · exact keeps_pure _
  · refine Keeps.bind (waits_storePatched key _ _ _) fun _ => ?_
    refine Keeps.bind (waits_linkSpawn ctx agentKey key _ _ _) fun _ => ?_
    exact Keeps.bind (keeps_getState _) fun _ => keeps_pure _

theorem waits_appendItem (agent key : Key) (field : DeltaField) (append : String) :
    Keeps Waits (appendItem ctx agent key field append) := by
  refine Keeps.bind (quiet_waits.ensureAgent ctx agent) fun _ => ?_
  refine Keeps.bind (keeps_getState _) fun state => ?_
  refine Keeps.bind (Keeps.when fun _ => ?_) fun _ => ?_
  · exact Keeps.bind (waits_upsertItem ctx agent key _) fun _ => keeps_pure _
  · refine Keeps.bind (keeps_getState _) fun state => ?_
    split
    · refine Keeps.bind (keeps_refuse _ _) fun _ => ?_
      refine Keeps.bind (waits_appendDelta key field append) fun _ => ?_
      exact Keeps.bind (Keeps.when fun _ => still_waits.changeRecord agent _) fun _ => keeps_pure _
    · exact keeps_throw _

theorem waits_reconcileItem (agent key : Key) (draft : Value) :
    Keeps Waits (reconcileItem ctx agent key draft) := by
  refine Keeps.bind (keeps_getState _) fun state => ?_
  split
  · exact waits_upsertItem ctx agent key draft
  · split
    · exact keeps_pure _
    · split
      · exact waits_upsertItem ctx agent key draft
      · exact waits_upsertItem ctx agent key _

theorem waits_writeItem (agent : Key) {write : Fold Value} (keeps : Keeps Waits write) :
    Keeps Waits (writeItem agent write) := by
  refine Keeps.bind keeps fun item => Keeps.bind (keeps_getState _) fun state => ?_
  split
  · exact keeps_pure _
  · split
    · exact keeps_pure _
    · exact still_waits.changeRecord agent _

/-! ### Interactions and tasks -/

theorem waits_ensureItem (agent : Key) (item : Option Key) (draft : Value) :
    Keeps Waits (ensureItem ctx agent item draft) := by
  unfold ensureItem
  split
  · exact keeps_pure _
  next key =>
    refine Keeps.bind (keeps_getState _) fun state => ?_
    split
    · exact keeps_pure _
    · exact Keeps.bind (waits_upsertItem ctx agent key draft) fun _ => keeps_pure _

theorem waits_openInteraction (fact : InteractionOpenedFact) :
    Keeps Waits (openInteraction ctx fact) := by
  unfold openInteraction
  simp only
  split
  · exact keeps_throw _
  · refine Keeps.bind (keeps_getState _) fun state => ?_
    split
    · exact keeps_pure _
    · refine Keeps.bind (quiet_waits.ensureAgent ctx fact.agent) fun record => ?_
      refine Keeps.bind (waits_ensureItem ctx fact.agent _ _) fun item => ?_
      refine Keeps.bind (quiet_waits.nextId ctx _) fun id => ?_
      refine Keeps.bind (keeps_getState _) fun state => ?_
      refine Keeps.bind (waits_change (tameChange fun s => ?_)) fun _ =>
        still_waits.announce _
      unfold archiveInteraction
      split <;> exact ⟨rfl, rfl, fun _ known => known⟩

theorem waits_endInteraction (key : Key) (interaction : Interaction) (state : InteractionState)
    (now : Nat) (resolution : Option Value) (resolvedBy : Option String)
    (autoReviewed : Option Bool) :
    Keeps Waits
      (endInteraction key interaction state now resolution resolvedBy autoReviewed) :=
  Keeps.bind (waits_change (.apart fun _ => rfl)) fun _ => still_waits.announce _

theorem waits_closeInteraction (fact : InteractionClosedFact) :
    Keeps Waits (closeInteraction ctx fact) := by
  refine Keeps.bind (keeps_getState _) fun state => ?_
  split
  · exact keeps_pure _
  · split
    · exact keeps_pure _
    · exact waits_endInteraction _ _ _ _ _ _ _

theorem waits_attachTask (key : Key) (taskId : String) :
    Keeps Waits (attachTask key taskId) := by
  refine Keeps.bind (keeps_getState _) fun state => ?_
  split
  · split
    · exact still_waits.updateItem key _
    · exact keeps_pure _
  · exact keeps_pure _

theorem waits_refineBackground (fact : BackgroundStartedFact) (task : BackgroundTask) :
    Keeps Waits (refineBackground ctx fact task) := by
  refine Keeps.bind (quiet_waits.ensureAgent ctx fact.agent) fun record => ?_
  refine Keeps.bind ?_ fun withChild => ?_
  · unfold nameChild
    split
    · exact Keeps.bind (quiet_waits.ensureAgent ctx _) fun _ => keeps_pure _
    · exact keeps_pure _
  · refine Keeps.bind (keeps_getState _) fun state => ?_
    refine Keeps.bind (Keeps.when fun _ => waits_attachTask _ _) fun _ => ?_
    simp only
    split
    · exact keeps_pure _
    · refine Keeps.bind (waits_change (.apart fun _ => rfl)) fun _ => ?_
      refine Keeps.bind (still_waits.announce _) fun _ => ?_
      exact Keeps.whenSome fun child _ => waits_linkAgent ctx _

theorem waits_startBackground (fact : BackgroundStartedFact) :
    Keeps Waits (startBackground ctx fact) := by
  refine Keeps.bind (keeps_getState _) fun state => ?_
  split
  · exact waits_refineBackground ctx fact _
  · simp only
    split
    · exact keeps_pure _
    · refine Keeps.bind (quiet_waits.ensureAgent ctx fact.agent) fun record => ?_
      refine Keeps.bind ?_ fun child => ?_
      · unfold ensureChild
        split
        · exact Keeps.bind (quiet_waits.ensureAgent ctx _) fun _ => keeps_pure _
        · exact keeps_pure _
      · refine Keeps.bind (waits_ensureItem ctx fact.agent _ _) fun item => ?_
        refine Keeps.bind (quiet_waits.nextId ctx _) fun id => ?_
        refine Keeps.bind (waits_change (tameChange fun s => ?_)) fun _ => ?_
        · unfold archiveTask
          split <;> exact ⟨rfl, rfl, fun _ known => known⟩
        · refine Keeps.bind (still_waits.announce _) fun _ => ?_
          refine Keeps.bind (Keeps.whenSome fun key _ => waits_attachTask key id) fun _ => ?_
          exact Keeps.whenSome fun child _ => waits_linkAgent ctx _

theorem waits_listenBackground (key : Key) (ports : List Nat) :
    Keeps Waits (listenBackground key ports) := by
  refine Keeps.bind (keeps_getState _) fun state => ?_
  split
  · exact keeps_pure _
  · simp only
    split
    · exact keeps_pure _
    · exact Keeps.bind (waits_change (.apart fun _ => rfl)) fun _ => still_waits.announce _

theorem waits_settleTask (key : Key) (task : BackgroundTask) (status : TaskStatus)
    (endedAt : Nat) (uncertainTasks : Dictionary Unit) :
    Keeps Waits (settleTask key task status endedAt uncertainTasks) :=
  Keeps.bind (waits_change (.apart fun _ => rfl)) fun _ => still_waits.announce _

theorem waits_endBackground (key : Key) (status : TaskEnd) (uncertain : Bool) :
    Keeps Waits (endBackground ctx key status uncertain) := by
  refine Keeps.bind (keeps_getState _) fun state => ?_
  split
  · exact keeps_pure _
  · simp only
    split
    · exact keeps_pure _
    · exact waits_settleTask _ _ _ _ _

/-! ### Runs -/

theorem waits_cancelTool (key : Key) (now : Nat) : Keeps Waits (cancelTool key now) := by
  refine Keeps.bind (keeps_getState _) fun state => ?_
  split
  · split
    · exact waits_storeItem key _
    · exact keeps_pure _
  · exact keeps_pure _

theorem waits_closeText (key : Key) : Keeps Waits (closeText key) := by
  refine Keeps.bind (keeps_getState _) fun state => ?_
  split
  · exact waits_change (stillChange_refreshItemIndex key).tame
  · exact waits_storeItem key _

theorem waits_cancelInteraction (agentId : String) (now : Nat)
    (resolving : Option (List String)) (key : Key) :
    Keeps Waits (cancelInteraction agentId now resolving key) := by
  refine Keeps.bind (keeps_getState _) fun state => ?_
  split
  · exact keeps_throw _
  · split
    · exact keeps_pure _
    · split
      · exact keeps_pure _
      · exact waits_endInteraction _ _ _ _ _ _ _

theorem waits_cancelOpenWork (agentId : String) (now : Nat) (resolving : Option (List String)) :
    Keeps Waits (cancelOpenWork agentId now resolving) := by
  refine Keeps.bind (keeps_getState _) fun state => ?_
  refine Keeps.bind (Keeps.forM fun key _ => ?_) fun _ => ?_
  · refine Keeps.bind (keeps_getState _) fun state => ?_
    split
    · exact keeps_throw _
    · exact Keeps.when fun _ => waits_cancelTool key now
  · refine Keeps.bind (keeps_getState _) fun state => ?_
    refine Keeps.bind (Keeps.forM fun key _ => waits_closeText key) fun _ => ?_
    refine Keeps.bind (keeps_getState _) fun state => ?_
    exact Keeps.forM fun key _ => waits_cancelInteraction agentId now resolving key

theorem tameChange_storeRun (key : Key) (run : Run) :
    TameChange fun s => { storeRun s key run with hasRun := true } := by
  refine tameChange fun s => ?_
  unfold storeRun
  simp only
  split
  · exact ⟨rfl, rfl, fun _ known => known⟩
  · exact ⟨rfl, rfl, fun _ known => isSome_get?_modify known⟩

theorem waits_endTurn (fact : TurnEndedFact) : Keeps Waits (endTurn ctx fact) := by
  refine Keeps.bind (quiet_waits.ensureAgent ctx fact.agent) fun record => ?_
  refine Keeps.bind (keeps_getState _) fun state => ?_
  simp only
  split
  · split
    · exact Keeps.bind (waits_change (.apart fun _ => rfl)) fun _ => still_waits.announce _
    · exact keeps_pure _
  · split
    · exact keeps_pure _
    · refine Keeps.bind ?_ fun run => ?_
      · unfold runToEnd
        split
        · exact keeps_pure _
        · refine Keeps.bind (quiet_waits.nextId ctx _) fun id => ?_
          refine Keeps.bind (keeps_getState _) fun state => ?_
          refine Keeps.bind (waits_change (tameChange_storeRun _ _)) fun _ => ?_
          exact Keeps.bind (still_waits.announce _) fun _ => keeps_pure _
      · refine Keeps.bind ?_ fun _ => ?_
        · exact Keeps.bind (waits_change (.apart fun _ => rfl)) fun _ => still_waits.announce _
        · split
          · exact keeps_pure _
          · exact Keeps.bind (waits_record fun _ => ⟨rfl, rfl, _, _, rfl⟩) fun _ =>
              waits_cancelOpenWork _ _ _

theorem waits_startTurn (fact : TurnStartedFact) : Keeps Waits (startTurn ctx fact) := by
  refine Keeps.bind (quiet_waits.ensureAgent ctx fact.agent) fun record => ?_
  refine Keeps.bind (keeps_getState _) fun state => ?_
  simp only
  split
  · exact keeps_pure _
  · split
    · exact keeps_pure _
    · refine Keeps.bind (Keeps.when fun _ => still_waits.announceAgentBranch _) fun _ => ?_
      refine Keeps.bind (Keeps.whenSome fun active _ => waits_endTurn ctx _) fun _ => ?_
      refine Keeps.bind (quiet_waits.nextId ctx _) fun id => ?_
      refine Keeps.bind (keeps_getState _) fun state => ?_
      refine Keeps.bind (waits_change (tameChange_storeRun _ _)) fun _ => ?_
      exact Keeps.bind (still_waits.changeRecord _ _) fun _ => still_waits.announce _

/-! ### The end of the process -/

theorem waits_exitAgent (deliberate : Bool) (message : Option String) (now : Nat) (key : Key) :
    Keeps Waits (exitAgent deliberate message now key) := by
  refine Keeps.bind (keeps_getState _) fun state => ?_
  split
  · exact keeps_pure _
  · split
    · exact keeps_pure _
    · refine Keeps.bind (still_waits.changeRecord key _) fun _ => ?_
      split
      · split
        · exact waits_record fun _ => ⟨rfl, rfl, _, _, rfl⟩
        · exact keeps_pure _
      · refine Keeps.bind (keeps_getState _) fun state => ?_
        split
        · exact Keeps.bind (waits_record fun _ => ⟨rfl, rfl, _, _, rfl⟩) fun _ =>
            still_waits.announce _
        · exact still_waits.changeRecord key _

theorem waits_exitProcess (deliberate : Bool) (message : Option String) :
    Keeps Waits (exitProcess ctx deliberate message) := by
  refine Keeps.bind (keeps_getState _) fun state => ?_
  split
  · exact keeps_pure _
  · refine Keeps.bind (waits_change (.apart fun _ => rfl)) fun _ => ?_
    refine Keeps.bind (keeps_getState _) fun state => ?_
    refine Keeps.bind (Keeps.forM fun key _ => ?_) fun _ => ?_
    · refine Keeps.bind (keeps_getState _) fun state => ?_
      split
      · exact keeps_throw _
      · split
        · exact keeps_pure _
        · exact waits_endInteraction _ _ _ _ _ _ _
    refine Keeps.bind (keeps_getState _) fun state => ?_
    refine Keeps.bind (Keeps.forM fun key _ => ?_) fun _ => ?_
    · refine Keeps.bind (keeps_getState _) fun state => ?_
      split
      · exact keeps_throw _
      · split
        · exact keeps_pure _
        · exact waits_settleTask _ _ _ _ _
    refine Keeps.bind (keeps_getState _) fun state => ?_
    refine Keeps.bind (Keeps.forM fun key _ => waits_cancelTool key ctx.now) fun _ => ?_
    refine Keeps.bind (keeps_getState _) fun state => ?_
    refine Keeps.bind (Keeps.forM fun key _ => waits_closeText key) fun _ => ?_
    refine Keeps.bind (keeps_getState _) fun state => ?_
    exact Keeps.forM fun key _ => waits_exitAgent deliberate message ctx.now key

/-! ### The switch over facts -/

theorem waits_signal (fact : Fact) : Keeps Waits (signal ctx fact) := by
  unfold signal
  split
  · exact Keeps.bind (quiet_waits.ensureAgent ctx _) fun _ => still_waits.changeRecord _ _
  · split
    · refine Keeps.bind (keeps_getState _) fun state => ?_
      exact Keeps.forM fun key _ => still_waits.changeRecord key _
    · refine Keeps.bind (keeps_getState _) fun state => ?_
      split
      · exact still_waits.changeRecord _ _
      · exact keeps_pure _

theorem waits_changeKnown (agent : Key) (f : AgentRecord → AgentRecord) :
    Keeps Waits (changeKnown ctx agent f) :=
  Keeps.bind (quiet_waits.ensureAgent ctx agent) fun _ => still_waits.changeRecord agent f

theorem waits_seeExternal (agent : Key) (threadId : String) (status : ThreadStatus) :
    Keeps Waits (seeExternal ctx agent threadId status) := by
  refine Keeps.bind (quiet_waits.ensureAgent ctx agent) fun record => ?_
  refine Keeps.bind (Keeps.when fun _ => waits_record fun _ => ⟨rfl, rfl, _, _, rfl⟩) fun _ => ?_
  exact Keeps.bind (still_waits.changeRecord agent _) fun _ => still_waits.changeAgent agent _

theorem waits_carryOut (fact : Fact) : Keeps Waits (carryOut ctx fact) := by
  have reports : ∀ agent (f : AgentRecord → EventPayload),
      Keeps Waits (do let record ← ensureAgent ctx agent; emit (f record)) :=
    fun agent f => Keeps.bind (quiet_waits.ensureAgent ctx agent) fun _ => still_waits.announce _
  cases fact with
  | agentExternal agent threadId status => exact waits_seeExternal ctx agent threadId status
  | agentSeen fact => exact waits_seeAgent ctx fact
  | agentLinked fact => exact waits_linkAgent ctx fact
  | turnStarted fact => exact waits_startTurn ctx fact
  | turnEnded fact => exact waits_endTurn ctx fact
  | itemUpsert agent item draft =>
    exact waits_writeItem agent (waits_upsertItem ctx agent item draft)
  | itemReconciled agent item draft =>
    exact waits_writeItem agent (waits_reconcileItem ctx agent item draft)
  | subagentsWaiting _ item targets =>
    refine fun w => ?_
    simp only [carryOut, ensures_changeState]
    refine ⟨rfl, fun _ known => known, fun links => links.put rfl rfl fun key names => ?_⟩
    exact links.getD item key names
  | interactionOpened fact => exact waits_openInteraction ctx fact
  | interactionClosed fact => exact waits_closeInteraction ctx fact
  | backgroundStarted fact => exact waits_startBackground ctx fact
  | backgroundListening task ports => exact waits_listenBackground task ports
  | backgroundEnded task status uncertain => exact waits_endBackground ctx task status uncertain
  | processExited deliberate message => exact waits_exitProcess ctx deliberate message
  | processStarted => exact waits_change (.apart fun _ => rfl)
  | queueChanged count source held stopped =>
    refine waits_change (tameChange fun s => ?_)
    unfold changeQueue
    simp only
    split <;> exact ⟨rfl, rfl, fun _ known => known⟩
  | inputAdmitted agent nativeInputId commandId => exact reports agent _
  | contextSample agent sample => exact reports agent _
  | usage agent usage => exact reports agent _
  | agentDisconnected agent | agentReconnected agent | activity agent _ _ | retry agent _
  | limitCleared agent | wakeExpected agent _ => exact waits_changeKnown ctx agent _
  | goalUpdated _ | inputConsumed _ _ | signal _ | tick | itemDelta _ _ _ _
  | retryCleared _ => exact keeps_pure _

end

end Ace
