import Ace.Properties.TreeCommands

/-!
# The commands on items

Partial upserts, deltas, reconciled snapshots and notices, as steps. A candidate that the
item schema accepts keeps the identity it was built with, so a write never changes whose
item a key names.
-/

namespace Ace

open Script Script.Command

/-! ### The identity of a candidate -/

theorem get?_identity (base : ItemIdentity) :
    Assoc.get? base.fields.reverse "id" = some (.str base.id) ∧
    Assoc.get? base.fields.reverse "agentId" = some (.str base.agentId) ∧
    Assoc.get? base.fields.reverse "createdAt" = some base.createdAt ∧
    Assoc.get? base.fields.reverse "runId" = base.runId.map .str := by
  cases runId : base.runId <;>
    simp [ItemIdentity.fields, Value.optionalField, Assoc.get?, runId]

/-- `value` is an object with the identity `base`. -/
structure HasIdentity (base : ItemIdentity) (value : Value) : Prop where
  object : ∃ fields, value = .obj fields
  id : value.field "id" = .str base.id
  agentId : value.field "agentId" = .str base.agentId
  createdAt : value.field "createdAt" = base.createdAt
  runId : Item.runId value = base.runId

theorem hasIdentity_spread (base : ItemIdentity) (left : List (String × Value))
    (unowned : base.runId = none → Item.runId (.obj left) = none) :
    HasIdentity base (.obj (Value.spread left base.fields)) := by
  obtain ⟨id, agentId, createdAt, runId⟩ := get?_identity base
  constructor
  case object => exact ⟨_, rfl⟩
  case runId =>
    simp only [Item.runId, Value.field_obj, Value.get?_spread, runId]
    cases owned : base.runId with
    | none => simpa [Item.runId] using unowned owned
    | some run => rfl
  all_goals simp [Value.get?_spread, id, agentId, createdAt]

theorem runId_spread {left right : List (String × Value)}
    (right_none : ((Assoc.get? right.reverse "runId").getD .undefined).string? = none)
    (left_none : Item.runId (.obj left) = none) :
    Item.runId (.obj (Value.spread left right)) = none := by
  simp only [Item.runId, Value.field_obj, Value.get?_spread] at left_none ⊢
  cases found : Assoc.get? right.reverse "runId" with
  | none => simpa using left_none
  | some value => simpa [found] using right_none

def Unowned (draft : Value) : Prop := draft.hasOwn "runId" = false

instance (draft : Value) : Decidable (Unowned draft) :=
  inferInstanceAs (Decidable (draft.hasOwn "runId" = false))

theorem Unowned.setField {draft : Value} (unowned : Unowned draft) {name : String}
    (other : name ≠ "runId") (value : Value) : Unowned (draft.setField name value) := by
  cases draft <;>
    simpa [Unowned, Value.hasOwn, Value.setField, Value.fields, Assoc.get?_put, other] using unowned

theorem Unowned.get?_reverse {draft : Value} (unowned : Unowned draft) :
    Assoc.get? draft.fields.reverse "runId" = none := by
  simp only [Unowned, Value.hasOwn, Option.isSome_eq_false_iff, Option.isNone_iff_eq_none,
    Assoc.get?_eq_none_iff] at unowned
  rw [Assoc.get?_eq_none_iff, Assoc.keys, List.map_reverse, List.mem_reverse]
  exact unowned

theorem HasIdentity.spread_call {base : ItemIdentity} {fields : List (String × Value)}
    (h : HasIdentity base (.obj fields)) (call : Value) :
    HasIdentity base (.obj (Value.spread fields [("call", call)])) := by
  have other : ∀ name, "call" ≠ name →
      (Value.obj (Value.spread fields [("call", call)])).field name = (Value.obj fields).field name := by
    intro name ne
    simp [Value.get?_spread, Assoc.get?, ne]
  constructor
  · exact ⟨_, rfl⟩
  · rw [other _ (by decide), h.id]
  · rw [other _ (by decide), h.agentId]
  · rw [other _ (by decide), h.createdAt]
  · rw [Item.runId, other _ (by decide)]
    exact h.runId

/-- What a candidate inherits from the item it replaces, which keeps its run. -/
structure Inherits (previous : Option Value) (base : ItemIdentity) : Prop where
  run : ∀ old, previous = some old → Item.runId old = base.runId
  unique : ∀ old, previous = some old → (Assoc.keys old.fields).Nodup

theorem Inherits.runId {previous : Option Value} {base : ItemIdentity}
    (inherits : Inherits previous base) (free : base.runId = none) {old : Value}
    (known : previous = some old) :
    ((Assoc.get? old.fields "runId").getD .undefined).string? = none := by
  have run := inherits.run old known
  rw [free] at run
  exact run

theorem toolInput_identity {previous : Option Value} {base : ItemIdentity} {patch : Value}
    {now : Nat} {detailPatch input : Value} (inherits : Inherits previous base)
    (unowned : Unowned patch) (h : toolInput previous base patch now detailPatch = some input) :
    HasIdentity base input := by
  simp only [toolInput, Option.bind_eq_bind, Option.bind_eq_some_iff, Option.pure_def,
    Option.some.injEq] at h
  obtain ⟨call, _, rfl⟩ := h
  refine (hasIdentity_spread base _ fun free => runId_spread ?_ ?_).spread_call _
  · rw [(unowned.setField (by decide) call).get?_reverse]
    rfl
  · split
    next old known =>
      have unnamed := inherits.runId free (Option.filter_eq_some_iff.mp known).1
      exact unnamed
    next => rfl

theorem plainInput_identity {previous : Option Value} {base : ItemIdentity} {patch : Value}
    (inherits : Inherits previous base) (unowned : Unowned patch) :
    HasIdentity base (plainInput previous base patch) := by
  refine hasIdentity_spread base _ fun free => runId_spread ?_ (runId_spread ?_ ?_)
  · rw [unowned.get?_reverse]
    rfl
  · split
    next old =>
      split
      · rw [Assoc.get?_reverse (inherits.unique old rfl)]
        exact inherits.runId free rfl
      · rfl
    next => rfl
  · unfold itemDefaults
    split
    · rfl
    · split
      · rfl
      · split <;> rfl

theorem itemInput_identity {previous : Option Value} {base : ItemIdentity} {patch : Value}
    {now : Nat} {detailPatch input : Value}
    (inherits : Inherits previous base) (unowned : Unowned patch)
    (h : itemInput previous base patch now detailPatch = some input) : HasIdentity base input := by
  unfold itemInput at h
  split at h
  · exact toolInput_identity inherits unowned h
  · cases h
    exact plainInput_identity inherits unowned

theorem HasIdentity.parse {base : ItemIdentity} {input item : Value} (h : HasIdentity base input)
    (parsed : Protocol.item input = some item) : HasIdentity base item := by
  have kept : ∀ {k : String}, k ∈ Protocol.identityMembers → item.field k = input.field k :=
    fun member => (Protocol.keepsMember_item member input item parsed).2.2
  constructor
  · exact (Protocol.keepsMember_item (k := "id") (by decide) input item parsed).1
  · rw [kept (by decide), h.id]
  · rw [kept (by decide), h.agentId]
  · rw [kept (by decide), h.createdAt]
  · rw [Item.runId, kept (by decide)]
    exact h.runId

theorem HasIdentity.edits {base : ItemIdentity} {item next : Value} (h : HasIdentity base item)
    (edits : Edits item next) : HasIdentity base next where
  object := edits.object
  id := (edits.front "id" (by decide)).trans h.id
  agentId := (edits.front "agentId" (by decide)).trans h.agentId
  createdAt := (edits.front "createdAt" (by decide)).trans h.createdAt
  runId := by
    rw [Item.runId, edits.front "runId" (by decide)]
    exact h.runId

theorem HasIdentity.isItem {base : ItemIdentity} {item : Value} (h : HasIdentity base item)
    (unique : (Assoc.keys item.fields).Nodup) (time : ∃ q, base.createdAt = .num q) :
    IsItem item := by
  obtain ⟨q, is_time⟩ := time
  exact ⟨h.object, unique, ⟨base.id, h.id⟩, q, h.createdAt.trans is_time⟩

theorem edits_keepOutput {item : Value} (shape : IsItem item) (previous : Option Value) :
    Edits item (keepOutput previous item) := by
  have unchanged : Edits item item := by
    obtain ⟨fields, rfl⟩ := shape.object
    exact .refl
  unfold keepOutput
  split
  · split
    · exact edits_eraseOutput shape
    · exact edits_setDetail shape _ _
  · exact unchanged

section

variable {ids : IdSource} {w w' w'' : Work}

/-! ### Storing an item -/

theorem refreshItemIndex_eq (s : ThreadState) (key : Key) (item : Value) :
    refreshItemIndex { s with items := s.items.put key item } key =
      { s with
        items := s.items.put key item
        indexes := { s.indexes with
          liveTools := mark s.indexes.liveTools key (Item.isLiveTool item)
          openText := mark s.indexes.openText key (isOpenText item)
          pendingItemLinks := if (s.itemLinks.get? key).isSome
            then s.indexes.pendingItemLinks.put key () else s.indexes.pendingItemLinks } } := by
  unfold refreshItemIndex
  simp only [Dictionary.get?_put_self, Option.any_some]
  split <;> rfl

theorem storeItem_spec (ids : IdSource) {key : Key} {item : Value} (shape : IsItem item)
    (identity : KeepsIdentity ids w key item) :
    Ensures (storeItem key item) w fun _ w' =>
      TreeSteps ids w w' ∧ w'.state.items = w.state.items.put key item := by
  unfold storeItem
  simp only [ensures_bind, ensures_getState, ensures_changeState, ensures_emit]
  have step := TreeStep.writeItem w key item
    (mark w.state.indexes.liveTools key (Item.isLiveTool item))
    (mark w.state.indexes.openText key (isOpenText item))
    (if (w.state.itemLinks.get? key).isSome then w.state.indexes.pendingItemLinks.put key ()
      else w.state.indexes.pendingItemLinks)
    shape identity (refreshed_mark _ _ _) (refreshed_mark _ _ _)
  simp only [refreshItemIndex_eq, Work.change]
  exact ⟨.single step, rfl⟩

theorem ensures_forM_emit (payloads : List EventPayload) (w : Work) :
    Ensures (payloads.forM emit) w fun _ w' => w' = { w with events := w.events ++ payloads } := by
  induction payloads generalizing w with
  | nil =>
    show Ensures (pure ⟨⟩ : Fold PUnit) w _
    simp
  | cons payload rest ih =>
    show Ensures (emit payload >>= fun _ => rest.forM emit) w _
    simp only [ensures_bind, ensures_emit]
    refine Ensures.mono (ih (w.emit payload)) ?_
    rintro _ _ rfl
    simp [Work.emit]

theorem appendDelta_spec (ids : IdSource) (key : Key) (field : DeltaField) (text : String)
    (w : Work) : Ensures (appendDelta key field text) w fun _ w' => TreeSteps ids w w' := by
  unfold appendDelta
  simp only [ensures_bind, ensures_getState]
  split
  next => simp
  next item known =>
    split
    next => simp
    next next applied =>
      simp only [ensures_bind, ensures_changeState]
      refine Ensures.mono (ensures_forM_emit _ _) ?_
      rintro _ _ rfl
      exact .single (.deltaItem w key item next field text known applied)

/-! ### Upserts -/

variable {ctx : ApplyContext} (fresh : FreshIds ctx.ids)

include fresh in
theorem canonicalDetail_spec (sound : Sound ctx.ids w) (key : Key) (draft : Value) :
    Ensures (canonicalDetail ctx key draft) w fun _ w' => AgentSteps ctx.ids w w' := by
  have link : ∀ name idName links, Ensures (linkDetail ctx key draft name idName links) w
      fun _ w' => AgentSteps ctx.ids w w' := by
    intro name idName links
    unfold linkDetail
    simp only
    split
    next agentKey _ =>
      simp only [ensures_bind]
      refine Ensures.mono (ensureAgent_spec fresh sound agentKey) ?_
      intro named w₁ ensured
      simp only [ensures_changeState, ensures_pure]
      exact ensured.toAgentSteps.trans (.single (.passive w₁ _ (passive_bookkeeping ..)) rfl)
    next => simpa using AgentSteps.refl w
  unfold canonicalDetail
  split
  · exact link _ _ _
  · split
    · exact link _ _ _
    · simpa using AgentSteps.refl w

include fresh in
theorem patchDetail_spec (sound : Sound ctx.ids w) (key : Key) (detail : Value) :
    Ensures (patchDetail ctx key detail) w fun _ w' => AgentSteps ctx.ids w w' := by
  unfold patchDetail
  split
  · simpa using AgentSteps.refl w
  · exact canonicalDetail_spec fresh sound key detail

theorem parseItem_spec {previous : Option Value} {base : ItemIdentity} {patch : Value} {now : Nat}
    {detailPatch : Value} (inherits : Inherits previous base) (unowned : Unowned patch) (w : Work) :
    Ensures (parseItem (itemInput previous base patch now detailPatch)) w fun item w' =>
      w' = w ∧ HasIdentity base item ∧ (Assoc.keys item.fields).Nodup := by
  unfold parseItem
  split
  next => simp
  next input is_input =>
    split
    next => simp
    next item parsed =>
      rw [ensures_pure]
      have unique := (Protocol.keepsMember_item (k := "id") (by decide) input item parsed).2.1
      exact ⟨rfl, (itemInput_identity inherits unowned is_input).parse parsed, unique⟩

theorem FreshItem.of_agentSteps {id : String} (h : FreshItem ids w id)
    (steps : AgentSteps ids w w') (le : w.drawn ≤ w'.drawn) : FreshItem ids w' id := by
  refine ⟨h.1.mono le, ?_⟩
  rw [steps.items]
  exact h.2

theorem TreeSteps.drawn_le (steps : TreeSteps ids w w') : w.drawn ≤ w'.drawn := by
  induction steps with
  | refl => exact le_rfl
  | tail _ step ih => exact ih.trans step.drawn_le

theorem HasIdentity.keepsIdentity {base : ItemIdentity} {item : Value} {key : Key}
    (h : HasIdentity base item) {previous : Option Value}
    (is_previous : w.state.items.get? key = previous)
    (known : ∀ old, previous = some old → base.id = Item.id old ∧ base.agentId = Item.agentId old ∧
      base.createdAt = Item.createdAt old ∧ base.runId = Item.runId old)
    (new : previous = none → FreshItem ids w base.id) : KeepsIdentity ids w key item := by
  have id : Item.id item = base.id := by simp [Item.id, h.id, Value.string?]
  have agentId : Item.agentId item = base.agentId := by simp [Item.agentId, h.agentId, Value.string?]
  have createdAt : Item.createdAt item = base.createdAt := h.createdAt
  unfold KeepsIdentity
  rw [is_previous, id, agentId, createdAt, h.runId]
  cases previous with
  | some old => exact known old rfl
  | none => exact new rfl

include fresh in
theorem itemIdFor_spec (sound : Sound ctx.ids w) (previous : Option Value) :
    Ensures (itemIdFor ctx previous) w fun id w' => AgentSteps ctx.ids w w' ∧
      (∀ old, previous = some old → id = Item.id old) ∧
      (previous = none → FreshItem ctx.ids w' id) := by
  unfold itemIdFor
  cases previous with
  | some old => simpa using AgentSteps.refl w
  | none =>
    apply ensures_nextId
    exact ⟨.single (.draw w) rfl, by simp, fun _ => freshItem_next fresh sound⟩

theorem storePatched_spec (ids : IdSource) {key : Key} {previous : Option Value} {base : ItemIdentity}
    {patch item : Value} (identity : HasIdentity base item)
    (unique : (Assoc.keys item.fields).Nodup) (time : ∃ q, base.createdAt = .num q)
    (keeps : ∀ next, HasIdentity base next → KeepsIdentity ids w key next) :
    Ensures (storePatched key previous patch item) w fun _ w' => TreeSteps ids w w' := by
  have shape := identity.isItem unique time
  unfold storePatched
  split
  · exact Ensures.mono (storeItem_spec ids shape (keeps item identity)) fun _ _ stored => stored.1
  · have edits := edits_keepOutput shape previous
    have kept := identity.edits edits
    simp only [ensures_bind]
    refine Ensures.mono (storeItem_spec ids (edits.isItem shape) (keeps _ kept)) ?_
    rintro _ w₁ ⟨stored, -⟩
    refine Ensures.mono (appendDelta_spec ids key .output _ w₁) ?_
    intro _ w₂ appended
    exact stored.trans appended

include fresh in
theorem linkSpawn_keeps (agentKey key : Key) (previous : Option Value) (detail item : Value) :
    Keeps (TreeEvolves ctx.ids) (linkSpawn ctx agentKey key previous detail item) := by
  intro w
  unfold linkSpawn
  simp only [ensures_bind, ensures_getState]
  refine Keeps.whenSome ?_ w
  intro child _
  exact Keeps.when fun _ => linkAgent_keeps fresh _

include fresh in
theorem upsertItem_keeps (agentKey key : Key) {patch : Value} (unowned : Unowned patch) :
    Keeps (TreeEvolves ctx.ids) (upsertItem ctx agentKey key patch) := by
  intro w a w' run sound
  revert a w'
  show Ensures (upsertItem ctx agentKey key patch) w fun _ w' => TreeSteps ctx.ids w w'
  unfold upsertItem
  simp only [ensures_bind]
  refine Ensures.mono (ensureAgent_spec fresh sound agentKey) ?_
  intro record w₁ ensured
  simp only [ensures_getState, ensures_refuse]
  intro same_owner
  have sound₁ := ensured.sound sound
  refine Ensures.mono (itemIdFor_spec fresh sound₁ (w₁.state.items.get? key)) ?_
  rintro id w₂ ⟨drew, known_id, new_id⟩
  refine Ensures.mono (patchDetail_spec fresh (drew.sound sound₁) key _) ?_
  intro detailPatch w₃ linked
  refine Ensures.mono (parseItem_spec ⟨?_, ?_⟩ unowned w₃) ?_
  · intro old found
    simp [found]
  · intro old found
    exact (sound₁.rows.shape key old found).unique
  rintro item w₃ ⟨rfl, identity, unique⟩
  have before := (ensured.toAgentSteps.trans drew).trans linked
  have items : w₃.state.items.get? key = w₁.state.items.get? key := by
    rw [linked.items, drew.items]
  have time : ∃ q, (w₁.state.items.get? key).elim (.nat ctx.now) Item.createdAt = .num q := by
    cases found : w₁.state.items.get? key with
    | none => exact ⟨_, rfl⟩
    | some old => exact (sound₁.rows.shape key old found).createdAt
  refine Ensures.mono (storePatched_spec ctx.ids identity unique time ?_) ?_
  · intro next next_identity
    refine next_identity.keepsIdentity items ?_ fun absent =>
      (new_id absent).of_agentSteps linked linked.steps.drawn_le
    intro old found
    refine ⟨known_id old found, ?_, ?_, ?_⟩
    · have owner : Item.agentId old = record.agent.id := by simpa [found] using same_owner
      exact owner.symm
    · simp [found]
    · simp [found]
  · intro _ w₄ stored
    have steps := before.steps.trans stored
    refine Ensures.mono (linkSpawn_keeps fresh agentKey key _ _ item w₄) ?_
    intro _ w₅ spawned
    simp only [ensures_pure]
    exact steps.trans (spawned (Steps.sound sound (TreeSteps.steps steps)))

/-! ### Deltas and snapshots -/

theorem softChange_activity (f : AgentActivity → AgentActivity)
    (g : Option String → Option String) :
    SoftChange fun record =>
      { record with activity := f record.activity, detail := g record.detail } :=
  ⟨fun _ => rfl, fun _ => rfl, fun _ => rfl, fun _ => rfl⟩

include fresh in
theorem appendItem_keeps (agent key : Key) (field : DeltaField) (append : String) :
    Keeps (TreeEvolves ctx.ids) (appendItem ctx agent key field append) := by
  unfold appendItem
  refine Keeps.bind (ensureAgent_keeps fresh agent) fun _ => ?_
  refine Keeps.bind (keeps_getState _) fun state => ?_
  refine Keeps.bind (Keeps.when fun _ => ?_) fun _ => ?_
  · have unowned : Unowned (deltaDraft field) := by cases field <;> decide
    exact Keeps.bind (upsertItem_keeps fresh agent key unowned) fun _ => keeps_pure _
  refine Keeps.bind (keeps_getState _) fun state => ?_
  split
  next item record _ _ =>
    refine Keeps.bind (fun w => ?_) fun _ => Keeps.bind (fun w => ?_) fun _ => ?_
    · rw [ensures_refuse]
      exact fun _ => Std.Refl.refl w
    · exact Ensures.mono (appendDelta_spec ctx.ids key field append w) fun _ _ steps _ => steps
    · refine Keeps.bind (Keeps.when fun _ => ?_) fun _ => keeps_pure _
      exact keeps_soft agent (softChange_activity (fun _ => _) fun _ => none)
  next => exact keeps_throw _

include fresh in
theorem reconcileItem_keeps (agent key : Key) {draft : Value} (unowned : Unowned draft) :
    Keeps (TreeEvolves ctx.ids) (reconcileItem ctx agent key draft) := by
  unfold reconcileItem
  refine Keeps.bind (keeps_getState _) fun state => ?_
  split
  next => exact upsertItem_keeps fresh agent key unowned
  next previous _ =>
    split
    · exact keeps_pure _
    · split
      · exact upsertItem_keeps fresh agent key unowned
      · exact upsertItem_keeps fresh agent key (unowned.setField (by decide) _)

include fresh in
theorem ensureItem_keeps (agent : Key) (item : Option Key) {draft : Value}
    (unowned : Unowned draft) :
    Keeps (TreeEvolves ctx.ids) (ensureItem ctx agent item draft) := by
  unfold ensureItem
  cases item with
  | none => exact keeps_pure _
  | some key =>
    refine Keeps.bind (keeps_getState _) fun state => ?_
    split
    · exact keeps_pure _
    · exact Keeps.bind (upsertItem_keeps fresh agent key unowned) fun _ => keeps_pure _

theorem attachTask_keeps (key : Key) (taskId : String) :
    Keeps (TreeEvolves ids) (attachTask key taskId) := by
  intro w a w' run sound
  revert a w'
  show Ensures (attachTask key taskId) w fun _ w' => TreeSteps ids w w'
  unfold attachTask
  simp only [ensures_bind, ensures_getState]
  split
  next item known =>
    split
    · exact updateItem_spec sound known
        (edits_setBackgroundTaskId (sound.rows.shape key item known) taskId)
    · simpa using Relation.ReflTransGen.refl
  next => simpa using Relation.ReflTransGen.refl

/-! ### Closing items -/

theorem storeItem_known {key : Key} {item next : Value} (sound : Sound ids w)
    (known : w.state.items.get? key = some item) (object : ∃ fields, next = .obj fields)
    (unique : (Assoc.keys next.fields).Nodup)
    (kept : ∀ name ∈ ["id", "agentId", "createdAt", "runId"], next.field name = item.field name) :
    Ensures (storeItem key next) w fun _ w' => TreeSteps ids w w' := by
  have shape := sound.rows.shape key item known
  have id := kept "id" (by decide)
  have createdAt := kept "createdAt" (by decide)
  refine Ensures.mono (storeItem_spec ids ⟨object, unique, ?_, ?_⟩ ?_) fun _ _ stored => stored.1
  · rw [id]
    exact shape.id
  · rw [createdAt]
    exact shape.createdAt
  · simp only [KeepsIdentity, known, Item.id, Item.agentId, Item.createdAt, Item.runId]
    rw [id, createdAt, kept "agentId" (by decide), kept "runId" (by decide)]
    exact ⟨rfl, rfl, rfl, rfl⟩

theorem cancelTool_keeps (key : Key) (now : Nat) :
    Keeps (TreeEvolves ids) (cancelTool key now) := by
  intro w a w' run sound
  revert a w'
  show Ensures (cancelTool key now) w fun _ w' => TreeSteps ids w w'
  unfold cancelTool
  simp only [ensures_bind, ensures_getState]
  split
  next item known =>
    split
    · have unique := (sound.rows.shape key item known).unique
      obtain ⟨fields, rfl⟩ := (sound.rows.shape key item known).object
      refine storeItem_known sound known ⟨_, rfl⟩
        (unique_setField (unique_setField unique _ _) _ _) ?_
      intro name member
      unfold cancelledItem Item.setCall
      have ne : "complete" ≠ name ∧ "call" ≠ name := by
        constructor <;> rintro rfl <;> simp at member
      rw [Value.field_setField_ne _ _ ne.1, Value.field_setField_ne _ _ ne.2]
    · simpa using Relation.ReflTransGen.refl
  next => simpa using Relation.ReflTransGen.refl

theorem sameKeys_mark {index : Dictionary Unit} {rows : Dictionary Value} {live : Value → Bool}
    (exact_index : Indexes index rows live) (key : Key) :
    SameKeys index (mark index key ((rows.get? key).any live)) := by
  intro k
  rw [refreshed_mark]
  split
  next same =>
    subst same
    have there := exact_index k
    cases found : index.get? k <;> simp_all
  next => rfl

theorem refreshItemIndex_passive (sound : IndexSound w.state) (key : Key) :
    Passive w.state (refreshItemIndex w.state key) := by
  have tools := sameKeys_mark sound.liveTools key
  have texts := sameKeys_mark sound.openText key
  unfold refreshItemIndex
  simp only
  split <;> exact
    ⟨rfl, rfl, rfl, rfl, rfl, rfl, rfl, rfl, rfl, rfl, rfl, rfl, rfl, tools, texts, .rfl, .rfl⟩

theorem closeText_keeps (key : Key) : Keeps (TreeEvolves ids) (closeText key) := by
  intro w a w' run sound
  revert a w'
  show Ensures (closeText key) w fun _ w' => TreeSteps ids w w'
  unfold closeText
  simp only [ensures_bind, ensures_getState]
  split
  next =>
    rw [ensures_changeState]
    exact .single (.passive w _ (refreshItemIndex_passive sound.indexes key))
  next item known =>
    rw [Option.filter_eq_some_iff] at known
    have unique := (sound.rows.shape key item known.1).unique
    obtain ⟨fields, rfl⟩ := (sound.rows.shape key item known.1).object
    refine storeItem_known sound known.1 ⟨_, rfl⟩ (unique_setField unique _ _) ?_
    intro name member
    apply Value.field_setField_ne
    rintro rfl
    simp at member

end

end Ace
