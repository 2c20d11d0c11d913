import Ace.Properties.WorkCommands

/-!
# The fold as steps

Notices, statuses and the switch over facts, up to `apply`. From a sound state whatever a
call of `apply` does is a chain of steps, so every invariant of the steps holds in every
state that calls reach.
-/

namespace Ace

open Script Script.Command

/-! ### Notice keys -/

/-- The candidates of `noticeKey`. -/
def extended (key : Key) : Nat → Key
  | 0 => key
  | n + 1 => extended (key ++ ":") n

theorem extended_length (key : Key) (n : Nat) : (extended key n).length = key.length + n := by
  induction n generalizing key with
  | zero => rfl
  | succ n ih =>
    have one : (key ++ ":").length = key.length + 1 := String.length_append ..
    rw [extended, ih, one]
    omega

theorem noticeKey_taken {items : Dictionary Value} {fuel : Nat} {key : Key}
    (taken : items.contains (noticeKey items fuel key) = true) :
    ∀ n ≤ fuel, items.contains (extended key n) = true := by
  induction fuel generalizing key with
  | zero =>
    intro n le
    obtain rfl : n = 0 := by omega
    exact taken
  | succ fuel ih =>
    unfold noticeKey at taken
    intro n le
    split at taken
    next here =>
      cases n with
      | zero => exact here
      | succ n => exact ih taken n (by omega)
    next free => exact absurd taken free

theorem noticeKey_free (items : Dictionary Value) (key : Key) :
    items.get? (noticeKey items (items.keys.length + 1) key) = none := by
  by_contra found
  have taken : items.contains (noticeKey items (items.keys.length + 1) key) = true := by
    simpa [Dictionary.contains, Option.isSome_iff_ne_none] using found
  have distinct : ((List.range (items.keys.length + 1)).map (extended key)).Nodup := by
    refine List.Nodup.map_on ?_ List.nodup_range
    intro n _ m _ same
    have lengths := congrArg String.length same
    rw [extended_length, extended_length] at lengths
    omega
  have within : ((List.range (items.keys.length + 1)).map (extended key)) ⊆ items.keys := by
    intro k member
    obtain ⟨n, below, rfl⟩ := List.mem_map.mp member
    rw [Dictionary.mem_keys_iff]
    exact noticeKey_taken taken n (by have := List.mem_range.mp below; omega)
  have bound := (List.subperm_of_subset distinct within).length_le
  simp at bound

section

variable {ids : IdSource} {w w' : Work}

/-! ### Notices -/

theorem noticeItem_front (id agentId : String) (runId : Option String) (notice : PendingNotice) :
    IsItem (noticeItem id agentId runId notice) ∧
      Item.id (noticeItem id agentId runId notice) = id ∧
      Item.isLiveTool (noticeItem id agentId runId notice) = false ∧
      isOpenText (noticeItem id agentId runId notice) = false := by
  have fields : ∀ name, (noticeItem id agentId runId notice).field name =
      (Assoc.get? ([("id", .str id), ("agentId", .str agentId), ("complete", .bool true)] ++
        Value.optionalField "runId" (runId.map .str) ++
        [("type", .str "notice"), ("level", .str "warning"), ("createdAt", .nat notice.createdAt),
          ("text", .str notice.text), ("raw", .arr notice.raw)]) name).getD .undefined := fun _ => rfl
  have front : (noticeItem id agentId runId notice).field "id" = .str id ∧
      (noticeItem id agentId runId notice).field "createdAt" = .nat notice.createdAt ∧
      (noticeItem id agentId runId notice).field "type" = .str "notice" ∧
      (noticeItem id agentId runId notice).field "complete" = .bool true := by
    simp only [fields]
    cases runId <;> simp [Value.optionalField, Assoc.get?]
  obtain ⟨is_id, time, type, complete⟩ := front
  have unique : (Assoc.keys (noticeItem id agentId runId notice).fields).Nodup := by
    cases runId <;>
      simp [noticeItem, Value.fields, Value.optionalField, Assoc.keys]
  refine ⟨⟨⟨_, rfl⟩, unique, ⟨id, is_id⟩, _, time⟩, ?_, ?_, ?_⟩
  · simp [Item.id, is_id, Value.string?]
  · simp [Item.isLiveTool, Item.isToolCall, Item.hasType, type]
  · simp [isOpenText, Item.complete, complete]

variable {ctx : ApplyContext} (fresh : FreshIds ctx.ids)

include fresh in
theorem publishNotice_keeps (owner : AgentRecord) (notice : PendingNotice)
    (runId : Option String) :
    Keeps (TreeEvolves ctx.ids) (publishNotice ctx owner notice runId) := by
  intro w a w' run sound
  revert a w'
  show Ensures (publishNotice ctx owner notice runId) w fun _ w' => TreeSteps ctx.ids w w'
  unfold publishNotice
  simp only [ensures_bind]
  apply ensures_nextId
  simp only [ensures_getState, ensures_changeState, ensures_emit, ensures_pure]
  obtain ⟨shape, is_id, no_tool, no_text⟩ :=
    noticeItem_front (ctx.ids .item w.drawn) owner.agent.id runId notice
  have free := noticeKey_free w.state.items ("ace:notice:" ++ ctx.ids .item w.drawn)
  generalize noticeKey w.state.items (w.state.items.keys.length + 1)
    ("ace:notice:" ++ ctx.ids .item w.drawn) = key at free
  -- No index has a key without an item.
  have refreshed : ∀ {index : Dictionary Unit} {live : Value → Bool},
      Indexes index w.state.items live → Refreshed index index key false := by
    intro index live exact_index k
    split
    next same =>
      subst same
      have there := exact_index k
      rw [free] at there
      cases found : index.get? k <;> simp_all
    next => rfl
  have identity : KeepsIdentity ctx.ids { w with drawn := w.drawn + 1 } key
      (noticeItem (ctx.ids .item w.drawn) owner.agent.id runId notice) := by
    simp only [KeepsIdentity, free, is_id]
    exact freshItem_next fresh sound
  have step : TreeStep ctx.ids { w with drawn := w.drawn + 1 } _ :=
    .writeItem { w with drawn := w.drawn + 1 } key _ w.state.indexes.liveTools
      w.state.indexes.openText w.state.indexes.pendingItemLinks shape identity
      (by rw [no_tool]; exact refreshed sound.indexes.liveTools)
      (by rw [no_text]; exact refreshed sound.indexes.openText)
  have absent : ¬ w.state.items.contains key = true := by simp [Dictionary.contains, free]
  rw [if_neg absent] at step
  exact (Relation.ReflTransGen.single (.draw w)).tail step

theorem edits_repeatedItem {item : Value} (shape : IsItem item) (text : String) (count : Nat)
    (raw : Value) : Edits item (repeatedItem item text count raw) := by
  obtain ⟨fields, rfl⟩ := shape.object
  have counted : Edits (.obj fields) ((Value.obj fields).setField "text"
      (.str (text ++ " (" ++ toString count ++ " times)"))) :=
    Edits.refl.setField _ (by decide) (by decide)
  unfold repeatedItem
  simp only
  split
  · split
    · exact counted.setField _ (by decide) (by decide)
    · exact counted
  · exact counted

theorem keeps_putNotice (ids : IdSource) (notices : RejectionNotices) (signature : String)
    (notice : RejectionNotice) :
    Keeps (TreeEvolves ids) (putNotice notices signature notice) :=
  keeps_passive fun _ => passive_bookkeeping ..

include fresh in
theorem rejectFact_keeps (input : Value) (reason : String) :
    Keeps (TreeEvolves ctx.ids) (rejectFact ctx input reason) := by
  intro w a w' run sound
  revert a w'
  show Ensures (rejectFact ctx input reason) w fun _ w' => TreeSteps ctx.ids w w'
  unfold rejectFact
  simp only [ensures_bind, ensures_getState]
  split
  next => exact fun a w' run => keeps_passive (fun s => passive_bookkeeping ..) w a w' run sound
  next owner _ =>
    simp only [ensures_bind, ensures_changeState]
    have first : TreeSteps ctx.ids w (w.change fun s => { s with
        rejectionNotices := some (currentNotices w.state (owner.activeRun.getD "")) }) :=
      .single (.passive w _ (passive_bookkeeping ..))
    split
    next => simp
    next type _ =>
      split
      next known item is_known found =>
        obtain ⟨stored, _⟩ := Option.filter_eq_some_iff.mp found
        have there : w.state.items.get? known.item = some item := by
          simpa [is_known] using stored
        unfold putNotice
        simp only [ensures_bind, ensures_changeState]
        -- The notice table is bookkeeping: the item is where it was.
        have second : ∀ rejectionNotices, TreeSteps ctx.ids w ((w.change fun s => { s with
            rejectionNotices := some (currentNotices w.state (owner.activeRun.getD "")) }).change
            fun s => { s with rejectionNotices }) :=
          fun _ => first.tail (.passive _ _ (passive_bookkeeping ..))
        refine Ensures.mono (updateItem_spec (Steps.sound sound (TreeSteps.steps (second _))) there
          (edits_repeatedItem (sound.rows.shape _ item there) ..)) ?_
        intro _ w₂ updated
        exact (second _).trans updated
      next =>
        simp only [ensures_bind]
        refine Ensures.mono (publishNotice_keeps fresh owner _ owner.activeRun _) ?_
        intro key w₁ published
        have sound₁ := Steps.sound sound (TreeSteps.steps first)
        have second := published sound₁
        refine Ensures.mono (keeps_putNotice ctx.ids _ _ _ w₁) ?_
        intro _ w₂ put
        exact (first.trans second).trans (put (Steps.sound sound₁ (TreeSteps.steps second)))

include fresh in
theorem flushNotices_keeps : Keeps (TreeEvolves ctx.ids) (flushNotices ctx) := by
  unfold flushNotices
  refine Keeps.bind (keeps_getState _) fun state => ?_
  split
  next => exact keeps_pure _
  next owner _ =>
    refine Keeps.bind (Keeps.forM fun notice _ => ?_) fun _ => ?_
    · exact Keeps.bind (publishNotice_keeps fresh owner notice none) fun _ => keeps_pure _
    · exact keeps_passive fun s => passive_bookkeeping ..

end

/-! ### Statuses -/

section

variable {ids : IdSource}

theorem updateStatus_keeps (derived : DerivedStatus) :
    Keeps (TreeEvolves ids) (updateStatus derived) := by
  refine fun w => ?_
  unfold updateStatus
  simp only [ensures_bind, ensures_getState]
  split
  next => simpa using Std.Refl.refl w
  next record known =>
    split
    next => simpa using Std.Refl.refl w
    next =>
      simp only [ensures_bind, ensures_when, ensures_changeRecord, ensures_emit]
      constructor
      · intro _
        refine Ensures.mono (announceAgentBranch_spec ids derived.key w) ?_
        rintro _ w₁ ⟨announced, same⟩ _
        exact announced.steps.tail
          (.setStatus w₁ derived.key record derived.status derived.completionRelevant
            (same ▸ known))
      · intro _ _
        exact .single
          (.setStatus w derived.key record derived.status derived.completionRelevant known)

theorem recomputeStatuses_keeps (now : Nat) :
    Keeps (TreeEvolves ids) (recomputeStatuses now) := by
  unfold recomputeStatuses
  refine Keeps.bind (keeps_passive fun s => passive_bookkeeping ..) fun _ => ?_
  refine Keeps.bind (keeps_getState _) fun state => ?_
  split
  next => exact keeps_throw _
  next derived _ _ =>
    refine Keeps.bind (Keeps.forM fun one _ => updateStatus_keeps one) fun _ => ?_
    refine Keeps.bind (keeps_getState _) fun state => ?_
    simp only
    split
    · exact keeps_pure _
    · intro w
      simp only [ensures_bind, ensures_changeState, ensures_emit]
      exact (TreeStep.threadStatus w _).evolves

end

/-! ### The switch over facts -/

section

variable {ctx : ApplyContext} (fresh : FreshIds ctx.ids)

theorem softChange_touchSignal (now : Nat) : SoftChange (touchSignal now) :=
  ⟨fun _ => rfl, fun _ => rfl, fun _ => rfl, fun _ => rfl⟩

include fresh in
theorem signal_keeps (fact : Fact) : Keeps (TreeEvolves ctx.ids) (signal ctx fact) := by
  have touch : ∀ key, Keeps (TreeEvolves ctx.ids) (changeRecord key (touchSignal ctx.now)) :=
    fun key => keeps_soft key (softChange_touchSignal ctx.now)
  unfold signal
  split
  next agent _ => exact Keeps.bind (ensureAgent_keeps fresh agent) fun _ => touch agent
  next =>
    split
    next =>
      refine Keeps.bind (keeps_getState _) fun state => ?_
      exact Keeps.forM fun key _ => touch key
    next =>
      refine Keeps.bind (keeps_getState _) fun state => ?_
      split
      next key _ => exact touch key
      next => exact keeps_pure _

include fresh in
theorem changeKnown_keeps (agent : Key) {f : AgentRecord → AgentRecord} (soft : SoftChange f) :
    Keeps (TreeEvolves ctx.ids) (changeKnown ctx agent f) :=
  Keeps.bind (ensureAgent_keeps fresh agent) fun _ => keeps_soft agent soft

include fresh in
theorem seeExternal_keeps (agent : Key) (threadId : String) (status : ThreadStatus) :
    Keeps (TreeEvolves ctx.ids) (seeExternal ctx agent threadId status) := by
  unfold seeExternal
  refine Keeps.bind (ensureAgent_keeps fresh agent) fun record => ?_
  refine Keeps.bind (Keeps.when fun _ w => ?_) fun _ => ?_
  · rw [ensures_changeState]
    -- The order is bookkeeping, its copy in the record a soft change.
    have counted : TreeEvolves ctx.ids w (w.change fun s => { s with
        outcomeOrder := s.outcomeOrder + 1 }) :=
      (TreeStep.passive w _ (passive_bookkeeping ..)).evolves
    refine counted.trans (TreeStep.touch _ agent (fun record =>
      { record with lastOutcomeOrder := some (w.state.outcomeOrder + 1) }) ?_).evolves
    exact ⟨fun _ => rfl, fun _ => rfl, fun _ => rfl, fun _ => rfl⟩
  · refine Keeps.bind (keeps_soft agent ?_) fun _ => ?_
    · exact ⟨fun _ => rfl, fun _ => rfl, fun _ => rfl, fun _ => rfl⟩
    · exact keeps_of_agentSteps fun w _ => changeAgent_spec ctx.ids rfl agent w

theorem writeItem_keeps (agent : Key) {write : Fold Value}
    (keeps : Keeps (TreeEvolves ctx.ids) write) :
    Keeps (TreeEvolves ctx.ids) (writeItem agent write) := by
  unfold writeItem
  refine Keeps.bind keeps fun item => Keeps.bind (keeps_getState _) fun state => ?_
  split
  next => exact keeps_pure _
  next =>
    split
    · exact keeps_pure _
    · exact keeps_soft agent (softChange_activity (itemActivity item) fun detail => detail)

theorem keeps_passiveEvent {payload : EventPayload} (passive : PassiveEvent payload) :
    Keeps (TreeEvolves ctx.ids) (emit payload) := by
  intro w
  rw [ensures_emit]
  exact (TreeStep.passiveEvent w payload passive).evolves

/-- Only an unknown end of a task is uncertain, and no draft names a run. -/
def Fact.Honest : Fact → Prop
  | .backgroundEnded _ status uncertain => uncertain = true → status = .unknown
  | .itemUpsert _ _ draft | .itemReconciled _ _ draft => Unowned draft
  | _ => True

include fresh in
theorem carryOut_keeps {fact : Fact} (honest : fact.Honest) :
    Keeps (Evolves ctx.ids) (carryOut ctx fact) := by
  have soft : ∀ agent {f : AgentRecord → AgentRecord}, SoftChange f →
      Keeps (Evolves ctx.ids) (changeKnown ctx agent f) :=
    fun agent _ h => Keeps.evolves (changeKnown_keeps fresh agent h)
  have event : ∀ agent (f : AgentRecord → EventPayload), (∀ record, PassiveEvent (f record)) →
      Keeps (Evolves ctx.ids) (do let record ← ensureAgent ctx agent; emit (f record)) :=
    fun agent f passive => Keeps.evolves
      (Keeps.bind (ensureAgent_keeps fresh agent) fun record => keeps_passiveEvent (passive record))
  have passive : ∀ {f : ThreadState → ThreadState}, (∀ s, Passive s (f s)) →
      Keeps (Evolves ctx.ids) (changeState f) := fun h => Keeps.evolves (keeps_passive h)
  cases fact with
  | agentExternal agent threadId status =>
    exact Keeps.evolves (seeExternal_keeps fresh agent threadId status)
  | agentSeen fact => exact Keeps.evolves (seeAgent_keeps fresh fact)
  | agentLinked fact => exact Keeps.evolves (linkAgent_keeps fresh fact)
  | turnStarted fact => exact startTurn_keeps fresh fact
  | turnEnded fact => exact endTurn_keeps fresh fact
  | itemUpsert agent item draft =>
    exact Keeps.evolves (writeItem_keeps agent (upsertItem_keeps fresh agent item honest))
  | itemReconciled agent item draft =>
    exact Keeps.evolves (writeItem_keeps agent (reconcileItem_keeps fresh agent item honest))
  | subagentsWaiting _ item targets => exact passive fun s => passive_bookkeeping ..
  | interactionOpened fact => exact openInteraction_keeps fresh fact
  | interactionClosed fact => exact closeInteraction_keeps ctx fact
  | backgroundStarted fact => exact startBackground_keeps fresh fact
  | backgroundListening task ports => exact listenBackground_keeps task ports
  | backgroundEnded task status uncertain => exact endBackground_keeps ctx task honest
  | processExited deliberate message => exact exitProcess_keeps ctx deliberate message
  | processStarted => exact passive fun s => passive_bookkeeping ..
  | queueChanged count source held stopped =>
    refine passive fun s => ?_
    unfold changeQueue
    simp only
    split <;> exact passive_bookkeeping ..
  | inputAdmitted agent nativeInputId commandId => exact event agent _ fun _ => trivial
  | contextSample agent sample => exact event agent _ fun _ => trivial
  | usage agent usage => exact event agent _ fun _ => trivial
  | agentDisconnected agent | agentReconnected agent | activity agent _ _ | retry agent _
  | limitCleared agent | wakeExpected agent _ =>
    exact soft agent ⟨fun _ => rfl, fun _ => rfl, fun _ => rfl, fun _ => rfl⟩
  | goalUpdated _ | inputConsumed _ _ | signal _ | tick | itemDelta _ _ _ _
  | retryCleared _ => exact keeps_pure _

/-! ### A fact -/

include fresh in
theorem finishQuietly_keeps (needed : Bool) :
    Keeps (TreeEvolves ctx.ids) (finishQuietly ctx needed) := by
  unfold finishQuietly
  refine Keeps.bind (Keeps.when fun _ => ?_) fun _ => flushNotices_keeps fresh
  exact Keeps.bind (reconcileLinks_keeps fresh) fun _ => recomputeStatuses_keeps ctx.now

include fresh in
theorem finishFact_keeps {finish : Fold PUnit} (ends : Keeps (Evolves ctx.ids) finish) :
    Keeps (Evolves ctx.ids) (finishFact ctx finish) := by
  unfold finishFact
  refine Keeps.bind (Keeps.evolves (flushNotices_keeps fresh)) fun _ => ?_
  exact Keeps.bind (Keeps.evolves (reconcileLinks_keeps fresh)) fun _ => ends

include fresh in
theorem foldFact_keeps {fact : Fact} (honest : fact.Honest) {finish : Fold PUnit}
    (ends : Keeps (Evolves ctx.ids) finish) : Keeps (Evolves ctx.ids) (foldFact ctx fact finish) := by
  unfold foldFact
  refine Keeps.bind (Keeps.evolves (ensureInitialRoot_keeps fresh)) fun _ => ?_
  refine Keeps.bind (keeps_getState _) fun state => ?_
  simp only
  refine Keeps.bind (Keeps.when fun _ => Keeps.evolves (keeps_passive fun _ =>
    passive_bookkeeping ..)) fun _ => ?_
  refine Keeps.bind (Keeps.evolves (signal_keeps fresh fact)) fun _ => ?_
  split
  next agent item field append =>
    refine Keeps.bind (Keeps.evolves (appendItem_keeps fresh agent item field append)) fun _ => ?_
    refine Keeps.bind (keeps_getState _) fun state => ?_
    exact Keeps.evolves (finishQuietly_keeps fresh _)
  next agent =>
    refine Keeps.bind (Keeps.evolves (ensureAgent_keeps fresh agent)) fun record => ?_
    split
    · refine Keeps.bind (keeps_getState _) fun state => ?_
      exact Keeps.evolves (finishQuietly_keeps fresh _)
    · refine Keeps.bind (Keeps.evolves (keeps_soft agent ?_)) fun _ => finishFact_keeps fresh ends
      exact ⟨fun _ => rfl, fun _ => rfl, fun _ => rfl, fun _ => rfl⟩
  next => exact Keeps.bind (carryOut_keeps fresh honest) fun _ => finishFact_keeps fresh ends

end

/-! ### Accepted facts -/

/-- What validation has established of an accepted fact. -/
structure Accepted (state : ThreadState) (input : Value) (now : Nat) (type : String)
    (fields : List String) : Prop where
  data : isFactData input = some true
  object : input.isObject = true
  named : input.field "type" = .str type
  allowed : allowed type = some fields
  recognized : (input.fields.any fun entry => entry.1 != "type" && !fields.contains entry.1) = false
  keys : keyError input type fields = none
  context : contextError state input type = none
  shape : shapeValid state input type now = some true

theorem validateFact_ok {state : ThreadState} {input : Value} {now : Nat} {fact : Fact}
    (ok : validateFact state input now = .ok fact) :
    ∃ type fields, Accepted state input now type fields ∧ fact = Decode.fact type input := by
  unfold validateFact at ok
  split at ok
  next => cases ok
  next => cases ok
  next data =>
    split at ok
    next type object named =>
      split at ok
      next => cases ok
      next fields known =>
        split at ok
        next => cases ok
        next recognized =>
          split at ok
          next => cases ok
          next no_error =>
            obtain ⟨keys, context⟩ := Option.or_eq_none_iff.mp no_error
            split at ok
            next => cases ok
            next => cases ok
            next shape =>
              cases ok
              exact ⟨type, fields, ⟨data, object, named, known,
                Bool.eq_false_iff.mpr recognized, keys, context, shape⟩, rfl⟩
    next => cases ok

theorem itemError_unowned {state : ThreadState} {input : Value} {now : Nat}
    (none_found : (itemError state input now).map Option.isNone = some true) :
    Unowned (input.field "draft") := by
  by_contra owned
  have named : (input.field "draft").hasOwn "runId" = true := by
    rwa [Unowned, Bool.not_eq_false] at owned
  obtain ⟨error, found⟩ : ∃ error, draftError state input = some error := by
    have taken : (["id", "agentId", "runId", "createdAt"].any
        (input.field "draft").hasOwn) = true :=
      List.any_eq_true.mpr ⟨"runId", by decide, named⟩
    unfold draftError
    by_cases object : (!(input.field "draft").isObject) = true
    · exact ⟨_, if_pos object⟩
    · exact ⟨_, (if_neg object).trans (if_pos taken)⟩
  have refused : itemError state input now = some (some error) := by
    unfold itemError
    rw [found]
  rw [refused] at none_found
  cases none_found

theorem Accepted.honest {state : ThreadState} {input : Value} {now : Nat} {type : String}
    {fields : List String} (accepted : Accepted state input now type fields) :
    (Decode.fact type input).Honest := by
  have shape := accepted.shape
  unfold Decode.fact
  simp only
  split <;> try trivial
  case h_10 => exact itemError_unowned shape
  case h_11 => exact itemError_unowned shape
  intro uncertain
  have flagged : input.field "uncertain" = .bool true := by
    cases given : input.field "uncertain" with
    | bool value =>
      rw [given] at uncertain
      exact congrArg Value.bool uncertain
    | _ =>
      rw [given] at uncertain
      cases uncertain
  have clauses : some (oneOf (input.field "status") ["completed", "failed", "stopped", "unknown"] &&
      optionalBoolean (input.field "uncertain") && (input.field "uncertain" != .bool true ||
        input.field "status" == .str "unknown")) = some true := shape
  simp only [flagged, Option.some.injEq, Bool.and_eq_true, Bool.or_eq_true] at clauses
  have named : input.field "status" = .str "unknown" := by simpa using clauses.2
  rw [named]
  rfl

/-! ### Whole runs -/

section

variable {ctx : ApplyContext} (fresh : FreshIds ctx.ids)

include fresh in
theorem fold_keeps (input : Value) {finish : Fold PUnit} (ends : Keeps (Evolves ctx.ids) finish) :
    Keeps (Evolves ctx.ids) (fold ctx input finish) := by
  unfold fold
  refine Keeps.bind (fun w => ?_) fun _ => ?_
  · rw [ensures_refuse]
    exact fun _ => Std.Refl.refl w
  refine Keeps.bind (keeps_getState _) fun state => ?_
  split
  next reason _ => exact Keeps.evolves (rejectFact_keeps fresh input reason)
  next fact ok =>
    obtain ⟨type, fields, accepted, rfl⟩ := validateFact_ok ok
    exact foldFact_keeps fresh accepted.honest ends

end


end Ace
