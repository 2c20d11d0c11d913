import Ace.Projection.Delivery

/-!
# Delivery keeps a view on a prefix of the log

A view is the fold of a prefix of the scoped log, whatever intervals of it arrive, in
whatever order, lost or repeated. An interval that starts at the watermark of the view
extends the prefix by exactly its events; any other is refused without a change.
-/

namespace Ace.Delivery

open Script

/-- A thread, or the thread list. -/
inductive Scope where
  | thread (threadId : String)
  | threads
  deriving DecidableEq

def Scope.includes : Scope → Event → Bool
  | thread threadId, event => event.threadId == threadId
  | threads, event => isSidebarEvent event

/-- The scoped events of a log up to `seq`. -/
def upTo (scope : Scope) (log : List Event) (seq : Nat) : List Event :=
  log.filter fun event => scope.includes event && decide (event.seq ≤ seq)

/-- The scoped events of a log in the interval `(afterSeq, throughSeq]`. -/
def within (scope : Scope) (log : List Event) (afterSeq throughSeq : Nat) : List Event :=
  log.filter fun event =>
    scope.includes event && decide (afterSeq < event.seq ∧ event.seq ≤ throughSeq)

/-- What a view at `seq` holds: the fold of the scoped events up to there. No value when an
event throws. -/
def foldTo (scope : Scope) (log : List Event) (base : View) (seq : Nat) : Option View :=
  ((upTo scope log seq).foldlM View.fold base).map (View.withSeq seq)

/-- A message cut from a log: the scoped events of its interval, all of them and no others. -/
def Message.CutFrom (message : Message) (scope : Scope) (log : List Event) : Prop :=
  message.carried = within scope log message.afterSeq message.throughSeq

/-- Messages cut from a log arrive in any order, any number of times, and each call returns. -/
inductive Delivers (scope : Scope) (log : List Event) : View → View → Prop where
  | none (view : View) : Delivers scope log view view
  | receive {view view' view'' : View} {message : Message} {result : ApplyResult}
      (before : Delivers scope log view view') (cut : message.CutFrom scope log)
      (returned : applyDelivery view' message = (view'', some result)) :
      Delivers scope log view view''

/-! ### Intervals of a sorted log -/

theorem upTo_append_within {scope : Scope} {log : List Event}
    (sorted : log.Pairwise (·.seq < ·.seq)) {seq throughSeq : Nat} (le : seq ≤ throughSeq) :
    upTo scope log seq ++ within scope log seq throughSeq = upTo scope log throughSeq := by
  induction log with
  | nil => rfl
  | cons event log ih =>
    obtain ⟨later, rest⟩ := List.pairwise_cons.mp sorted
    have tail := ih rest
    unfold upTo within at tail ⊢
    simp only [List.filter_cons]
    by_cases inside : scope.includes event = true
    · by_cases early : event.seq ≤ seq
      · have through : event.seq ≤ throughSeq := by omega
        have not_after : ¬ seq < event.seq := by omega
        simpa [inside, early, through, not_after] using tail
      · -- nothing after this event belongs to the prefix
        have none_left : (log.filter fun event =>
            scope.includes event && decide (event.seq ≤ seq)) = [] := by
          rw [List.filter_eq_nil_iff]
          intro next member
          have after := later next member
          have beyond : ¬ next.seq ≤ seq := by omega
          simp [beyond]
        have is_after : seq < event.seq := by omega
        rw [none_left, List.nil_append] at tail
        simp only [inside, early, is_after, none_left, decide_false, Bool.and_false,
          Bool.false_eq_true, if_false, List.nil_append, Bool.true_and, true_and]
        by_cases through : event.seq ≤ throughSeq
        · simpa [through] using tail
        · simpa [through] using tail
    · simpa [inside] using tail

/-! ### Folds -/

theorem foldAll_eq (view : View) (events : List Event) :
    events.foldlM View.fold view =
      if (view.foldAll events).2 then some (view.foldAll events).1 else none := by
  induction events generalizing view with
  | nil => rfl
  | cons event events ih =>
    rw [List.foldlM_cons, View.foldAll]
    cases folded : view.fold event with
    | none => rfl
    | some next => exact ih next

@[simp] theorem seq_withSeq (seq : Nat) (view : View) : (view.withSeq seq).seq = seq := by
  cases view <;> rfl

@[simp] theorem withSeq_withSeq (seq seq' : Nat) (view : View) :
    (view.withSeq seq).withSeq seq' = view.withSeq seq' := by
  cases view <;> rfl

theorem foldTables_withSeq (view : ThreadView) (event : Event) (seq : Nat) :
    foldTables { view with seq } event = { foldTables view event with seq } := by
  obtain ⟨eventSeq, firstSeq, threadId, at_, payload⟩ := event
  cases payload <;> simp only [foldTables, foldItem] <;> (try rfl) <;> split <;> (try rfl) <;>
    split <;> rfl

theorem fold_withSeq (view : View) (event : Event) (seq : Nat) :
    (view.withSeq seq).fold event = (view.fold event).map (View.withSeq seq) := by
  cases view with
  | thread view =>
    by_cases shown : view.shows event = true
    · have shown' : ({ view with seq } : ThreadView).shows event = true := shown
      have tables := foldTables_withSeq
        { view with thread := updateThread view.thread event } event seq
      simp only [View.withSeq, View.fold, foldEvent, shown, shown', Bool.not_true,
        Bool.false_eq_true, if_false, Option.map_some]
      exact congrArg (fun folded => some (View.thread folded)) tables
    · have shown' : ¬ ({ view with seq } : ThreadView).shows event = true := shown
      simp [View.withSeq, View.fold, foldEvent, shown, shown']
  | threads view =>
    simp only [View.withSeq, View.fold, foldThreadList, Option.map_some]
    split <;> rfl

theorem foldlM_withSeq (view : View) (events : List Event) (seq : Nat) :
    events.foldlM View.fold (view.withSeq seq) =
      (events.foldlM View.fold view).map (View.withSeq seq) := by
  induction events generalizing view with
  | nil => rfl
  | cons event events ih =>
    rw [List.foldlM_cons, List.foldlM_cons, fold_withSeq]
    cases view.fold event with
    | none => rfl
    | some next => exact ih next

/-! ### One message -/

theorem refused_gap {view : View} {throughSeq : Nat} {last : Nat} {events : List Event}
    {result : ApplyResult} (found : refused view throughSeq last events = some result) :
    result ≠ .applied := by
  induction events generalizing last with
  | nil => cases found
  | cons event events ih =>
    rw [refused] at found
    split at found
    · cases found
      exact nofun
    · split at found
      · cases found
        exact nofun
      · exact ih found

/-- What one call does: refuse and change nothing, or extend the view by the whole interval, or
throw where the fold of its events does. -/
theorem applyDelivery_cases (view : View) (message : Message) :
    (∃ result, applyDelivery view message = (view, some result) ∧ result ≠ .applied) ∨
    (message.afterSeq = view.seq ∧ view.seq < message.throughSeq ∧
      refused view message.throughSeq message.afterSeq message.carried = none ∧
      ((∃ folded, message.carried.foldlM View.fold view = some folded ∧
        applyDelivery view message = (folded.withSeq message.throughSeq, some .applied)) ∨
      (message.carried.foldlM View.fold view = none ∧
        (applyDelivery view message).2 = none))) := by
  unfold applyDelivery
  by_cases old : message.throughSeq ≤ view.seq
  · exact .inl ⟨.ignored, by rw [if_pos old], nofun⟩
  · by_cases joins : message.afterSeq = view.seq
    · rw [if_neg old, if_neg (not_not.mpr joins)]
      cases found : refused view message.throughSeq message.afterSeq message.carried with
      | some gap => exact .inl ⟨gap, rfl, refused_gap found⟩
      | none =>
        refine .inr ⟨joins, by omega, rfl, ?_⟩
        rw [foldAll_eq]
        simp only
        by_cases returned : (view.foldAll message.carried).2 = true
        · exact .inl ⟨(view.foldAll message.carried).1, by rw [if_pos returned],
            by rw [if_pos returned]⟩
        · exact .inr ⟨by rw [if_neg returned], by rw [if_neg returned]⟩
    · rw [if_neg old, if_pos joins]
      exact .inl ⟨_, rfl, nofun⟩

theorem foldTo_extend {scope : Scope} {log : List Event} (sorted : log.Pairwise (·.seq < ·.seq))
    {base view : View} {throughSeq : Nat} (holds : foldTo scope log base view.seq = some view)
    (le : view.seq ≤ throughSeq) :
    foldTo scope log base throughSeq =
      ((within scope log view.seq throughSeq).foldlM View.fold view).map
        (View.withSeq throughSeq) := by
  obtain ⟨folded, prefix_fold, is_view⟩ := Option.map_eq_some_iff.mp holds
  have later : (within scope log view.seq throughSeq).foldlM View.fold view =
      ((within scope log view.seq throughSeq).foldlM View.fold folded).map
        (View.withSeq view.seq) := by
    rw [← foldlM_withSeq, is_view]
  rw [foldTo, ← upTo_append_within sorted le, List.foldlM_append, prefix_fold, later]
  simp only [Option.bind_eq_bind, Option.bind_some, Option.map_map]
  congr 1
  funext folded
  simp

section

variable {scope : Scope} {log : List Event} {base view view' : View} {message : Message}

theorem applyDelivery_prefix (sorted : log.Pairwise (·.seq < ·.seq))
    (holds : foldTo scope log base view.seq = some view) (cut : message.CutFrom scope log)
    {result : ApplyResult} (returned : applyDelivery view message = (view', some result)) :
    foldTo scope log base view'.seq = some view' ∧ view.seq ≤ view'.seq := by
  rcases applyDelivery_cases view message with ⟨_, unchanged, _⟩ | ⟨joins, ahead, _, folds⟩
  · rw [unchanged] at returned
    cases returned
    exact ⟨holds, le_rfl⟩
  · rcases folds with ⟨folded, folds, applied⟩ | ⟨_, threw⟩
    · rw [applied] at returned
      cases returned
      have longer := foldTo_extend sorted holds ahead.le
      rw [cut, joins] at folds
      rw [folds] at longer
      simp only [seq_withSeq]
      exact ⟨longer, ahead.le⟩
    · rw [returned] at threw
      cases threw

theorem throws_with_log (sorted : log.Pairwise (·.seq < ·.seq))
    (holds : foldTo scope log base view.seq = some view) (cut : message.CutFrom scope log)
    (threw : (applyDelivery view message).2 = none) :
    foldTo scope log base message.throughSeq = none := by
  rcases applyDelivery_cases view message with ⟨_, unchanged, _⟩ | ⟨joins, ahead, _, folds⟩
  · rw [unchanged] at threw
    cases threw
  · rcases folds with ⟨folded, _, applied⟩ | ⟨none_folded, _⟩
    · rw [applied] at threw
      cases threw
    · rw [foldTo_extend sorted holds ahead.le]
      rw [cut, joins] at none_folded
      rw [none_folded]
      rfl

theorem Delivers.holds (sorted : log.Pairwise (·.seq < ·.seq))
    (holds : foldTo scope log base view.seq = some view) (run : Delivers scope log view view') :
    foldTo scope log base view'.seq = some view' ∧ view.seq ≤ view'.seq := by
  induction run with
  | none => exact ⟨holds, le_rfl⟩
  | receive _ cut returned ih =>
    obtain ⟨before, le⟩ := ih
    obtain ⟨after, more⟩ := applyDelivery_prefix sorted before cut returned
    exact ⟨after, le.trans more⟩

end

/-! ### Folds that do not throw -/

/-- An entry leaves the id of its thread alone: a created thread is the one it is filed under. -/
def Event.OwnThread (event : Event) : Prop :=
  match event.payload with
  | .threadCreated thread => thread.json.field "id" = .str event.threadId
  | .threadClientUpdated changes => ∀ change ∈ changes, change.1 ≠ "id"
  | _ => True

section

variable {name : String} (other : name ≠ "id") (row value : Value)

include other in
theorem id_setField : (row.setField name value).field "id" = row.field "id" :=
  Value.field_setField_ne row value other

include other in
theorem id_eraseField : (row.eraseField name).field "id" = row.field "id" := by
  cases row <;> simp [Value.eraseField, Value.field, Value.fields, Assoc.get?_erase, other]

include other in
theorem id_setDefined : (setDefined row name value).field "id" = row.field "id" := by
  unfold setDefined
  split
  · rfl
  · exact id_setField other row value

include other in
theorem id_setOrClear : (setOrClear row name value).field "id" = row.field "id" := by
  unfold setOrClear
  split
  · exact id_eraseField other row
  · exact id_setDefined other row value

end

theorem id_assignThread (thread changes : Value) (seq : Nat) :
    (assignThread thread changes seq).field "id" = thread.field "id" := by
  have erased : ∀ (c : Prop) [Decidable c] (row : Value),
      (if c then row.eraseField "continuation" else row).field "id" = row.field "id" := by
    intro c _ row
    split
    · exact id_eraseField (by decide) row
    · rfl
  have acp : ∀ (c : Prop) [Decidable c] (row acp : Value),
      (if c then row else ["acpAgentId", "installationId", "instanceId"].foldl
        (fun row name => row.setField name (acp.field name)) row).field "id" = row.field "id" := by
    intro c _ row acp
    split
    · rfl
    · simp (disch := decide) only [List.foldl_cons, List.foldl_nil, id_setField]
  have status : ∀ (c : Prop) [Decidable c] (row v w : Value),
      (if c then row else (row.setField "status" v).setField "activitySeq" w).field "id" =
        row.field "id" := by
    intro c _ row v w
    split
    · rfl
    · simp (disch := decide) only [id_setField]
  unfold assignThread
  simp (disch := decide) only [id_setOrClear, id_setDefined, erased, acp, status]

theorem id_updateThread {event : Event} (own : event.OwnThread) (thread : Value) :
    (updateThread thread event).field "id" = thread.field "id" := by
  have touched : ∀ row : Value, (if isSidebarEvent event
      then row.setField "updatedAt" (.nat event.at_) else row).field "id" = row.field "id" := by
    intro row
    split
    · exact id_setField (by decide) row _
    · rfl
  unfold updateThread
  rw [touched]
  split
  next queue _ => exact id_setField (by decide) thread _
  next changes is_changes =>
    simp only [Event.OwnThread, is_changes] at own
    clear is_changes touched
    induction changes generalizing thread with
    | nil => rfl
    | cons change changes ih =>
      rw [List.foldl_cons, ih _ (fun c member => own c (List.mem_cons_of_mem _ member))]
      have other := own change (List.mem_cons_self ..)
      split
      · exact id_eraseField other thread
      · exact id_setField other thread _
  next changes _ => exact id_assignThread thread changes event.seq
  next agent _ =>
    split
    · exact id_setField (by decide) thread _
    · rfl
  next => rfl

theorem foldItem_thread (view : ThreadView) (item : Value) (updated : Bool) :
    (foldItem view item updated).thread = view.thread := by
  simp only [foldItem]
  split
  · rfl
  · split <;> rfl

theorem foldTables_id {event : Event} (own : event.OwnThread) (view : ThreadView)
    (shown : view.thread.field "id" = .str event.threadId) :
    (foldTables view event).thread.field "id" = .str event.threadId := by
  unfold foldTables
  split
  case h_1 thread is_created =>
    simp only [Event.OwnThread, is_created] at own
    rw [← own]
    exact id_setField (by decide) _ _
  case h_23 usage _ =>
    simp only
    split
    · exact shown
    · exact shown
  all_goals (try exact shown)
  all_goals (try rw [foldItem_thread]; exact shown)
  all_goals
    split
    · exact shown
    · exact shown

theorem foldlM_some (view : View) (events : List Event) (own : ∀ event ∈ events, event.OwnThread)
    (accepted : ∀ event ∈ events, view.accepts event = true) :
    ∃ folded, events.foldlM View.fold view = some folded := by
  induction events generalizing view with
  | nil => exact ⟨view, rfl⟩
  | cons event events ih =>
    have own_rest : ∀ e ∈ events, e.OwnThread :=
      fun e member => own e (List.mem_cons_of_mem _ member)
    have own_event := own event (List.mem_cons_self ..)
    have shown := accepted event (List.mem_cons_self ..)
    have accepted_rest : ∀ e ∈ events, view.accepts e = true :=
      fun e member => accepted e (List.mem_cons_of_mem _ member)
    cases view with
    | thread view =>
      have is_id : view.thread.field "id" = .str event.threadId := by
        simpa [View.accepts, ThreadView.shows] using shown
      have folds : (View.thread view).fold event = some (.thread (foldTables
          { view with thread := updateThread view.thread event } event)) := by
        simp [View.fold, foldEvent, ThreadView.shows, is_id]
      have kept : (foldTables { view with thread := updateThread view.thread event }
          event).thread.field "id" = view.thread.field "id" := by
        rw [is_id]
        apply foldTables_id own_event
        rw [← is_id]
        exact id_updateThread own_event view.thread
      rw [List.foldlM_cons, folds]
      refine ih _ own_rest ?_
      intro e member
      have e_shown := accepted_rest e member
      simp only [View.accepts, ThreadView.shows] at e_shown ⊢
      rw [kept]
      exact e_shown
    | threads view =>
      rw [List.foldlM_cons]
      exact ih _ own_rest accepted_rest

theorem refused_accepts {view : View} {throughSeq last : Nat} {events : List Event}
    (found : refused view throughSeq last events = none) :
    ∀ event ∈ events, view.accepts event = true := by
  induction events generalizing last with
  | nil => simp
  | cons event events ih =>
    rw [refused] at found
    split at found
    · cases found
    · split at found
      · cases found
      next accepted =>
        intro e member
        rcases List.mem_cons.mp member with rfl | later
        · simpa using accepted
        · exact ih found e later

theorem applyDelivery_returns {scope : Scope} {log : List Event} (view : View) {message : Message}
    (cut : message.CutFrom scope log) (own : ∀ event ∈ log, event.OwnThread) :
    (applyDelivery view message).2 ≠ none := by
  rcases applyDelivery_cases view message with ⟨result, unchanged, _⟩ | ⟨_, _, passes, folds⟩
  · rw [unchanged]
    exact nofun
  · rcases folds with ⟨folded, _, applied⟩ | ⟨none_folded, _⟩
    · rw [applied]
      exact nofun
    · have own_batch : ∀ event ∈ message.carried, event.OwnThread := by
        intro event member
        rw [cut] at member
        exact own event (List.mem_of_mem_filter member)
      obtain ⟨folded, folds⟩ := foldlM_some view message.carried own_batch (refused_accepts passes)
      rw [none_folded] at folds
      cases folds

/-! ### Prefix-exact delivery -/

/-- **Delivery is prefix-exact.** A view that holds the fold of a prefix of the scoped log still
does after any stream of intervals cut from the log. Its watermark never decreases, and a call
that refuses a message, whatever is in it, changes nothing. A call throws only where folding
the log itself does, so never on a log whose entries leave the ids of their threads alone. -/
theorem delivery_prefix_exact {scope : Scope} {log : List Event}
    (sorted : log.Pairwise (·.seq < ·.seq)) {base view view' : View}
    (holds : foldTo scope log base view.seq = some view) (run : Delivers scope log view view') :
    foldTo scope log base view'.seq = some view' ∧ view.seq ≤ view'.seq ∧
    (∀ message left result, applyDelivery view' message = (left, some result) →
      (result ≠ .applied → left = view') ∧ view'.seq ≤ left.seq) ∧
    (∀ message, message.CutFrom scope log → (applyDelivery view' message).2 = none →
      foldTo scope log base message.throughSeq = none) ∧
    ((∀ event ∈ log, event.OwnThread) → ∀ message, message.CutFrom scope log →
      (applyDelivery view' message).2 ≠ none) := by
  obtain ⟨prefix_fold, le⟩ := run.holds sorted holds
  refine ⟨prefix_fold, le, ?_, ?_, ?_⟩
  · intro message left result returned
    rcases applyDelivery_cases view' message with ⟨_, unchanged, _⟩ | ⟨_, ahead, _, folds⟩
    · rw [unchanged] at returned
      cases returned
      exact ⟨fun _ => rfl, le_rfl⟩
    · rcases folds with ⟨folded, _, applied⟩ | ⟨_, threw⟩
      · rw [applied] at returned
        cases returned
        refine ⟨fun refused => absurd rfl refused, ?_⟩
        rw [seq_withSeq]
        exact ahead.le
      · rw [returned] at threw
        cases threw
  · exact fun message cut threw => throws_with_log sorted prefix_fold cut threw
  · exact fun own message cut => applyDelivery_returns view' cut own

/-- A log with an entry of another thread between two of `t`. -/
def sampleLog : List Event := [
  { seq := 2, threadId := "t", at_ := 5, payload := .threadUpdated (.obj [("title", .str "a")]) },
  { seq := 3, threadId := "u", at_ := 6, payload := .threadUpdated (.obj [("title", .str "b")]) },
  { seq := 6, firstSeq := some 4, threadId := "t", at_ := 7,
    payload := .itemDelta "item" .text "c" }]

def sampleBase : View := .thread { thread := .obj [("id", .str "t")] }

def sampleMessage (afterSeq throughSeq : Nat) : Message :=
  .events afterSeq throughSeq (within (.thread "t") sampleLog afterSeq throughSeq)

theorem cutFrom_sampleMessage (afterSeq throughSeq : Nat) :
    (sampleMessage afterSeq throughSeq).CutFrom (.thread "t") sampleLog := rfl

/-- The second interval comes first and again after the first one. -/
theorem delivery_prefix_exact_sample :
    ∃ view, Delivers (.thread "t") sampleLog sampleBase view ∧ view.seq = 6 ∧
      foldTo (.thread "t") sampleLog sampleBase 6 = some view := by
  have early := Delivers.receive (.none sampleBase) (cutFrom_sampleMessage 3 6)
    (show _ = (sampleBase, some (.gap 0 3)) by decide +kernel)
  have first := early.receive (cutFrom_sampleMessage 0 3)
    (show _ = ((applyDelivery sampleBase (sampleMessage 0 3)).1, some .applied) by decide +kernel)
  have second := first.receive (cutFrom_sampleMessage 3 6)
    (show _ = ((applyDelivery (applyDelivery sampleBase (sampleMessage 0 3)).1
      (sampleMessage 3 6)).1, some .applied) by decide +kernel)
  have start : foldTo (.thread "t") sampleLog sampleBase 0 = some sampleBase := by decide +kernel
  obtain ⟨holds, _⟩ := delivery_prefix_exact (by decide) start second
  exact ⟨_, second, by decide +kernel, holds⟩

end Ace.Delivery
