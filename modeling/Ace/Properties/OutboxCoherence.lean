import Ace.Properties.Outbox

/-!
# Coherent outboxes

What holds of an outbox between any two tasks: a record is under its own id, a local failure is
not pending, a receipt is being saved at most once for each command, and an operation that waits
for its writes left the record of its command so that only a new save makes it pending again.
-/

namespace Ace.Client

open Script

/-- The command that an operation is about. -/
def Continuation.id : Continuation → String
  | .enqueue intent => intent.command.id
  | .rewrite id _ | .save id | .deliveryFailed id _ | .observe id _ _ => id
  | .acknowledge result _ => result.commandId

/-- The record to go back to when a write fails. -/
def Continuation.previous? : Continuation → Option Intent
  | .enqueue _ | .save _ => none
  | .rewrite _ previous | .acknowledge _ previous | .deliveryFailed _ previous
  | .observe _ _ previous => some previous

/-- Neither pending nor something that can be reopened. -/
def Intent.Parked (intent : Intent) : Prop :=
  intent.state ≠ .pending ∧ (intent.state = .failed → intent.localFailure = true)

/-- Whether the record of the command stays parked until the operation is over. -/
def Continuation.parks : Continuation → Bool
  | .deliveryFailed .. => true
  | .observe _ acknowledged _ => acknowledged
  | _ => false

/-- The receipt that an operation saves. -/
def Operation.receipt? : Operation → Option String
  | .acknowledge result => some result.commandId
  | _ => none

def Continuation.receipt? : Continuation → Option String
  | .acknowledge result _ => some result.commandId
  | _ => none

def Handler.receipt? : Handler → Option String
  | .acknowledged id _ => some id
  | _ => Option.none

def Running.receipt? : Running → Option String
  | .writing _ next => next.receipt?
  | .settled handler => handler.receipt?

@[simp] theorem Handler.receipt?_none : Handler.none.receipt? = Option.none := rfl

@[simp] theorem Handler.receipt?_enqueued (command : Command) (error : Option String) :
    (Handler.enqueued command error).receipt? = Option.none := rfl

@[simp] theorem Handler.receipt?_acknowledged (id : String) (saved : Bool) :
    (Handler.acknowledged id saved).receipt? = some id := rfl

@[simp] theorem Continuation.receipt?_acknowledge (result : CommandResult) (previous : Intent) :
    (Continuation.acknowledge result previous).receipt? = some result.commandId := rfl

namespace Intents

def Parked (s : Intents) (id : String) : Prop :=
  ∀ intent, s.records.get? id = some intent → intent.Parked

/-- The receipts that are being saved. -/
def answering (s : Intents) : List String :=
  s.queue.filterMap Operation.receipt? ++ (s.running.bind Running.receipt?).toList ++
    s.rejected.filterMap Handler.receipt?

end Intents

/-- An operation that waits for its writes. -/
structure Waits (s : Intents) (next : Continuation) : Prop where
  fresh : ∀ intent, next = .enqueue intent → intent.state = .pending ∧
    intent.localFailure = false ∧ intent.delivered = false ∧ intent.command.id ∈ s.saving
  previous : ∀ previous, next.previous? = some previous → previous.command.id = next.id ∧
    (previous.state = .pending → previous.localFailure = false)
  parked : next.parks = true → s.Parked next.id

namespace Waits

variable {s : Intents} {id : String} {previous : Intent}

theorem enqueue {intent : Intent} (pending : intent.state = .pending)
    (remote : intent.localFailure = false) (new : intent.delivered = false)
    (saving : intent.command.id ∈ s.saving) : Waits s (.enqueue intent) where
  fresh := by
    intro other same
    cases same
    exact ⟨pending, remote, new, saving⟩
  previous := by simp [Continuation.previous?]
  parked := by simp [Continuation.parks]

theorem save : Waits s (.save id) :=
  ⟨by simp, by simp [Continuation.previous?], by simp [Continuation.parks]⟩

theorem back {next : Continuation} (is_previous : next.previous? = some previous)
    (keyed : previous.command.id = next.id)
    (remote : previous.state = .pending → previous.localFailure = false)
    (parked : next.parks = true → s.Parked next.id) : Waits s next where
  fresh := by
    rintro intent rfl
    simp [Continuation.previous?] at is_previous
  previous := by
    intro other is_other
    rw [is_previous] at is_other
    cases is_other
    exact ⟨keyed, remote⟩
  parked := parked

end Waits

structure Coherent (s : Intents) : Prop where
  keyed : ∀ id intent, s.records.get? id = some intent → intent.command.id = id
  remote : ∀ id intent, s.records.get? id = some intent → intent.state = .pending →
    intent.localFailure = false
  waits : ∀ writes next, s.running = some (.writing writes next) → Waits s next
  once : s.answering.Nodup
  saved : ∀ id ∈ s.answering, id ∈ s.acknowledging
  refused : ∀ handler ∈ s.rejected, ∀ id saved, handler = .acknowledged id saved → saved = false
  reopenings : ∀ previous ∈ s.reopenings, previous.state = .failed ∧
    previous.localFailure = false

namespace Coherent

variable {s : Intents}

theorem congr {s' : Intents} (coherent : Coherent s) (records : s'.records = s.records)
    (queue : s'.queue = s.queue) (running : s'.running = s.running)
    (rejected : s'.rejected = s.rejected) (acknowledging : s'.acknowledging = s.acknowledging)
    (saving : s'.saving = s.saving) (reopenings : s'.reopenings = s.reopenings) : Coherent s' := by
  have answering : s'.answering = s.answering := by
    simp only [Intents.answering, queue, running, rejected]
  refine ⟨by rw [records]; exact coherent.keyed, by rw [records]; exact coherent.remote, ?_,
    answering ▸ coherent.once, ?_, by rw [rejected]; exact coherent.refused,
    by rw [reopenings]; exact coherent.reopenings⟩
  · intro writes next is_running
    rw [running] at is_running
    obtain ⟨fresh, previous, parked⟩ := coherent.waits writes next is_running
    refine ⟨by rw [saving]; exact fresh, previous, ?_⟩
    intro parks
    rw [Intents.Parked, records]
    exact parked parks
  · intro id member
    rw [answering] at member
    rw [acknowledging]
    exact coherent.saved id member

theorem shrink (coherent : Coherent s) {left : Records} (shrinks : Shrinks s.records left) :
    Coherent { s with records := left } := by
  refine ⟨fun id intent found => coherent.keyed id intent (shrinks.get? found),
    fun id intent found => coherent.remote id intent (shrinks.get? found), ?_, coherent.once,
    coherent.saved, coherent.refused, coherent.reopenings⟩
  intro writes next is_running
  obtain ⟨fresh, previous, parked⟩ := coherent.waits writes next is_running
  exact ⟨fresh, previous, fun parks intent found => parked parks intent (shrinks.get? found)⟩

theorem put (coherent : Coherent s) {id : String} {intent : Intent} (keyed : intent.command.id = id)
    (remote : intent.state = .pending → intent.localFailure = false)
    (parked : ∀ writes next, s.running = some (.writing writes next) → next.parks = true →
      next.id = id → intent.Parked) : Coherent (s.put id intent) := by
  have found_cases : ∀ id' intent', (s.put id intent).records.get? id' = some intent' →
      (id' = id ∧ intent' = intent) ∨ s.records.get? id' = some intent' := by
    intro id' intent' found
    rw [Intents.put, Registry.get?_set] at found
    split at found
    next same =>
      cases found
      exact .inl ⟨same.symm, rfl⟩
    next => exact .inr found
  refine ⟨?_, ?_, ?_, coherent.once, coherent.saved, coherent.refused, coherent.reopenings⟩
  · intro id' intent' found
    rcases found_cases id' intent' found with ⟨rfl, rfl⟩ | old
    · exact keyed
    · exact coherent.keyed id' intent' old
  · intro id' intent' found
    rcases found_cases id' intent' found with ⟨rfl, rfl⟩ | old
    · exact remote
    · exact coherent.remote id' intent' old
  · intro writes next is_running
    obtain ⟨fresh, previous, parked'⟩ := coherent.waits writes next is_running
    refine ⟨fresh, previous, fun parks intent' found => ?_⟩
    rcases found_cases _ _ found with ⟨same, rfl⟩ | old
    · exact parked writes next is_running parks same
    · exact parked' parks intent' old

theorem pump (coherent : Coherent s) : Coherent s.pump := by
  obtain ⟨fenced, sent, pumped⟩ := s.pump_spec
  rw [pumped.is]
  exact coherent.congr rfl rfl rfl rfl rfl rfl rfl

theorem releaseSlot (coherent : Coherent s) (id : String) : Coherent (s.releaseSlot id) :=
  Coherent.pump (coherent.congr rfl rfl rfl rfl rfl rfl rfl)

theorem remove (coherent : Coherent s) {id : String}
    (settled : ∀ intent, s.records.get? id = some intent → intent.state ≠ .pending) :
    Coherent (s.remove id) :=
  coherent.shrink (.delete settled)

theorem serialize (coherent : Coherent s) (o : Options) {operation : Operation}
    {handler : Handler} (other : operation.receipt? = none) (other' : handler.receipt? = none) :
    Coherent (s.serialize o operation handler) := by
  have waits : ∀ s' : Intents, s'.records = s.records → s'.saving = s.saving →
      s'.running = s.running →
      ∀ writes next, s'.running = some (.writing writes next) → Waits s' next := by
    intro s' records saving running writes next is_running
    rw [running] at is_running
    obtain ⟨fresh, previous, parked⟩ := coherent.waits writes next is_running
    refine ⟨by rw [saving]; exact fresh, previous, ?_⟩
    intro parks
    rw [Intents.Parked, records]
    exact parked parks
  unfold Intents.serialize
  split
  · have same : ({ s with rejected := s.rejected ++ [handler] } : Intents).answering =
        s.answering := by
      simp [Intents.answering, other']
    refine ⟨coherent.keyed, coherent.remote, waits _ rfl rfl rfl, same ▸ coherent.once,
      same ▸ coherent.saved, ?_, coherent.reopenings⟩
    intro handler' member id saved is_ack
    rcases List.mem_append.mp member with old | new
    · exact coherent.refused handler' old id saved is_ack
    · rw [List.mem_singleton.mp new] at is_ack
      simp [is_ack] at other'
  · have same : ({ s with queue := s.queue ++ [operation] } : Intents).answering =
        s.answering := by
      simp [Intents.answering, other]
    exact ⟨coherent.keyed, coherent.remote, waits _ rfl rfl rfl, same ▸ coherent.once,
      same ▸ coherent.saved, coherent.refused, coherent.reopenings⟩

theorem idle (coherent : Coherent s) : Coherent { s with running := none } := by
  have fewer : List.Sublist ({ s with running := none } : Intents).answering s.answering := by
    simp only [Intents.answering, Option.bind_none, Option.toList_none, List.append_nil]
    exact (List.sublist_append_left ..).append (List.Sublist.refl _)
  refine ⟨coherent.keyed, coherent.remote, ?_, fewer.nodup coherent.once,
    fun id member => coherent.saved id (fewer.subset member), coherent.refused,
    coherent.reopenings⟩
  intro writes next running
  simp at running

/-- A receipt that an operation may save: it is marked, and no other operation saves it. -/
def Mine (s : Intents) (id : String) : Prop :=
  id ∈ s.acknowledging ∧ id ∉ ({ s with running := none } : Intents).answering

theorem answering_running (s : Intents) {running : Running} {id : String}
    (receipt : running.receipt? = some id) :
    ({ s with running := some running } : Intents).answering.Perm
      (id :: ({ s with running := none } : Intents).answering) := by
  simp only [Intents.answering, Option.bind_some, receipt, Option.toList_some, Option.bind_none,
    Option.toList_none, List.append_nil]
  rw [List.append_assoc, List.singleton_append]
  exact List.perm_middle

theorem mine (coherent : Coherent s) {running : Running} {id : String}
    (is_running : s.running = some running) (receipt : running.receipt? = some id) : Mine s id := by
  have perm := answering_running s receipt
  rw [← is_running] at perm
  have nodup := perm.nodup_iff.mp coherent.once
  exact ⟨coherent.saved _ (perm.mem_iff.mpr (List.mem_cons_self ..)),
    (List.nodup_cons.mp nodup).1⟩

theorem runs (coherent : Coherent s) {running : Running}
    (waits : ∀ writes next, running = .writing writes next → Waits s next)
    (mine : ∀ id, running.receipt? = some id → Mine s id) :
    Coherent { s with running := some running } := by
  have calm := coherent.idle
  have waits' : ∀ writes next, ({ s with running := some running } : Intents).running =
      some (.writing writes next) → Waits { s with running := some running } next := by
    intro writes next is_running
    cases is_running
    obtain ⟨fresh, previous, parked⟩ := waits writes next rfl
    exact ⟨fresh, previous, parked⟩
  cases receipt : running.receipt? with
  | some id =>
    obtain ⟨marked, alone⟩ := mine id receipt
    have perm := answering_running s receipt
    refine ⟨calm.keyed, calm.remote, waits', ?_, ?_, calm.refused, calm.reopenings⟩
    · rw [perm.nodup_iff]
      exact List.nodup_cons.mpr ⟨alone, calm.once⟩
    · intro other member
      rcases List.mem_cons.mp (perm.mem_iff.mp member) with rfl | old
      · exact marked
      · exact calm.saved other old
  | none =>
    have same : ({ s with running := some running } : Intents).answering =
        ({ s with running := none } : Intents).answering := by
      simp [Intents.answering, receipt]
    exact ⟨calm.keyed, calm.remote, waits', same ▸ calm.once, same ▸ calm.saved, calm.refused,
      calm.reopenings⟩

theorem settle (coherent : Coherent s) {handler : Handler}
    (mine : ∀ id, handler.receipt? = some id → Mine s id) : Coherent (s.settle handler) := by
  refine coherent.runs ?_ mine
  intro writes next same
  simp at same

theorem write (coherent : Coherent s) {writes : List Write} {next : Continuation}
    (waits : Waits s next) (mine : ∀ id, next.receipt? = some id → Mine s id) :
    Coherent (s.write writes next) := by
  refine coherent.runs ?_ mine
  intro writes' next' same
  cases same
  exact waits

theorem dequeue (coherent : Coherent s) {operation : Operation} {queue : List Operation}
    (is_queue : s.queue = operation :: queue) (idle : s.running = none) :
    Coherent { s with queue } ∧
      ∀ id, operation.receipt? = some id → Mine { s with queue } id := by
  have fewer : List.Sublist ({ s with queue } : Intents).answering s.answering := by
    simp only [Intents.answering, is_queue]
    refine List.Sublist.append (List.Sublist.append ?_ (.refl _)) (.refl _)
    exact (List.sublist_cons_self ..).filterMap _
  refine ⟨⟨coherent.keyed, coherent.remote, ?_, fewer.nodup coherent.once,
    fun id member => coherent.saved id (fewer.subset member), coherent.refused,
    coherent.reopenings⟩, ?_⟩
  · intro writes next running
    rw [show ({ s with queue } : Intents).running = s.running from rfl, idle] at running
    cases running
  · intro id receipt
    have first : s.answering = id :: ({ s with queue } : Intents).answering := by
      simp [Intents.answering, is_queue, receipt]
    have nodup := coherent.once
    rw [first] at nodup
    refine ⟨coherent.saved _ (by simp [first]), ?_⟩
    have same : ({ ({ s with queue } : Intents) with running := none } : Intents).answering =
        ({ s with queue } : Intents).answering := by
      simp [Intents.answering, idle]
    rw [same]
    exact (List.nodup_cons.mp nodup).1

end Coherent

/-! ### Steps -/

namespace Coherent

variable {s : Intents} (o : Options)

theorem put_idle (coherent : Coherent s) {id : String} {intent : Intent}
    (keyed : intent.command.id = id)
    (remote : intent.state = .pending → intent.localFailure = false)
    (idle : ∀ writes next, s.running ≠ some (.writing writes next)) : Coherent (s.put id intent) :=
  coherent.put keyed remote fun writes next running => absurd running (idle writes next)

theorem put_parked (coherent : Coherent s) {id : String} {intent : Intent}
    (keyed : intent.command.id = id) (parked : intent.Parked) : Coherent (s.put id intent) :=
  coherent.put keyed (fun pending => absurd pending parked.1) fun _ _ _ _ _ => parked

theorem put_loose (coherent : Coherent s) {id : String} {intent previous : Intent}
    (keyed : intent.command.id = id)
    (remote : intent.state = .pending → intent.localFailure = false)
    (found : s.records.get? id = some previous) (loose : ¬ previous.Parked) :
    Coherent (s.put id intent) := by
  refine coherent.put keyed remote ?_
  rintro writes next running parks rfl
  exact absurd ((coherent.waits writes next running).parked parks previous found) loose

theorem enqueue (coherent : Coherent s) (id : String) (payload : Value) :
    Coherent (s.enqueue o id payload) := by
  unfold Intents.enqueue
  simp only
  split
  · exact coherent
  · split
    · exact coherent
    · split
      next unsaved =>
        -- what is there is a local failure
        have settled : ∀ intent, s.records.get? id = some intent → intent.state ≠ .pending := by
          intro intent found pending
          have is_local : intent.localFailure = true := by simpa [found] using unsaved
          rw [coherent.remote id intent found pending] at is_local
          cases is_local
        have removed : Coherent (if (s.records.get? id).isSome then s.remove id else s) := by
          split
          · exact coherent.remove settled
          · exact coherent
        generalize (if (s.records.get? id).isSome then s.remove id else s) = s₀ at removed ⊢
        have saving := @put_parked s₀ removed id
          { command := { id, deviceId := o.device, payload }, state := .saving } rfl
          ⟨by simp, by simp⟩
        have shrinks := evict_shrinks o (s₀.put id
          { command := { id, deviceId := o.device, payload }, state := .saving }).records (some id)
        have kept := evict_keeps o (s₀.put id
          { command := { id, deviceId := o.device, payload }, state := .saving }).records id
        have bounded := saving.shrink shrinks
        split
        next left error is_evicted =>
          rw [is_evicted] at bounded kept
          refine bounded.remove ?_
          intro intent found
          rw [kept, Intents.put, Registry.get?_set_self] at found
          cases found
          simp
        next left evicted is_evicted =>
          rw [is_evicted] at bounded
          apply Coherent.serialize
          · exact bounded.congr rfl rfl rfl rfl rfl rfl rfl
          · rfl
          · rfl
      next =>
        apply Coherent.serialize
        · exact coherent.congr rfl rfl rfl rfl rfl rfl rfl
        · rfl
        · rfl

theorem acknowledge (coherent : Coherent s) (result : CommandResult) :
    Coherent (s.acknowledge o result) := by
  have calm : Coherent (s.cancelRetry result.commandId) :=
    coherent.congr rfl rfl rfl rfl rfl rfl rfl
  unfold Intents.acknowledge
  simp only
  split
  · exact calm
  next unmarked =>
    have fresh : result.commandId ∉ s.answering := fun member =>
      unmarked (List.contains_iff_mem.mpr (coherent.saved _ member))
    have waits : ∀ s' : Intents, s'.records = s.records → s'.saving = s.saving →
        s'.running = s.running →
        ∀ writes next, s'.running = some (.writing writes next) → Waits s' next := by
      intro s' records saving running writes next is_running
      rw [running] at is_running
      obtain ⟨fresh, previous, parked⟩ := coherent.waits writes next is_running
      refine ⟨by rw [saving]; exact fresh, previous, ?_⟩
      intro parks
      rw [Intents.Parked, records]
      exact parked parks
    -- one more receipt, which is marked
    have marked : ∀ s' : Intents, s'.answering.Perm (result.commandId :: s.answering) →
        s'.acknowledging = addTo s.acknowledging result.commandId →
        s'.answering.Nodup ∧ ∀ id ∈ s'.answering, id ∈ s'.acknowledging := by
      intro s' perm acknowledging
      refine ⟨perm.nodup_iff.mpr (List.nodup_cons.mpr ⟨fresh, coherent.once⟩), fun id member => ?_⟩
      rw [acknowledging, mem_addTo]
      rcases List.mem_cons.mp (perm.mem_iff.mp member) with rfl | old
      · exact .inr rfl
      · exact .inl (coherent.saved id old)
    unfold Intents.serialize
    split
    · obtain ⟨once, saved⟩ := marked { s.cancelRetry result.commandId with
        acknowledging := addTo s.acknowledging result.commandId
        rejected := s.rejected ++ [.acknowledged result.commandId false] } (by
          simp only [Intents.answering, Intents.cancelRetry, List.filterMap_append, List.filterMap_cons,
            List.filterMap_nil, Handler.receipt?]
          rw [← List.append_assoc]
          exact List.perm_append_singleton ..) rfl
      refine ⟨coherent.keyed, coherent.remote, waits _ rfl rfl rfl, once, saved, ?_,
        coherent.reopenings⟩
      intro handler member id saved' is_ack
      rcases List.mem_append.mp member with old | new
      · exact coherent.refused handler old id saved' is_ack
      · rw [List.mem_singleton.mp new] at is_ack
        cases is_ack
        rfl
    · obtain ⟨once, saved⟩ := marked { s.cancelRetry result.commandId with
        acknowledging := addTo s.acknowledging result.commandId
        queue := s.queue ++ [.acknowledge result] } (by
          simp only [Intents.answering, Intents.cancelRetry, List.filterMap_append, List.filterMap_cons,
            List.filterMap_nil, Operation.receipt?, List.append_assoc, List.singleton_append]
          exact List.perm_middle) rfl
      exact ⟨coherent.keyed, coherent.remote, waits _ rfl rfl rfl, once, saved, coherent.refused,
        coherent.reopenings⟩

theorem refuse (coherent : Coherent s) (id code : String) (retryable : Bool) :
    Coherent (s.refuse o id code retryable) := by
  unfold Intents.refuse
  simp only
  split
  · exact coherent
  · split
    · exact coherent.acknowledge o _
    · exact Coherent.pump (coherent.congr rfl rfl rfl rfl rfl rfl rfl)

theorem retry (coherent : Coherent s) (id : String) : Coherent (s.retry id) := by
  unfold Intents.retry
  split
  · exact coherent
  · simp only
    split
    · exact Coherent.pump (coherent.congr rfl rfl rfl rfl rfl rfl rfl)
    · exact coherent.congr rfl rfl rfl rfl rfl rfl rfl

theorem reopen (coherent : Coherent s) (id : String) : Coherent (s.reopen o id) := by
  unfold Intents.reopen
  split
  · exact coherent
  next previous found =>
    split
    · exact coherent
    next refused =>
      simp only [bne_iff_ne, ne_eq, Bool.or_eq_true, not_or, not_not, Bool.not_eq_true] at refused
      obtain ⟨failed, is_remote⟩ := refused
      have loose : ¬ previous.Parked := fun parked => by
        have is_local := parked.2 failed
        rw [is_remote] at is_local
        cases is_local
      have pending : Coherent (s.put id (Intents.reopened previous)) :=
        coherent.put_loose (coherent.keyed id previous found) (fun _ => is_remote) found loose
      apply Coherent.serialize _ o rfl rfl
      refine ⟨pending.keyed, pending.remote, ?_, pending.once, pending.saved, pending.refused, ?_⟩
      · intro writes next running
        obtain ⟨fresh, previous, parked⟩ := pending.waits writes next running
        exact ⟨fresh, previous, parked⟩
      · intro other member
        rcases List.mem_append.mp member with old | new
        · exact coherent.reopenings other old
        · rw [List.mem_singleton.mp new]
          exact ⟨failed, is_remote⟩

theorem undo (coherent : Coherent s) (previous : Intent) : Coherent (s.undo o previous) := by
  unfold Intents.undo
  simp only
  split
  · exact coherent
  next back =>
    simp only [Bool.or_eq_true, Bool.not_eq_true', decide_eq_true_eq, not_or, Bool.not_eq_false,
      List.contains_iff_mem, ne_eq, not_not] at back
    obtain ⟨reopened, found⟩ := back
    obtain ⟨failed, -⟩ := coherent.reopenings previous reopened
    have loose : ¬ (Intents.reopened previous).Parked := fun parked => parked.1 rfl
    have restored : Coherent (s.put previous.command.id previous) :=
      coherent.put_loose rfl (fun pending => by rw [failed] at pending; cases pending) found loose
    apply Coherent.serialize
    · exact restored.congr rfl rfl rfl rfl rfl rfl rfl
    · rfl
    · rfl

theorem deliveryFailed (coherent : Coherent s) (id error : String) :
    Coherent (s.deliveryFailed o id error) := by
  unfold Intents.deliveryFailed
  split
  · exact coherent
  · split
    · exact coherent
    · exact coherent.serialize o rfl rfl

theorem waiting (coherent : Coherent s) (id : String) : Coherent (s.waiting id) := by
  unfold Intents.waiting
  split
  · exact coherent
  next previous found =>
    split
    · exact coherent
    next pending =>
      simp only [bne_iff_ne, ne_eq, Bool.or_eq_true, not_or, not_not, Bool.not_eq_true] at pending
      exact coherent.put_loose (coherent.keyed id previous found)
        (coherent.remote id previous found) found fun parked => parked.1 pending.1

theorem observe (coherent : Coherent s) (id : String) (acknowledged : Bool) :
    Coherent (s.observe o id acknowledged) := by
  unfold Intents.observe
  split
  · exact coherent
  · split
    · exact coherent
    · exact coherent.serialize o rfl rfl

theorem reask (coherent : Coherent s) (ids : List String) : Coherent (s.reask ids) := by
  unfold Intents.reask
  apply Coherent.pump
  have sends : ∀ s : Intents, Coherent s → Coherent (ids.foldl Intents.reaskOne s) := by
    induction ids with
    | nil => exact fun _ coherent => coherent
    | cons id ids ih =>
      intro s coherent
      rw [List.foldl_cons]
      apply ih
      unfold Intents.reaskOne
      split
      · split
        · exact coherent.congr rfl rfl rfl rfl rfl rfl rfl
        · exact coherent
      · exact coherent
  exact (sends s coherent).congr rfl rfl rfl rfl rfl rfl rfl

theorem not_writing {s : Intents} (idle : s.running = none) :
    ∀ writes next, s.running ≠ some (.writing writes next) := by
  intro writes next running
  rw [idle] at running
  cases running

theorem startEnqueue (coherent : Coherent s) (command : Command) (evictedBefore : List String) :
    Coherent (s.startEnqueue o command evictedBefore) := by
  unfold Intents.startEnqueue
  simp only
  split
  · exact coherent.settle (by simp)
  · split
    next stored _ =>
      apply Coherent.settle _ (by simp)
      split
      · exact coherent.pump
      · split
        · exact coherent.congr rfl rfl rfl rfl rfl rfl rfl
        · exact coherent
    next =>
      split
      · exact coherent.settle (by simp)
      · have bounded := coherent.shrink (evict_shrinks o s.records (some command.id))
        split
        next left error is_evicted =>
          rw [is_evicted] at bounded
          apply Coherent.settle _ (by simp)
          exact bounded.congr rfl rfl rfl rfl rfl rfl rfl
        next left evicted is_evicted =>
          rw [is_evicted] at bounded
          apply Coherent.write
          · refine ⟨bounded.keyed, bounded.remote, ?_, bounded.once, bounded.saved,
              bounded.refused, bounded.reopenings⟩
            intro writes next running
            obtain ⟨fresh, previous, parked⟩ := bounded.waits writes next running
            refine ⟨fun intent same => ?_, previous, parked⟩
            obtain ⟨pending, is_remote, new, member⟩ := fresh intent same
            exact ⟨pending, is_remote, new, mem_addTo.mpr (.inl member)⟩
          · exact .enqueue rfl rfl rfl (mem_addTo.mpr (.inr rfl))
          · simp [Continuation.receipt?]

theorem startRewrite (coherent : Coherent s) (idle : s.running = none) (id : String)
    (payload : Value) : Coherent (s.startRewrite o id payload) := by
  unfold Intents.startRewrite
  split
  · exact coherent.settle (by simp)
  next previous found =>
    obtain ⟨found, failed⟩ := Option.filter_eq_some_iff.mp found
    simp only [beq_iff_eq] at failed
    have keyed := coherent.keyed id previous found
    have remote := coherent.remote id previous found
    simp only
    split
    · exact coherent.settle (by simp)
    · apply Coherent.write
      · refine coherent.put_idle keyed ?_ (not_writing idle)
        intro pending
        rw [Intents.rewritten, failed] at pending
        cases pending
      · exact .back rfl keyed remote (by simp [Continuation.parks])
      · simp [Continuation.receipt?]

theorem answered_id (previous : Intent) (result : CommandResult) :
    (Intents.answered previous result).command = previous.command := by
  unfold Intents.answered
  split <;> rfl

theorem answered_remote {previous : Intent} (result : CommandResult)
    (remote : previous.state = .pending → previous.localFailure = false)
    (pending : (Intents.answered previous result).state = .pending) :
    (Intents.answered previous result).localFailure = false := by
  unfold Intents.answered at pending ⊢
  by_cases was : previous.state = .pending
  · rw [if_pos was]
    exact remote was
  · rw [if_neg was] at pending
    exact absurd pending was

theorem startAcknowledge (coherent : Coherent s) (idle : s.running = none)
    {result : CommandResult} (mine : Mine s result.commandId) :
    Coherent (s.startAcknowledge o result) := by
  unfold Intents.startAcknowledge
  simp only
  split
  · exact coherent.settle (by simpa using mine)
  next previous found =>
    have keyed := coherent.keyed _ previous found
    have remote := coherent.remote _ previous found
    have next : Coherent (s.put result.commandId (Intents.answered previous result)) :=
      coherent.put_idle (by rw [answered_id]; exact keyed) (answered_remote result remote)
        (not_writing idle)
    have bounded := next.shrink (evict_shrinks o _ (some result.commandId))
    split
    next left error is_evicted =>
      rw [is_evicted] at bounded
      apply Coherent.settle
      · exact bounded.put_idle keyed remote (not_writing idle)
      · intro id receipt
        cases receipt
        exact mine
    next left evicted is_evicted =>
      rw [is_evicted] at bounded
      apply bounded.write
      · exact .back rfl keyed remote (by simp [Continuation.parks])
      · intro id receipt
        cases receipt
        exact mine

theorem trimFailed_shrinks (coherent : Coherent s) (keep : String) :
    Shrinks s.records (trimFailed o s.records keep).1 :=
  trimFrom_shrinks o (listed_entries s.records) coherent.remote

theorem trimFailed_keeps (records : Records) (keep : String) :
    (trimFailed o records keep).1.get? keep = records.get? keep :=
  trimFrom_keeps o

theorem startDeliveryFailed (coherent : Coherent s) (idle : s.running = none) (id error : String) :
    Coherent (s.startDeliveryFailed o id error) := by
  unfold Intents.startDeliveryFailed
  split
  · exact coherent.settle (by simp)
  next previous found =>
    obtain ⟨found, -⟩ := Option.filter_eq_some_iff.mp found
    have keyed := coherent.keyed id previous found
    have remote := coherent.remote id previous found
    have parked : (Intents.undelivered previous error).Parked :=
      ⟨by simp [Intents.undelivered], fun _ => rfl⟩
    have failed : Coherent (s.put id (Intents.undelivered previous error)) :=
      coherent.put_parked keyed parked
    have trimmed := trimFailed_shrinks o failed id
    have bounded := failed.shrink
      (trimmed.trans (evict_shrinks o (trimFailed o _ id).1 (some id)))
    have kept : (evict o (trimFailed o (s.put id (Intents.undelivered previous error)).records
        id).1 (some id)).1.get? id = some (Intents.undelivered previous error) := by
      rw [evict_keeps, trimFailed_keeps, Intents.put, Registry.get?_set_self]
    simp only
    split
    next left error' is_evicted =>
      rw [is_evicted] at bounded kept
      apply Coherent.write
      · apply bounded.remove
        intro intent same
        rw [kept] at same
        cases same
        exact parked.1
      · refine .back rfl keyed remote fun _ intent same => ?_
        simp [Intents.remove, Continuation.id] at same
      · simp [Continuation.receipt?]
    next left evicted is_evicted =>
      rw [is_evicted] at bounded kept
      apply bounded.write
      · refine .back rfl keyed remote fun _ intent same => ?_
        cases kept.symm.trans same
        exact parked
      · simp [Continuation.receipt?]

theorem startObserve (coherent : Coherent s) (idle : s.running = none) (id : String)
    (acknowledged : Bool) : Coherent (s.startObserve id acknowledged) := by
  unfold Intents.startObserve
  split
  · exact coherent.settle (by simp)
  next previous found =>
    obtain ⟨found, -⟩ := Option.filter_eq_some_iff.mp found
    have keyed := coherent.keyed id previous found
    have remote := coherent.remote id previous found
    simp only
    apply Coherent.write
    · refine coherent.put_idle ?_ ?_ (not_writing idle)
      · unfold Intents.delivered
        split <;> exact keyed
      · unfold Intents.delivered
        split
        · simp
        · exact remote
    · refine .back rfl keyed remote fun parks intent same => ?_
      simp only [Continuation.parks] at parks
      rw [Intents.put, Continuation.id, Registry.get?_set_self] at same
      cases same
      simp [Intents.delivered, parks, Intent.Parked]
    · simp [Continuation.receipt?]

theorem start (coherent : Coherent s) (idle : s.running = none) {operation : Operation}
    (mine : ∀ id, operation.receipt? = some id → Mine s id) : Coherent (s.start o operation) := by
  cases operation with
  | enqueue command evictedBefore => exact coherent.startEnqueue o command evictedBefore
  | rewrite id payload => exact coherent.startRewrite o idle id payload
  | acknowledge result => exact coherent.startAcknowledge o idle (mine _ rfl)
  | save intent => exact coherent.write .save (by simp [Continuation.receipt?])
  | deliveryFailed id error => exact coherent.startDeliveryFailed o idle id error
  | observe id acknowledged => exact coherent.startObserve idle id acknowledged

theorem not_writing_settled {s : Intents} {handler : Handler}
    (settled : s.running = some (.settled handler)) :
    ∀ writes next, s.running ≠ some (.writing writes next) := by
  intro writes next running
  rw [settled] at running
  cases running

theorem ends (coherent : Coherent s) {writes : List Write} {next : Continuation}
    (running : s.running = some (.writing writes next)) {handler : Handler}
    (same : handler.receipt? = none ∨ handler.receipt? = next.receipt?) :
    Coherent (s.settle handler) := by
  apply coherent.settle
  intro id receipt
  rcases same with none_ | same
  · rw [none_] at receipt
    cases receipt
  · exact coherent.mine running (same.symm.trans receipt)

theorem resume (coherent : Coherent s) {next : Continuation}
    (running : s.running = some (.writing [] next)) : Coherent (s.resume next) := by
  have waits := coherent.waits [] next running
  cases next with
  | enqueue intent =>
    obtain ⟨pending, is_remote, -, -⟩ := waits.fresh intent rfl
    have ended : Coherent (s.settle (.enqueued intent.command none)) :=
      coherent.ends running (.inl rfl)
    have calm : Coherent { s.settle (.enqueued intent.command none) with
        saving := removeFrom s.saving intent.command.id } := by
      refine ⟨ended.keyed, ended.remote, ?_, ended.once, ended.saved, ended.refused,
        ended.reopenings⟩
      exact fun writes next is_running => absurd is_running (not_writing_settled rfl writes next)
    have saved := @put_idle _ calm intent.command.id intent rfl (fun _ => is_remote)
      (not_writing_settled rfl)
    obtain ⟨fenced, sent, pumped⟩ := ({ s with
      saving := removeFrom s.saving intent.command.id }.put intent.command.id intent).pump_spec
    simp only [Intents.resume]
    rw [pumped.is]
    exact saved.congr rfl rfl rfl rfl rfl rfl rfl
  | rewrite id previous => exact coherent.ends running (.inl rfl)
  | save id => exact coherent.ends running (.inl rfl)
  | acknowledge result previous => exact coherent.ends running (.inr rfl)
  | deliveryFailed id previous =>
    have ended : Coherent (s.settle .none) := coherent.ends running (.inl rfl)
    obtain ⟨fenced, sent, pumped⟩ := ({ s with
      inFlight := removeFrom s.inFlight id }.cancelRetry id).pump_spec
    simp only [Intents.resume]
    rw [pumped.is]
    exact ended.congr rfl rfl rfl rfl rfl rfl rfl
  | observe id acknowledged previous =>
    have ended : Coherent (s.settle .none) := coherent.ends running (.inl rfl)
    simp only [Intents.resume]
    split
    · obtain ⟨fenced, sent, pumped⟩ := ({ s with
        inFlight := removeFrom s.inFlight id }.cancelRetry id).pump_spec
      rw [Intents.releaseSlot, pumped.is]
      exact ended.congr rfl rfl rfl rfl rfl rfl rfl
    · split
      · obtain ⟨fenced, sent, pumped⟩ := s.pump_spec
        rw [pumped.is]
        exact ended.congr rfl rfl rfl rfl rfl rfl rfl
      · exact ended

theorem restore (coherent : Coherent s) {writes : List Write} {next : Continuation}
    (running : s.running = some (.writing writes next)) : Coherent (s.restore next) := by
  have waits := coherent.waits writes next running
  cases next with
  | enqueue intent =>
    have ended : Coherent (s.settle (.enqueued intent.command (some "storage"))) :=
      coherent.ends running (.inl rfl)
    refine ⟨ended.keyed, ended.remote, ?_, ended.once, ended.saved, ended.refused,
      ended.reopenings⟩
    exact fun writes next is_running => absurd is_running (not_writing_settled rfl writes next)
  | save id => exact coherent.ends running (.inl rfl)
  | rewrite id previous =>
    obtain ⟨keyed, remote⟩ := waits.previous previous rfl
    exact put_idle (coherent.ends running (.inl rfl)) keyed remote (not_writing_settled rfl)
  | deliveryFailed id previous =>
    obtain ⟨keyed, remote⟩ := waits.previous previous rfl
    exact put_idle (coherent.ends running (.inl rfl)) keyed remote (not_writing_settled rfl)
  | observe id acknowledged previous =>
    obtain ⟨keyed, remote⟩ := waits.previous previous rfl
    exact put_idle (coherent.ends running (.inl rfl)) keyed remote (not_writing_settled rfl)
  | acknowledge result previous =>
    obtain ⟨keyed, remote⟩ := waits.previous previous rfl
    exact put_idle (coherent.ends running (.inr rfl)) keyed remote (not_writing_settled rfl)

theorem keepFailed (coherent : Coherent s) (command : Command) (error : String) :
    Coherent (s.keepFailed o command error) := by
  unfold Intents.keepFailed
  simp only
  split
  · have parked : ({ command, state := .failed, localFailure := true, error := some error } :
        Intent).Parked := ⟨by simp, fun _ => rfl⟩
    have failed := @put_parked s coherent command.id
      { command, state := .failed, localFailure := true, error := some error } rfl parked
    have bounded := failed.shrink
      ((trimFailed_shrinks o failed command.id).trans (evict_shrinks o _ (some command.id)))
    have kept := evict_keeps o (trimFailed o (s.put command.id
      { command, state := .failed, localFailure := true, error := some error }).records
        command.id).1 command.id
    rw [trimFailed_keeps, Intents.put, Registry.get?_set_self] at kept
    split
    next left evicted is_evicted =>
      rw [is_evicted] at bounded
      exact bounded
    next left error' is_evicted =>
      rw [is_evicted] at bounded
      apply bounded.remove
      intro intent found
      have same := kept.symm.trans ((congrArg (fun evicted => evicted.1.get? command.id)
        is_evicted).trans found)
      cases same
      exact parked.1
  · exact coherent

theorem handle (coherent : Coherent s) {handler : Handler}
    (unmarked : ∀ id, handler.receipt? = some id → id ∉ s.answering) :
    Coherent (s.handle o handler) := by
  cases handler with
  | none => exact coherent
  | enqueued command error =>
    simp only [Intents.handle]
    cases error with
    | none => exact coherent.congr rfl rfl rfl rfl rfl rfl rfl
    | some error => exact (coherent.keepFailed o command error).congr rfl rfl rfl rfl rfl rfl rfl
  | acknowledged id saved =>
    have marked : Coherent { s with acknowledging := removeFrom s.acknowledging id } := by
      refine ⟨coherent.keyed, coherent.remote, ?_, coherent.once, ?_, coherent.refused,
        coherent.reopenings⟩
      · intro writes next running
        obtain ⟨fresh, previous, parked⟩ := coherent.waits writes next running
        exact ⟨fresh, previous, parked⟩
      · intro other member
        refine mem_removeFrom.mpr ⟨coherent.saved other member, ?_⟩
        rintro rfl
        exact unmarked other rfl member
    simp only [Intents.handle]
    split
    · exact marked.releaseSlot id
    · exact marked

theorem unreject (coherent : Coherent s) {handler : Handler} {rejected : List Handler}
    (is_rejected : s.rejected = handler :: rejected) :
    Coherent { s with rejected } ∧
      ∀ id, handler.receipt? = some id → id ∉ ({ s with rejected } : Intents).answering := by
  have fewer : List.Sublist ({ s with rejected } : Intents).answering s.answering := by
    simp only [Intents.answering, is_rejected]
    refine List.Sublist.append (.refl _) ?_
    exact (List.sublist_cons_self ..).filterMap _
  refine ⟨⟨coherent.keyed, coherent.remote, ?_, fewer.nodup coherent.once,
    fun id member => coherent.saved id (fewer.subset member), ?_, coherent.reopenings⟩, ?_⟩
  · intro writes next running
    obtain ⟨fresh, previous, parked⟩ := coherent.waits writes next running
    exact ⟨fresh, previous, parked⟩
  · intro other member
    exact coherent.refused other (by rw [is_rejected]; exact List.mem_cons_of_mem _ member)
  · intro id receipt
    have perm : s.answering.Perm (id :: ({ s with rejected } : Intents).answering) := by
      simp only [Intents.answering, is_rejected, List.filterMap_cons, receipt]
      exact List.perm_middle
    exact (List.nodup_cons.mp (perm.nodup_iff.mp coherent.once)).1

end Coherent

theorem coherent_step (o : Options) {s s' : Intents} (coherent : Coherent s) {action : Action}
    (steps : s.step o action = some s') : Coherent s' := by
  cases action <;> simp only [Intents.step] at steps
  case enqueue id payload => cases steps; exact coherent.enqueue o id payload
  case rewrite id payload => cases steps; exact coherent.serialize o rfl rfl
  case refuse id code retryable => cases steps; exact coherent.refuse o id code retryable
  case acknowledge result => cases steps; exact coherent.acknowledge o result
  case reopen id => cases steps; exact coherent.reopen o id
  case undo previous => cases steps; exact coherent.undo o previous
  case deliveryFailed id error => cases steps; exact coherent.deliveryFailed o id error
  case waiting id => cases steps; exact coherent.waiting id
  case observe id acknowledged => cases steps; exact coherent.observe o id acknowledged
  case fence => cases steps; exact coherent.congr rfl rfl rfl rfl rfl rfl rfl
  case reask ids => cases steps; exact coherent.reask ids
  case disconnect => cases steps; exact coherent.congr rfl rfl rfl rfl rfl rfl rfl
  case replay =>
    cases steps
    exact Coherent.pump (coherent.congr rfl rfl rfl rfl rfl rfl rfl)
  case verify hostId => cases steps; exact coherent.congr rfl rfl rfl rfl rfl rfl rfl
  case retry id =>
    split at steps
    · cases steps
      exact coherent.retry id
    · cases steps
  case start =>
    split at steps
    next operation queue idle is_queue =>
      cases steps
      obtain ⟨calm, mine⟩ := coherent.dequeue is_queue idle
      exact calm.start o idle mine
    next => cases steps
  case write ok =>
    split at steps
    next id value writes next running =>
      split at steps
      · cases steps
        have waits := coherent.waits _ next running
        refine Coherent.write (s := { s with disk := _ }) ?_ ⟨waits.fresh, waits.previous,
          waits.parked⟩ ?_
        · exact coherent.congr rfl rfl rfl rfl rfl rfl rfl
        · exact fun id receipt => coherent.mine running receipt
      · cases steps
        exact coherent.restore running
    next => cases steps
  case resume =>
    split at steps
    next next running =>
      cases steps
      exact coherent.resume running
    next => cases steps
  case handle =>
    split at steps
    next handler running =>
      cases steps
      exact coherent.idle.handle o fun id receipt => (coherent.mine running receipt).2
    next => cases steps
  case reject =>
    split at steps
    next handler rejected is_rejected =>
      cases steps
      obtain ⟨calm, alone⟩ := coherent.unreject is_rejected
      exact calm.handle o alone
    next => cases steps

theorem coherent_run (o : Options) {s s' : Intents} (coherent : Coherent s)
    {actions : List Action} (runs : s.run o actions = some s') : Coherent s' := by
  induction actions generalizing s with
  | nil =>
    cases runs
    exact coherent
  | cons action actions ih =>
    rw [Intents.run, List.foldlM_cons] at runs
    obtain ⟨next, first, rest⟩ := Option.bind_eq_some_iff.mp runs
    exact ih (coherent_step o coherent first) rest

end Ace.Client
