import Ace.Properties.OutboxCoherence

/-!
# Path switches and the order of commands

On one connection a command is owed a receipt from the moment it is sent until it is answered,
refused or seen in a transcript. Whatever else happens meanwhile, the record of a command that is
owed a receipt stays as the pump left it, so a fence that it is behind holds.

## Main result

`switch_keeps_order`
-/

namespace Ace.Client

open Script

/-! ### What is followed -/

namespace Intents

/-- Whether an action answers a command, refuses it, gives it up or sees it in a transcript. An
observation counts when it is made and when it is recorded. -/
def answers (s : Intents) : Action → String → Bool
  | .acknowledge result, id => result.commandId == id
  | .refuse id' .., id | .observe id' _, id | .deliveryFailed id' _, id => id' == id
  | .undo previous, id => previous.command.id == id
  | .start, id => match s.queue with
    | .observe id' _ :: _ | .deliveryFailed id' _ :: _ => id' == id
    | _ => false
  | .write false, id => match s.running with
    -- a write that fails takes back what its operation did
    | some (.writing _ next) => next.id == id
    | _ => false
  | _, _ => false

/-- A command that is reopened and has no receipt on its way to the disk. -/
def reopens (s : Intents) : Action → List String
  | .reopen id =>
    if (s.records.get? id).any (fun intent => intent.state == .failed && !intent.localFailure &&
      !intent.delivered) && !s.acknowledging.contains id && !s.heldBack id then [id] else []
  | _ => []

/-- Whether an action lets the pump send a command that was sent before: it was refused, or it is
about to be pending anew. -/
def renews (s : Intents) : Action → String → Bool
  | .refuse id' .., id | .reopen id', id => id' == id
  | .undo previous, id => previous.command.id == id
  | .start, id => match s.queue with
    | .enqueue command _ :: _ => command.id == id &&
      ((s.records.get? id).filter (·.state != .saving)).isNone
    | _ => false
  | _, _ => false

end Intents

/-- An outbox, the commands that are owed a receipt, and those that were sent while pending. -/
structure Watch where
  s : Intents
  owed : List String
  out : List String

def Watch.advance (watch : Watch) (action : Action) (s : Intents) : Watch :=
  let sent := (s.sent.drop watch.s.sent.length).filter (·.cause == .pump)
  { s
    owed := watch.owed.filter (fun id => !watch.s.answers action id) ++ watch.s.reopens action ++
      (sent.filter (!·.intent.delivered)).map (·.intent.command.id)
    out := watch.out.filter (fun id => !watch.s.renews action id) ++
      sent.map (·.intent.command.id) }

/-- A command whose record is as the pump left it. -/
structure Flying (s : Intents) (id : String) : Prop where
  record : ∃ intent, s.records.get? id = some intent ∧ intent.state = .pending ∧
    intent.delivered = false
  inFlight : id ∈ s.inFlight
  unanswered : id ∉ s.acknowledging
  released : s.heldBack id = false

theorem Flying.awaiting {s : Intents} {id : String} (flying : Flying s id)
    (connected : s.connected = true) : s.awaitingReceipt id = true := by
  obtain ⟨intent, found, pending, new⟩ := flying.record
  simp [Intents.awaitingReceipt, connected, found, pending, new, flying.inFlight,
    flying.unanswered, flying.released]

/-- Whether an operation can make its command pending again. -/
def Continuation.revives : Continuation → Bool
  | .enqueue _ => true
  | next => next.previous?.any (·.state == .pending)

/-- The receipt that an operation has recorded, unless a write fails yet. -/
def Running.answered? : Running → Option String
  | .writing _ (.acknowledge result _) => some result.commandId
  | .settled (.acknowledged id true) => some id
  | _ => none

structure Holds (s : Intents) (owed out : List String) : Prop where
  connected : s.connected = true
  flying : ∀ id ∈ owed, Flying s id
  once : ∀ id ∈ out, id ∈ s.inFlight ∨
    ∀ intent, s.records.get? id = some intent → intent.state ≠ .pending
  revived : ∀ writes next, s.running = some (.writing writes next) → next.revives = true →
    next.id ∈ out → next.id ∈ s.inFlight
  answered : ∀ running id, s.running = some running → running.answered? = some id → id ∈ out →
    ∀ intent, s.records.get? id = some intent → intent.state ≠ .pending

namespace Holds

variable {s : Intents} {owed out : List String}

theorem congr {s' : Intents} (holds : Holds s owed out) (records : s'.records = s.records)
    (running : s'.running = s.running) (acknowledging : s'.acknowledging = s.acknowledging)
    (retries : s'.retries = s.retries) (connected : s'.connected = s.connected)
    (inFlight : s'.inFlight = s.inFlight) : Holds s' owed out := by
  refine ⟨connected.trans holds.connected, fun id member => ?_, ?_, ?_, ?_⟩
  · obtain ⟨record, flies, unanswered, released⟩ := holds.flying id member
    refine ⟨records ▸ record, inFlight ▸ flies, acknowledging ▸ unanswered, ?_⟩
    simpa only [Intents.heldBack, retries] using released
  · rw [inFlight, records]
    exact holds.once
  · rw [running, inFlight]
    exact holds.revived
  · rw [running, records]
    exact holds.answered

theorem weaken {owed' out' : List String} (holds : Holds s owed out)
    (fewer : ∀ id ∈ owed', id ∈ owed) (fewer' : ∀ id ∈ out', id ∈ out) : Holds s owed' out' :=
  ⟨holds.connected, fun id member => holds.flying id (fewer id member),
    fun id member => holds.once id (fewer' id member),
    fun writes next running revives member => holds.revived writes next running revives
      (fewer' _ member),
    fun running id is_running receipt member => holds.answered running id is_running receipt
      (fewer' _ member)⟩

theorem shrink (holds : Holds s owed out) {left : Records} (shrinks : Shrinks s.records left) :
    Holds { s with records := left } owed out := by
  refine ⟨holds.connected, fun id member => ?_, fun id member => ?_, holds.revived,
    fun running id is_running receipt member intent found =>
      holds.answered running id is_running receipt member intent (shrinks.get? found)⟩
  · obtain ⟨⟨intent, found, pending, new⟩, flies, unanswered, released⟩ := holds.flying id member
    exact ⟨⟨intent, shrinks.keeps found pending, pending, new⟩, flies, unanswered, released⟩
  · rcases holds.once id member with flies | settled
    · exact .inl flies
    · exact .inr fun intent found => settled intent (shrinks.get? found)

theorem put (holds : Holds s owed out) {id : String} {intent : Intent}
    (flying : id ∈ owed → intent.state = .pending ∧ intent.delivered = false)
    (once : id ∈ out → intent.state = .pending → id ∈ s.inFlight)
    (answered : ∀ running, s.running = some running → running.answered? = some id → id ∈ out →
      intent.state ≠ .pending) : Holds (s.put id intent) owed out := by
  refine ⟨holds.connected, fun id' member => ?_, fun id' member => ?_, holds.revived, ?_⟩
  · obtain ⟨⟨old, found, pending, new⟩, flies, unanswered, released⟩ := holds.flying id' member
    refine ⟨?_, flies, unanswered, released⟩
    by_cases same : id = id'
    · subst same
      obtain ⟨pending, new⟩ := flying member
      exact ⟨intent, Registry.get?_set_self .., pending, new⟩
    · exact ⟨old, (Registry.get?_set_ne _ _ same).trans found, pending, new⟩
  · by_cases same : id = id'
    · subst same
      by_cases pending : intent.state = .pending
      · exact .inl (once member pending)
      · refine .inr fun other found => ?_
        rw [Intents.put, Registry.get?_set_self] at found
        cases found
        exact pending
    · rcases holds.once id' member with flies | settled
      · exact .inl flies
      · refine .inr fun other found => settled other ?_
        rw [Intents.put, Registry.get?_set_ne _ _ same] at found
        exact found
  · intro running id' is_running receipt member other found
    by_cases same : id = id'
    · subst same
      rw [Intents.put, Registry.get?_set_self] at found
      cases found
      exact answered running is_running receipt member
    · rw [Intents.put, Registry.get?_set_ne _ _ same] at found
      exact holds.answered running id' is_running receipt member other found

theorem put_settled (holds : Holds s owed out) {id : String} {intent : Intent}
    (before : ∀ old, s.records.get? id = some old → old.state ≠ .pending)
    (after : intent.state ≠ .pending) : Holds (s.put id intent) owed out := by
  refine holds.put (fun member => ?_) (fun _ pending => absurd pending after)
    (fun _ _ _ _ => after)
  obtain ⟨⟨old, found, pending, -⟩, -⟩ := holds.flying id member
  exact absurd pending (before old found)

theorem release (holds : Holds s owed out) {id : String} (unowed : id ∉ owed)
    (settled : id ∈ out → ∀ intent, s.records.get? id = some intent → intent.state ≠ .pending)
    (idle : ∀ writes next, s.running = some (.writing writes next) → next.revives = true →
      next.id = id → id ∉ out) :
    Holds { s with inFlight := removeFrom s.inFlight id } owed out := by
  refine ⟨holds.connected, fun id' member => ?_, fun id' member => ?_, ?_, holds.answered⟩
  · obtain ⟨record, flies, unanswered, released⟩ := holds.flying id' member
    refine ⟨record, mem_removeFrom.mpr ⟨flies, ?_⟩, unanswered, released⟩
    rintro rfl
    exact unowed member
  · by_cases same : id' = id
    · subst same
      exact .inr (settled member)
    · rcases holds.once id' member with flies | settled'
      · exact .inl (mem_removeFrom.mpr ⟨flies, same⟩)
      · exact .inr settled'
  · intro writes next running revives member
    refine mem_removeFrom.mpr ⟨holds.revived writes next running revives member, ?_⟩
    rintro same
    exact idle writes next running revives same (same ▸ member)

theorem retries (holds : Holds s owed out) {retries : Registry Retry}
    (off : ∀ id ∈ owed, (retries.get? id).any (·.cancel) = false) :
    Holds { s with retries } owed out := by
  refine ⟨holds.connected, fun id member => ?_, holds.once, holds.revived, holds.answered⟩
  obtain ⟨record, flies, unanswered, -⟩ := holds.flying id member
  exact ⟨record, flies, unanswered, off id member⟩

theorem cancelRetry (holds : Holds s owed out) (id : String) :
    Holds (s.cancelRetry id) owed out := by
  refine holds.retries fun id' member => ?_
  rw [Registry.get?_delete]
  split
  · rfl
  · exact (holds.flying id' member).released

theorem runs (holds : Holds s owed out) {running : Option Running}
    (revived : ∀ writes next, running = some (.writing writes next) → next.revives = true →
      next.id ∈ out → next.id ∈ s.inFlight)
    (answered : ∀ running' id, running = some running' → running'.answered? = some id → id ∈ out →
      ∀ intent, s.records.get? id = some intent → intent.state ≠ .pending) :
    Holds { s with running } owed out := by
  refine ⟨holds.connected, fun id member => ?_, holds.once, revived, answered⟩
  obtain ⟨record, flies, unanswered, released⟩ := holds.flying id member
  exact ⟨record, flies, unanswered, released⟩

theorem settle (holds : Holds s owed out) {handler : Handler}
    (answered : ∀ id, handler = .acknowledged id true → id ∈ out →
      ∀ intent, s.records.get? id = some intent → intent.state ≠ .pending) :
    Holds (s.settle handler) owed out := by
  refine holds.runs (by simp) ?_
  intro running id same receipt
  cases same
  cases handler with
  | acknowledged id' saved =>
    cases saved with
    | true =>
      cases receipt
      exact answered id rfl
    | false => simp [Running.answered?] at receipt
  | _ => simp [Running.answered?] at receipt

theorem idle (holds : Holds s owed out) : Holds { s with running := none } owed out :=
  holds.runs (by simp) (by simp)

theorem mark (holds : Holds s owed out) {id : String} (unowed : id ∉ owed) :
    Holds { s with acknowledging := addTo s.acknowledging id } owed out := by
  refine ⟨holds.connected, fun id' member => ?_, holds.once, holds.revived, holds.answered⟩
  obtain ⟨record, flies, unanswered, released⟩ := holds.flying id' member
  refine ⟨record, flies, ?_, released⟩
  rw [mem_addTo, not_or]
  refine ⟨unanswered, ?_⟩
  rintro rfl
  exact unowed member

theorem unmark (holds : Holds s owed out) (id : String) :
    Holds { s with acknowledging := removeFrom s.acknowledging id } owed out := by
  refine ⟨holds.connected, fun id' member => ?_, holds.once, holds.revived, holds.answered⟩
  obtain ⟨record, flies, unanswered, released⟩ := holds.flying id' member
  exact ⟨record, flies, fun marked => unanswered (mem_removeFrom.mp marked).1, released⟩

theorem serialize (holds : Holds s owed out) (o : Options) (operation : Operation)
    (handler : Handler) : Holds (s.serialize o operation handler) owed out := by
  unfold Intents.serialize
  split
  · exact holds.congr rfl rfl rfl rfl rfl rfl
  · exact holds.congr rfl rfl rfl rfl rfl rfl

theorem pumped (holds : Holds s owed out) {s' : Intents}
    (keyed : ∀ id intent, s.records.get? id = some intent → intent.command.id = id)
    (marked : ∀ running id, s.running = some running → running.answered? = some id →
      id ∈ s.acknowledging)
    {fenced : Option (List String)} {sent : List Intent}
    (pumped : Intents.Pumped s s' fenced sent) :
    Holds s' (owed ++ (sent.filter (!·.delivered)).map (·.command.id))
      (out ++ sent.map (·.command.id)) := by
  have found : ∀ intent ∈ sent, s.records.get? intent.command.id = some intent := by
    intro intent member
    obtain ⟨listed, -⟩ := pumped.free intent member
    obtain ⟨⟨id, other⟩, entry, rfl⟩ := List.mem_map.mp listed
    have found := (s.records.mem_entries_iff id other).mp entry
    rw [keyed id other found]
    exact found
  rw [pumped.is]
  refine ⟨holds.connected, fun id member => ?_, fun id member => ?_, ?_, ?_⟩
  · rcases List.mem_append.mp member with old | new
    · obtain ⟨record, flies, unanswered, released⟩ := holds.flying id old
      exact ⟨record, List.mem_append_left _ flies, unanswered, released⟩
    · obtain ⟨intent, member', rfl⟩ := List.mem_map.mp new
      obtain ⟨member', fresh⟩ := List.mem_filter.mp member'
      obtain ⟨-, free, -⟩ := pumped.free intent member'
      exact ⟨⟨intent, found intent member', free.pending, by simpa using fresh⟩,
        List.mem_append_right _ (List.mem_map.mpr ⟨intent, member', rfl⟩), free.unanswered,
        free.released⟩
  · rcases List.mem_append.mp member with old | new
    · rcases holds.once id old with flies | settled
      · exact .inl (List.mem_append_left _ flies)
      · exact .inr settled
    · exact .inl (List.mem_append_right _ new)
  · intro writes next running revives member
    rcases List.mem_append.mp member with old | new
    · exact List.mem_append_left _ (holds.revived writes next running revives old)
    · exact List.mem_append_right _ new
  · intro running id is_running receipt member
    rcases List.mem_append.mp member with old | new
    · exact holds.answered running id is_running receipt old
    · -- a command whose receipt is being saved is not sent
      obtain ⟨intent, member', rfl⟩ := List.mem_map.mp new
      exact absurd (marked running _ is_running receipt) (pumped.free intent member').2.1.unanswered

end Holds

/-! ### What each action does before the pump -/

namespace Holds

variable {s : Intents} {owed out : List String} (o : Options)

theorem remove (holds : Holds s owed out) {id : String}
    (settled : ∀ intent, s.records.get? id = some intent → intent.state ≠ .pending) :
    Holds (s.remove id) owed out :=
  holds.shrink (.delete settled)

theorem enqueue (holds : Holds s owed out) (coherent : Coherent s) (id : String)
    (payload : Value) : Holds (s.enqueue o id payload) owed out := by
  unfold Intents.enqueue
  simp only
  split
  · exact holds
  · split
    · exact holds
    · split
      next unsaved =>
        have settled : ∀ intent, s.records.get? id = some intent → intent.state ≠ .pending := by
          intro intent found pending
          have is_local : intent.localFailure = true := by simpa [found] using unsaved
          rw [coherent.remote id intent found pending] at is_local
          cases is_local
        have removed : Holds (if (s.records.get? id).isSome then s.remove id else s) owed out ∧
            (if (s.records.get? id).isSome then s.remove id else s).records.get? id = none := by
          split
          · exact ⟨holds.remove settled, Registry.get?_delete_self ..⟩
          next absent => exact ⟨holds, by simpa using absent⟩
        generalize (if (s.records.get? id).isSome then s.remove id else s) = s₀ at removed ⊢
        obtain ⟨removed, absent⟩ := removed
        have saving := @put_settled s₀ owed out removed id
          { command := { id, deviceId := o.device, payload }, state := .saving }
          (by simp [absent]) (by simp)
        have bounded := saving.shrink (evict_shrinks o (s₀.put id
          { command := { id, deviceId := o.device, payload }, state := .saving }).records (some id))
        have kept := evict_keeps o (s₀.put id
          { command := { id, deviceId := o.device, payload }, state := .saving }).records id
        split
        next left error is_evicted =>
          rw [is_evicted] at bounded kept
          refine bounded.remove ?_
          intro intent found
          rw [kept, Intents.put, Registry.get?_set_self] at found
          cases found
          simp
        next left evicted is_evicted =>
          rw [is_evicted] at bounded
          apply Holds.serialize
          exact bounded.congr rfl rfl rfl rfl rfl rfl
      next =>
        apply Holds.serialize
        exact holds.congr rfl rfl rfl rfl rfl rfl

theorem acknowledge (holds : Holds s owed out) {result : CommandResult}
    (unowed : result.commandId ∉ owed) : Holds (s.acknowledge o result) owed out := by
  have calm := holds.cancelRetry result.commandId
  unfold Intents.acknowledge
  simp only
  split
  · exact calm
  · apply Holds.serialize
    exact calm.mark unowed

theorem waiting (holds : Holds s owed out) (id : String) : Holds (s.waiting id) owed out := by
  unfold Intents.waiting
  split
  · exact holds
  next previous found =>
    split
    · exact holds
    next pending =>
      simp only [bne_iff_ne, ne_eq, Bool.or_eq_true, not_or, not_not, Bool.not_eq_true] at pending
      refine holds.put (fun member => ?_) (fun member _ => ?_) (fun running is_running receipt
        member => holds.answered running id is_running receipt member previous found)
      · obtain ⟨⟨other, found', pending', new⟩, -⟩ := holds.flying id member
        rw [found] at found'
        cases found'
        exact ⟨pending', new⟩
      · rcases holds.once id member with flies | settled
        · exact flies
        · exact absurd pending.1 (settled previous found)

theorem undo (holds : Holds s owed out) {previous : Intent}
    (unowed : previous.command.id ∉ owed) (renewed : previous.command.id ∉ out) :
    Holds (s.undo o previous) owed out := by
  unfold Intents.undo
  simp only
  split
  · exact holds
  next back =>
    simp only [Bool.or_eq_true, Bool.not_eq_true', decide_eq_true_eq, not_or, Bool.not_eq_false,
      List.contains_iff_mem, ne_eq, not_not] at back
    apply Holds.serialize
    have restored : Holds (s.put previous.command.id previous) owed out :=
      holds.put (fun member => absurd member unowed) (fun member => absurd member renewed)
        (fun _ _ _ member => absurd member renewed)
    exact restored.release unowed (fun member => absurd member renewed)
      (fun _ _ _ _ _ => renewed)

theorem reopen (holds : Holds s owed out) {id : String} (renewed : id ∉ out) :
    Holds (s.reopen o id) (owed ++ s.reopens (.reopen id)) out := by
  have none_reopened : s.reopens (.reopen id) = [] → Holds s (owed ++ s.reopens (.reopen id)) out := by
    intro same
    rw [same, List.append_nil]
    exact holds
  unfold Intents.reopen
  split
  next absent => exact none_reopened (by simp [Intents.reopens, absent])
  next previous found =>
    split
    next refused =>
      refine none_reopened ?_
      simp only [Intents.reopens, found, Option.any_some]
      rw [if_neg]
      simp only [bne_iff_ne, ne_eq, Bool.or_eq_true] at refused
      simp only [Bool.and_eq_true, beq_iff_eq, Bool.not_eq_true', not_and]
      rintro ⟨⟨⟨failed, is_remote⟩, -⟩, -⟩
      rcases refused with other | is_local
      · exact absurd failed other
      · rw [is_remote] at is_local
        cases is_local
    next reopened =>
      simp only [bne_iff_ne, ne_eq, Bool.or_eq_true, not_or, not_not, Bool.not_eq_true] at reopened
      obtain ⟨failed, is_remote⟩ := reopened
      have unowed : id ∉ owed := by
        intro member
        obtain ⟨⟨other, found', pending, -⟩, -⟩ := holds.flying id member
        rw [found] at found'
        cases found'
        rw [failed] at pending
        cases pending
      have pending : Holds (s.put id (Intents.reopened previous)) owed out :=
        holds.put (fun member => absurd member unowed) (fun member => absurd member renewed)
          (fun _ _ _ member => absurd member renewed)
      apply Holds.serialize
      refine ⟨pending.connected, fun id' member => ?_, fun id' member => ?_, ?_, pending.answered⟩
      · rcases List.mem_append.mp member with old | new
        · obtain ⟨record, flies, unanswered, released⟩ := pending.flying id' old
          exact ⟨record, mem_addTo.mpr (.inl flies), unanswered, released⟩
        · simp only [Intents.reopens, found, Option.any_some] at new
          split at new
          next fresh =>
            rw [List.mem_singleton] at new
            subst new
            simp only [Bool.and_eq_true, Bool.not_eq_true', List.contains_eq_mem,
              decide_eq_false_iff_not] at fresh
            obtain ⟨⟨⟨-, undelivered⟩, unanswered⟩, released⟩ := fresh
            exact ⟨⟨_, Registry.get?_set_self .., rfl, undelivered⟩, mem_addTo.mpr (.inr rfl),
              unanswered, released⟩
          next => cases new
      · rcases pending.once id' member with flies | settled
        · exact .inl (mem_addTo.mpr (.inl flies))
        · exact .inr settled
      · intro writes next running revives member
        exact mem_addTo.mpr (.inl (pending.revived writes next running revives member))

end Holds

/-- How a step ends: as it was prepared, or with the pump. -/
inductive Ends (s₁ s' : Intents) : Prop where
  | still (same : s' = s₁)
  | pumps (fenced : Option (List String)) (sent : List Intent)
      (pumped : Intents.Pumped s₁ s' fenced sent)

/-- What a step does before the pump: nothing new is sent, and the fence stays. -/
structure Prepares (s s' : Intents) (owed out : List String) (s₁ : Intents) : Prop where
  holds : Holds s₁ owed out
  sent : ∃ extra, s₁.sent = s.sent ++ extra ∧ ∀ sending ∈ extra, sending.cause = .again ∧
    (sending.intent.state = .acked ∨ sending.intent.state = .failed)
  fenced : s₁.fenced = s.fenced
  ends : Ends s₁ s'

section

variable {s : Intents} {owed out : List String} (o : Options)

theorem ends_pump (s : Intents) : Ends s s.pump := by
  obtain ⟨fenced, sent, pumped⟩ := s.pump_spec
  exact .pumps fenced sent pumped

theorem ends_pump_settle (s : Intents) (handler : Handler) :
    Ends (s.settle handler) (s.pump.settle handler) := by
  obtain ⟨fenced, sent, pumped⟩ := s.pump_spec
  refine .pumps fenced sent ⟨?_, ?_, pumped.nodup, pumped.held⟩
  · rw [pumped.is]
    rfl
  · intro intent member
    obtain ⟨listed, free, idle⟩ := pumped.free intent member
    exact ⟨listed, ⟨free.pending, free.saved, free.unanswered, free.released⟩, idle⟩

theorem prepares_still {s' : Intents} (holds : Holds s' owed out) (sent : s'.sent = s.sent)
    (fenced : s'.fenced = s.fenced) : ∃ s₁, Prepares s s' owed out s₁ :=
  ⟨s', holds, ⟨[], by simp [sent], by simp⟩, fenced, .still rfl⟩

theorem prepares_pump {s₁ s' : Intents} (holds : Holds s₁ owed out) (sent : s₁.sent = s.sent)
    (fenced : s₁.fenced = s.fenced) (ends : Ends s₁ s') : ∃ s₁, Prepares s s' owed out s₁ :=
  ⟨s₁, holds, ⟨[], by simp [sent], by simp⟩, fenced, ends⟩

theorem prepares_startEnqueue (holds : Holds s owed out) {command : Command}
    (renewed : (s.records.get? command.id).filter (·.state != .saving) = none →
      command.id ∉ out) (evictedBefore : List String) :
    ∃ s₁, Prepares s (s.startEnqueue o command evictedBefore) owed out s₁ := by
  unfold Intents.startEnqueue
  simp only
  split
  · exact prepares_still (holds.settle (by simp)) rfl rfl
  · split
    next stored found =>
      obtain ⟨-, saved⟩ := Option.filter_eq_some_iff.mp found
      split
      · exact prepares_pump (holds.settle (by simp)) rfl rfl (ends_pump_settle s _)
      next other =>
        have answered : stored.state = .acked ∨ stored.state = .failed := by
          cases is_state : stored.state <;> simp_all
        split
        · refine ⟨(s.send stored .again).settle (.enqueued command none), ?_,
            ⟨[⟨stored, .again⟩], rfl, by simpa using answered⟩, rfl, .still rfl⟩
          apply Holds.settle _ (by simp)
          exact holds.congr rfl rfl rfl rfl rfl rfl
        · exact prepares_still (holds.settle (by simp)) rfl rfl
    next unsaved =>
      have renewed := renewed unsaved
      split
      · exact prepares_still (holds.settle (by simp)) rfl rfl
      · have bounded := holds.shrink (evict_shrinks o s.records (some command.id))
        split
        next left error is_evicted =>
          rw [is_evicted] at bounded
          refine prepares_still ?_ rfl rfl
          apply Holds.settle _ (by simp)
          exact bounded.congr rfl rfl rfl rfl rfl rfl
        next left evicted is_evicted =>
          rw [is_evicted] at bounded
          refine prepares_still ?_ rfl rfl
          have calm : Holds { s with
              records := left
              sequence := s.sequence + 1
              saving := addTo s.saving command.id } owed out :=
            bounded.congr rfl rfl rfl rfl rfl rfl
          refine calm.runs ?_ ?_
          · intro writes next same _ member
            cases same
            exact absurd member renewed
          · intro running id same receipt
            cases same
            simp [Running.answered?] at receipt

theorem prepares_startRewrite (holds : Holds s owed out) (id : String) (payload : Value) :
    ∃ s₁, Prepares s (s.startRewrite o id payload) owed out s₁ := by
  unfold Intents.startRewrite
  split
  · exact prepares_still (holds.settle (by simp)) rfl rfl
  next previous found =>
    obtain ⟨found, failed⟩ := Option.filter_eq_some_iff.mp found
    simp only [beq_iff_eq] at failed
    simp only
    split
    · exact prepares_still (holds.settle (by simp)) rfl rfl
    · refine prepares_still ?_ rfl rfl
      have rewritten : Holds (s.put id (Intents.rewritten previous payload)) owed out := by
        refine holds.put_settled ?_ ?_
        · intro old same
          rw [found] at same
          cases same
          simp [failed]
        · simp [Intents.rewritten, failed]
      refine rewritten.runs ?_ ?_
      · intro writes next same revives
        cases same
        simp [Continuation.revives, Continuation.previous?, failed] at revives
      · intro running id same receipt
        cases same
        simp [Running.answered?] at receipt

theorem answered_settled (previous : Intent) (result : CommandResult) :
    (Intents.answered previous result).state ≠ .pending := by
  unfold Intents.answered
  split
  · simp only
    split <;> simp
  next other => exact other

theorem Holds.flies (holds : Holds s owed out) {id : String} {previous : Intent}
    (found : s.records.get? id = some previous) (pending : previous.state = .pending)
    (member : id ∈ out) : id ∈ s.inFlight := by
  rcases holds.once id member with flies | settled
  · exact flies
  · exact absurd pending (settled previous found)

theorem Holds.write_back (holds : Holds s owed out) {previous : Intent} {writes : List Write}
    {next : Continuation} (is_previous : next.previous? = some previous)
    (flies : previous.state = .pending → next.id ∈ out → next.id ∈ s.inFlight)
    (answered : ∀ id, (Running.writing writes next).answered? = some id → id ∈ out →
      ∀ intent, s.records.get? id = some intent → intent.state ≠ .pending) :
    Holds (s.write writes next) owed out := by
  refine holds.runs ?_ ?_
  · intro writes' next' same revives
    cases same
    apply flies
    cases next <;> simp_all [Continuation.revives, Continuation.previous?]
  · intro running id same
    cases same
    exact answered id

theorem prepares_startAcknowledge (holds : Holds s owed out) (idle : s.running = none)
    {result : CommandResult} (marked : result.commandId ∈ s.acknowledging) :
    ∃ s₁, Prepares s (s.startAcknowledge o result) owed out s₁ := by
  unfold Intents.startAcknowledge
  simp only
  split
  next absent =>
    refine prepares_still (holds.settle ?_) rfl rfl
    rintro id same
    cases same
    simp [absent]
  next previous found =>
    have unowed : result.commandId ∉ owed := fun member =>
      (holds.flying _ member).unanswered marked
    have no_receipt : ∀ running, s.running = some running → running.answered? =
        some result.commandId → result.commandId ∈ out → False := by
      simp [idle]
    have next : Holds (s.put result.commandId (Intents.answered previous result)) owed out :=
      holds.put (fun member => absurd member unowed)
        (fun _ pending => absurd pending (answered_settled previous result))
        (fun running is_running receipt member =>
          (no_receipt running is_running receipt member).elim)
    have bounded := next.shrink (evict_shrinks o _ (some result.commandId))
    have kept := evict_keeps o (s.put result.commandId (Intents.answered previous result)).records
      result.commandId
    rw [Intents.put, Registry.get?_set_self] at kept
    split
    next left error is_evicted =>
      rw [is_evicted] at bounded
      refine prepares_still ?_ rfl rfl
      refine Holds.settle ?_ (by simp)
      refine bounded.put (fun member => absurd member unowed)
        (fun member pending => holds.flies found pending member) ?_
      intro running is_running receipt member
      exact (no_receipt running is_running receipt member).elim
    next left evicted is_evicted =>
      rw [is_evicted] at bounded
      refine prepares_still ?_ rfl rfl
      refine bounded.write_back rfl (fun pending member => holds.flies found pending member) ?_
      intro id same _ intent found'
      cases same
      have is_next := kept.symm.trans ((congrArg (fun evicted => evicted.1.get? result.commandId)
        is_evicted).trans found')
      cases is_next
      exact answered_settled previous result

theorem prepares_startDeliveryFailed (holds : Holds s owed out) (coherent : Coherent s)
    {id : String} (unowed : id ∉ owed) (error : String) :
    ∃ s₁, Prepares s (s.startDeliveryFailed o id error) owed out s₁ := by
  unfold Intents.startDeliveryFailed
  split
  · exact prepares_still (holds.settle (by simp)) rfl rfl
  next previous found =>
    obtain ⟨found, -⟩ := Option.filter_eq_some_iff.mp found
    have parked : (Intents.undelivered previous error).Parked :=
      ⟨by simp [Intents.undelivered], fun _ => rfl⟩
    have failed : Holds (s.put id (Intents.undelivered previous error)) owed out :=
      holds.put (fun member => absurd member unowed) (fun _ pending => absurd pending parked.1)
        (fun _ _ _ _ => parked.1)
    have coherent' : Coherent (s.put id (Intents.undelivered previous error)) :=
      coherent.put_parked (coherent.keyed id previous found) parked
    have bounded := failed.shrink ((coherent'.trimFailed_shrinks o id).trans
      (evict_shrinks o (trimFailed o _ id).1 (some id)))
    have kept : (evict o (trimFailed o (s.put id (Intents.undelivered previous error)).records
        id).1 (some id)).1.get? id = some (Intents.undelivered previous error) := by
      rw [evict_keeps, Coherent.trimFailed_keeps, Intents.put, Registry.get?_set_self]
    simp only
    split
    next left error' is_evicted =>
      rw [is_evicted] at bounded kept
      refine prepares_still ?_ rfl rfl
      refine Holds.write_back (bounded.remove ?_) rfl
        (fun pending member => holds.flies found pending member) (by simp [Running.answered?])
      intro intent same
      rw [kept] at same
      cases same
      exact parked.1
    next left evicted is_evicted =>
      rw [is_evicted] at bounded
      refine prepares_still ?_ rfl rfl
      exact bounded.write_back rfl (fun pending member => holds.flies found pending member)
        (by simp [Running.answered?])

theorem prepares_startObserve (holds : Holds s owed out) (idle : s.running = none) {id : String}
    (unowed : id ∉ owed) (acknowledged : Bool) :
    ∃ s₁, Prepares s (s.startObserve id acknowledged) owed out s₁ := by
  unfold Intents.startObserve
  split
  · exact prepares_still (holds.settle (by simp)) rfl rfl
  next previous found =>
    obtain ⟨found, -⟩ := Option.filter_eq_some_iff.mp found
    simp only
    refine prepares_still ?_ rfl rfl
    have next : Holds (s.put id (Intents.delivered previous acknowledged)) owed out := by
      refine holds.put (fun member => absurd member unowed) (fun member pending => ?_)
        (by simp [idle])
      refine holds.flies found ?_ member
      unfold Intents.delivered at pending
      split at pending
      · cases pending
      · exact pending
    exact next.write_back rfl (fun pending member => holds.flies found pending member)
      (by simp [Running.answered?])

theorem prepares_start (holds : Holds s owed out) (coherent : Coherent s) (idle : s.running = none)
    {operation : Operation}
    (renewed : ∀ command evictedBefore, operation = .enqueue command evictedBefore →
      (s.records.get? command.id).filter (·.state != .saving) = none → command.id ∉ out)
    (marked : ∀ id, operation.receipt? = some id → id ∈ s.acknowledging)
    (unowed : ∀ id, (∃ error, operation = .deliveryFailed id error) ∨
      (∃ acknowledged, operation = .observe id acknowledged) → id ∉ owed) :
    ∃ s₁, Prepares s (s.start o operation) owed out s₁ := by
  cases operation with
  | enqueue command evictedBefore =>
    exact prepares_startEnqueue o holds (renewed command evictedBefore rfl) evictedBefore
  | rewrite id payload => exact prepares_startRewrite o holds id payload
  | acknowledge result => exact prepares_startAcknowledge o holds idle (marked _ rfl)
  | save intent =>
    refine prepares_still (holds.runs ?_ ?_) rfl rfl
    · intro writes next same revives
      cases same
      simp [Continuation.revives, Continuation.previous?] at revives
    · intro running id same receipt
      cases same
      simp [Running.answered?] at receipt
  | deliveryFailed id error =>
    exact prepares_startDeliveryFailed o holds coherent (unowed id (.inl ⟨error, rfl⟩)) error
  | observe id acknowledged =>
    exact prepares_startObserve holds idle (unowed id (.inr ⟨acknowledged, rfl⟩)) acknowledged

theorem Holds.release_parked (holds : Holds s owed out) {id : String} (parked : s.Parked id) :
    Holds ((({ s with inFlight := removeFrom s.inFlight id } : Intents).cancelRetry id).settle .none)
      owed out := by
  have unowed : id ∉ owed := by
    intro member
    obtain ⟨⟨intent, found, pending, -⟩, -⟩ := holds.flying id member
    exact absurd pending (parked intent found).1
  have ended : Holds (s.settle .none) owed out := holds.settle (by simp)
  have released : Holds { s.settle .none with inFlight := removeFrom s.inFlight id } owed out := by
    refine ended.release unowed (fun _ intent found => (parked intent found).1) ?_
    intro writes next running
    exact absurd running (Coherent.not_writing_settled rfl writes next)
  exact released.cancelRetry id

theorem prepares_resume (holds : Holds s owed out) (coherent : Coherent s) {next : Continuation}
    (running : s.running = some (.writing [] next)) :
    ∃ s₁, Prepares s (s.resume next) owed out s₁ := by
  have waits := coherent.waits [] next running
  cases next with
  | enqueue intent =>
    obtain ⟨-, -, new, -⟩ := waits.fresh intent rfl
    have pending := (waits.fresh intent rfl).1
    have calm : Holds { s with saving := removeFrom s.saving intent.command.id } owed out :=
      holds.congr rfl rfl rfl rfl rfl rfl
    have saved : Holds ({ s with saving := removeFrom s.saving intent.command.id }.put
        intent.command.id intent) owed out := by
      refine calm.put (fun _ => ⟨pending, new⟩)
        (fun member _ => holds.revived [] _ running rfl member) ?_
      intro running' is_running receipt
      cases running.symm.trans is_running
      simp [Running.answered?] at receipt
    simp only [Intents.resume]
    refine prepares_pump (saved.settle (by simp)) ?_ ?_ (ends_pump_settle _ _)
    · rfl
    · rfl
  | rewrite id previous => exact prepares_still (holds.settle (by simp)) rfl rfl
  | save id => exact prepares_still (holds.settle (by simp)) rfl rfl
  | acknowledge result previous =>
    refine prepares_still (holds.settle ?_) rfl rfl
    intro id same member
    cases same
    exact holds.answered _ _ running rfl member
  | deliveryFailed id previous =>
    simp only [Intents.resume]
    exact prepares_pump (holds.release_parked (waits.parked rfl)) rfl rfl
      (ends_pump_settle (({ s with inFlight := removeFrom s.inFlight id } : Intents).cancelRetry id)
        .none)
  | observe id acknowledged previous =>
    simp only [Intents.resume]
    split
    next seen =>
      exact prepares_pump (holds.release_parked (waits.parked seen)) rfl rfl
        (ends_pump_settle (({ s with inFlight := removeFrom s.inFlight id } : Intents).cancelRetry id)
          .none)
    next =>
      split
      · exact prepares_pump (holds.settle (by simp)) rfl rfl (ends_pump_settle _ _)
      · exact prepares_still (holds.settle (by simp)) rfl rfl

theorem Holds.put_back (holds : Holds s owed out) {writes : List Write} {next : Continuation}
    (running : s.running = some (.writing writes next)) (unowed : next.id ∉ owed)
    {previous : Intent} (is_previous : next.previous? = some previous) {handler : Handler}
    (unsaved : ∀ id, handler ≠ .acknowledged id true) :
    Holds ((s.put next.id previous).settle handler) owed out := by
  have ended : Holds (s.settle handler) owed out :=
    holds.settle fun id same => absurd same (unsaved id)
  refine ended.put (fun member => absurd member unowed) (fun member pending => ?_) ?_
  · refine holds.revived writes next running ?_ member
    cases next <;> simp_all [Continuation.revives, Continuation.previous?]
  · intro running' is_running receipt
    cases is_running
    cases handler with
    | acknowledged id saved =>
      cases saved with
      | true => exact absurd rfl (unsaved id)
      | false => simp [Running.answered?] at receipt
    | _ => simp [Running.answered?] at receipt

theorem prepares_restore (holds : Holds s owed out) {writes : List Write} {next : Continuation}
    (running : s.running = some (.writing writes next)) (unowed : next.id ∉ owed) :
    ∃ s₁, Prepares s (s.restore next) owed out s₁ := by
  cases next with
  | enqueue intent =>
    refine prepares_still ?_ rfl rfl
    apply Holds.settle _ (by simp)
    exact holds.congr rfl rfl rfl rfl rfl rfl
  | save id => exact prepares_still (holds.settle (by simp)) rfl rfl
  | rewrite id previous =>
    exact prepares_still (holds.put_back running unowed rfl (by simp)) rfl rfl
  | deliveryFailed id previous =>
    exact prepares_still (holds.put_back running unowed rfl (by simp)) rfl rfl
  | observe id acknowledged previous =>
    exact prepares_still (holds.put_back running unowed rfl (by simp)) rfl rfl
  | acknowledge result previous =>
    exact prepares_still (holds.put_back running unowed rfl (by simp)) rfl rfl

theorem Holds.keepFailed (holds : Holds s owed out) (coherent : Coherent s) (command : Command)
    (error : String) : Holds (s.keepFailed o command error) owed out := by
  unfold Intents.keepFailed
  simp only
  split
  next saving =>
    have parked : ({ command, state := .failed, localFailure := true, error := some error } :
        Intent).Parked := ⟨by simp, fun _ => rfl⟩
    have before : ∀ old, s.records.get? command.id = some old → old.state ≠ .pending := by
      intro old found pending
      simp [found, pending] at saving
    have failed := holds.put_settled before parked.1
    have coherent' := @Coherent.put_parked s coherent command.id
      { command, state := .failed, localFailure := true, error := some error } rfl parked
    have bounded := failed.shrink
      ((coherent'.trimFailed_shrinks o command.id).trans (evict_shrinks o _ (some command.id)))
    have kept := evict_keeps o (trimFailed o (s.put command.id
      { command, state := .failed, localFailure := true, error := some error }).records
        command.id).1 command.id
    rw [Coherent.trimFailed_keeps, Intents.put, Registry.get?_set_self] at kept
    split
    next left evicted is_evicted =>
      rw [is_evicted] at bounded
      exact bounded
    next left error' is_evicted =>
      rw [is_evicted] at bounded
      apply bounded.remove
      intro intent found
      have same := kept.symm.trans ((congrArg (fun evicted => evicted.1.get? command.id)
        is_evicted).trans found)
      cases same
      exact parked.1
  next => exact holds

theorem keepFailed_frame (command : Command) (error : String) :
    (s.keepFailed o command error).sent = s.sent ∧
      (s.keepFailed o command error).fenced = s.fenced := by
  unfold Intents.keepFailed
  simp only
  split
  · split <;> exact ⟨rfl, rfl⟩
  · exact ⟨rfl, rfl⟩

theorem prepares_handle (holds : Holds s owed out) (coherent : Coherent s) {handler : Handler}
    (answered : ∀ id, handler = .acknowledged id true → id ∉ owed ∧ s.running = none ∧ (id ∈ out →
      ∀ intent, s.records.get? id = some intent → intent.state ≠ .pending)) :
    ∃ s₁, Prepares s (s.handle o handler) owed out s₁ := by
  cases handler with
  | none => exact prepares_still holds rfl rfl
  | enqueued command error =>
    cases error with
    | none =>
      refine prepares_still ?_ rfl rfl
      exact holds.congr rfl rfl rfl rfl rfl rfl
    | some error =>
      obtain ⟨sent, fenced⟩ := keepFailed_frame (s := s) o command error
      refine prepares_still ?_ sent fenced
      exact (holds.keepFailed o coherent command error).congr rfl rfl rfl rfl rfl rfl
  | acknowledged id saved =>
    have unmarked := holds.unmark id
    cases saved with
    | false => exact prepares_still unmarked rfl rfl
    | true =>
      obtain ⟨unowed, idle, settled⟩ := answered id rfl
      have released := unmarked.release unowed settled fun writes next running =>
        absurd running (Coherent.not_writing idle writes next)
      refine prepares_pump (released.cancelRetry id) ?_ ?_ (ends_pump _)
      · rfl
      · rfl

end

/-! ### Calls send nothing -/

def Still (s s' : Intents) : Prop := s'.sent = s.sent ∧ s'.fenced = s.fenced

section

variable (s : Intents) (o : Options)

theorem still_serialize (operation : Operation) (handler : Handler) :
    Still s (s.serialize o operation handler) := by
  unfold Intents.serialize
  split <;> exact ⟨rfl, rfl⟩

theorem still_enqueue (id : String) (payload : Value) : Still s (s.enqueue o id payload) := by
  unfold Intents.enqueue
  simp only
  split
  · exact ⟨rfl, rfl⟩
  · split
    · exact ⟨rfl, rfl⟩
    · split
      · have removed : Still s (if (s.records.get? id).isSome then s.remove id else s) := by
          split <;> exact ⟨rfl, rfl⟩
        generalize (if (s.records.get? id).isSome then s.remove id else s) = s₀ at removed ⊢
        split
        · exact removed
        · obtain ⟨sent, fenced⟩ := still_serialize _ o _ _
          exact ⟨sent.trans removed.1, fenced.trans removed.2⟩
      · exact still_serialize _ o _ _

theorem still_acknowledge (result : CommandResult) : Still s (s.acknowledge o result) := by
  unfold Intents.acknowledge
  simp only
  split
  · exact ⟨rfl, rfl⟩
  · exact still_serialize _ o _ _

theorem still_reopen (id : String) : Still s (s.reopen o id) := by
  unfold Intents.reopen
  split
  · exact ⟨rfl, rfl⟩
  · split
    · exact ⟨rfl, rfl⟩
    · exact still_serialize _ o _ _

theorem still_undo (previous : Intent) : Still s (s.undo o previous) := by
  unfold Intents.undo
  simp only
  split
  · exact ⟨rfl, rfl⟩
  · exact still_serialize _ o _ _

theorem still_waiting (id : String) : Still s (s.waiting id) := by
  unfold Intents.waiting
  split
  · exact ⟨rfl, rfl⟩
  · split <;> exact ⟨rfl, rfl⟩

end

theorem prepares_from {s s₀ s' : Intents} {owed out : List String}
    (prepares : ∃ s₁, Prepares s₀ s' owed out s₁) (still : Still s s₀) :
    ∃ s₁, Prepares s s' owed out s₁ := by
  obtain ⟨s₁, holds, ⟨extra, sent, again⟩, fenced, ends⟩ := prepares
  exact ⟨s₁, holds, ⟨extra, by rw [sent, still.1], again⟩, fenced.trans still.2, ends⟩

/-! ### Steps of a watched outbox -/

/-- An action that neither changes the connection nor touches the fence. -/
def Action.isPlain : Action → Bool
  | .fence | .reask _ | .replay | .disconnect => false
  | _ => true

theorem prepares_step (o : Options) {watch : Watch} (coherent : Coherent watch.s)
    (holds : Holds watch.s watch.owed watch.out) {action : Action} (plain : action.isPlain = true)
    {s' : Intents} (steps : watch.s.step o action = some s') :
    ∃ s₁, Prepares watch.s s'
      (watch.owed.filter (fun id => !watch.s.answers action id) ++ watch.s.reopens action)
      (watch.out.filter fun id => !watch.s.renews action id) s₁ := by
  obtain ⟨s, owed, out⟩ := watch
  simp only at coherent holds steps ⊢
  have base : Holds s (owed.filter fun id => !s.answers action id)
      (out.filter fun id => !s.renews action id) :=
    holds.weaken (fun id member => (List.mem_filter.mp member).1)
      fun id member => (List.mem_filter.mp member).1
  have unowed : ∀ id, s.answers action id = true →
      id ∉ owed.filter fun id => !s.answers action id := by
    intro id answered member
    simp [answered] at member
  have unsent : ∀ id, s.renews action id = true →
      id ∉ out.filter fun id => !s.renews action id := by
    intro id renewed member
    simp [renewed] at member
  generalize is_owed : (owed.filter fun id => !s.answers action id) = owed' at base unowed ⊢
  generalize is_out : (out.filter fun id => !s.renews action id) = out' at base unsent ⊢
  cases action <;> simp only [Intents.step] at steps <;>
    simp only [Intents.reopens, List.append_nil]
  case fence | reask | replay | disconnect => cases plain
  case enqueue id payload =>
    cases steps
    obtain ⟨sent, fenced⟩ := still_enqueue s o id payload
    exact prepares_still (base.enqueue o coherent id payload) sent fenced
  case rewrite id payload =>
    cases steps
    obtain ⟨sent, fenced⟩ := still_serialize s o (.rewrite id payload) .none
    exact prepares_still (base.serialize o _ _) sent fenced
  case refuse id code retryable =>
    cases steps
    have unowed' := unowed id (by simp [Intents.answers])
    have unsent' := unsent id (by simp [Intents.renews])
    unfold Intents.refuse
    simp only
    split
    · exact prepares_still base rfl rfl
    · split
      · obtain ⟨sent, fenced⟩ := still_acknowledge s o
          { commandId := id, ok := false, error := some code }
        exact prepares_still (base.acknowledge o unowed') sent fenced
      · -- the slot is free, and a timer holds the command back
        have released := base.release unowed' (fun member => absurd member unsent')
          fun _ _ _ _ _ => unsent'
        refine prepares_pump (@Holds.retries _ _ _ released (s.retries.set id
          ⟨((s.retries.get? id).getD ⟨0, false⟩).attempt + 1, true⟩) ?_) rfl rfl (ends_pump _)
        intro id' member
        have other : id ≠ id' := by
          rintro rfl
          exact unowed' member
        rw [Registry.get?_set_ne _ _ other]
        exact (base.flying id' member).released
  case acknowledge result =>
    cases steps
    obtain ⟨sent, fenced⟩ := still_acknowledge s o result
    exact prepares_still (base.acknowledge o (unowed _ (by simp [Intents.answers]))) sent fenced
  case reopen id =>
    cases steps
    obtain ⟨sent, fenced⟩ := still_reopen s o id
    exact prepares_still (base.reopen o (unsent id (by simp [Intents.renews]))) sent fenced
  case undo previous =>
    cases steps
    obtain ⟨sent, fenced⟩ := still_undo s o previous
    exact prepares_still (base.undo o (unowed _ (by simp [Intents.answers]))
      (unsent _ (by simp [Intents.renews]))) sent fenced
  case deliveryFailed id error =>
    cases steps
    unfold Intents.deliveryFailed
    split
    · exact prepares_still base rfl rfl
    · split
      · exact prepares_still base rfl rfl
      · obtain ⟨sent, fenced⟩ := still_serialize s o (.deliveryFailed id error) .none
        exact prepares_still (base.serialize o _ _) sent fenced
  case waiting id =>
    cases steps
    obtain ⟨sent, fenced⟩ := still_waiting s id
    exact prepares_still (base.waiting id) sent fenced
  case observe id acknowledged =>
    cases steps
    unfold Intents.observe
    split
    · exact prepares_still base rfl rfl
    · split
      · exact prepares_still base rfl rfl
      · obtain ⟨sent, fenced⟩ := still_serialize s o (.observe id acknowledged) .none
        exact prepares_still (base.serialize o _ _) sent fenced
  case verify hostId =>
    cases steps
    exact prepares_still (base.congr rfl rfl rfl rfl rfl rfl) rfl rfl
  case retry id =>
    split at steps
    · cases steps
      unfold Intents.retry
      split
      · exact prepares_still base rfl rfl
      next retry found =>
        have fired : Holds { s with retries := s.retries.set id { retry with cancel := false } }
            owed' out' := by
          refine base.retries fun id' member => ?_
          rw [Registry.get?_set]
          split
          · rfl
          · exact (base.flying id' member).released
        simp only
        split
        · exact prepares_pump fired rfl rfl (ends_pump _)
        · exact prepares_still fired rfl rfl
    · cases steps
  case start =>
    split at steps
    next operation queue idle is_queue =>
      cases steps
      obtain ⟨calm, mine⟩ := coherent.dequeue is_queue idle
      have base' : Holds { s with queue } owed' out' := base.congr rfl rfl rfl rfl rfl rfl
      refine prepares_from (prepares_start o base' calm idle ?_
        (fun id receipt => (mine id receipt).1) ?_) ⟨rfl, rfl⟩
      · rintro command evictedBefore rfl unsaved
        refine unsent _ ?_
        simp only [Intents.renews, is_queue, beq_self_eq_true, Bool.true_and,
          Option.isNone_iff_eq_none]
        exact unsaved
      · rintro id (⟨error, rfl⟩ | ⟨acknowledged, rfl⟩)
        · exact unowed id (by simp [Intents.answers, is_queue])
        · exact unowed id (by simp [Intents.answers, is_queue])
    next => cases steps
  case write ok =>
    split at steps
    next id value writes next running =>
      split at steps
      · cases steps
        refine prepares_still ?_ rfl rfl
        have stored : ∀ disk, Holds { s with disk } owed' out' :=
          fun disk => base.congr rfl rfl rfl rfl rfl rfl
        refine (stored _).runs ?_ ?_
        · intro writes' next' same
          cases same
          exact base.revived _ _ running
        · intro running' id' same receipt
          cases same
          refine base.answered _ id' running ?_
          cases next <;> exact receipt
      next failed =>
        cases steps
        refine prepares_restore base running (unowed _ ?_)
        have is_false : ok = false := by simpa using failed
        simp [Intents.answers, is_false, running]
    next => cases steps
  case resume =>
    split at steps
    next next running =>
      cases steps
      exact prepares_resume base coherent running
    next => cases steps
  case handle =>
    split at steps
    next handler running =>
      cases steps
      refine prepares_from (prepares_handle o base.idle coherent.idle ?_) ⟨rfl, rfl⟩
      rintro id rfl
      have marked := (coherent.mine running rfl).1
      exact ⟨fun member => (base.flying id member).unanswered marked, rfl,
        fun member => base.answered _ id running rfl member⟩
    next => cases steps
  case reject =>
    split at steps
    next handler rejected is_rejected =>
      cases steps
      have calm : Holds { s with rejected } owed' out' := base.congr rfl rfl rfl rfl rfl rfl
      refine prepares_from (prepares_handle o calm (coherent.unreject is_rejected).1 ?_) ⟨rfl, rfl⟩
      rintro id rfl
      have unsaved := coherent.refused (.acknowledged id true) (by simp [is_rejected]) id true rfl
      cases unsaved
    next => cases steps

theorem pump_sent {s s' : Intents} {extra : List Sending} {sent : List Intent}
    (all : s'.sent = s.sent ++ extra ++ sent.map (⟨·, .pump⟩))
    (others : ∀ sending ∈ extra, sending.cause ≠ .pump) :
    (s'.sent.drop s.sent.length).filter (·.cause == .pump) = sent.map (⟨·, .pump⟩) := by
  have none_of_extra : extra.filter (·.cause == .pump) = [] := by
    rw [List.filter_eq_nil_iff]
    intro sending member
    simpa using others sending member
  have all_pumped : (sent.map (⟨·, .pump⟩ : Intent → Sending)).filter (·.cause == .pump) =
      sent.map (⟨·, .pump⟩) := by
    rw [List.filter_eq_self]
    intro sending member
    obtain ⟨intent, -, rfl⟩ := List.mem_map.mp member
    rfl
  rw [all, List.append_assoc, List.drop_left, List.filter_append, none_of_extra, all_pumped,
    List.nil_append]

/-- The state before the pump of a step of a watched outbox, and what the step sends: what was sent
besides the pump, then the pump's own. -/
structure Sent (o : Options) (watch : Watch) (action : Action) (s' : Intents) (s₁ : Intents)
    (extra : List Sending) (sent : List Intent) : Prop where
  holds : Holds s₁
    (watch.owed.filter (fun id => !watch.s.answers action id) ++ watch.s.reopens action)
    (watch.out.filter fun id => !watch.s.renews action id)
  all : s'.sent = watch.s.sent ++ extra ++ sent.map (⟨·, .pump⟩)
  others : ∀ sending ∈ extra, sending.cause ≠ .pump
  after : Holds s' (watch.advance action s').owed (watch.advance action s').out
  free : ∀ intent ∈ sent, intent.state = .pending ∧ intent.command.id ∉ s₁.inFlight ∧
    s₁.records.get? intent.command.id = some intent
  nodup : (sent.map (·.command.id)).Nodup

theorem sent_of_ends (o : Options) {watch : Watch} {action : Action} {s' s₁ : Intents}
    {extra : List Sending}
    (holds : Holds s₁
      (watch.owed.filter (fun id => !watch.s.answers action id) ++ watch.s.reopens action)
      (watch.out.filter fun id => !watch.s.renews action id))
    (sent₁ : s₁.sent = watch.s.sent ++ extra) (others : ∀ sending ∈ extra, sending.cause ≠ .pump)
    (coherent : Coherent s') (ends : Ends s₁ s') : ∃ sent, Sent o watch action s' s₁ extra sent := by
  cases ends with
  | still same =>
    subst same
    have all : s'.sent = watch.s.sent ++ extra ++ ([] : List Intent).map (⟨·, .pump⟩) := by
      simpa using sent₁
    refine ⟨[], holds, all, others, ?_, by simp, List.nodup_nil⟩
    simp only [Watch.advance, pump_sent all others, List.map_nil, List.filter_nil, List.append_nil]
    exact holds
  | pumps fenced sent pumped =>
    have all : s'.sent = watch.s.sent ++ extra ++ sent.map (⟨·, .pump⟩) := by
      rw [pumped.is, ← sent₁]
    have records : s'.records = s₁.records := by rw [pumped.is]
    have keyed : ∀ id intent, s₁.records.get? id = some intent → intent.command.id = id := by
      rw [← records]
      exact coherent.keyed
    have marked : ∀ running id, s₁.running = some running → running.answered? = some id →
        id ∈ s₁.acknowledging := by
      intro running id is_running answered
      have is_running' : s'.running = some running := by
        rw [pumped.is]
        exact is_running
      have receipt : running.receipt? = some id := by
        unfold Running.answered? at answered
        split at answered <;> first | exact answered | cases answered
      have marked := (coherent.mine is_running' receipt).1
      rw [pumped.is] at marked
      exact marked
    refine ⟨sent, holds, all, others, ?_, ?_, pumped.nodup⟩
    · have after := holds.pumped keyed marked pumped
      have fresh : ((sent.map (⟨·, .pump⟩ : Intent → Sending)).filter (!·.intent.delivered)).map
          (·.intent.command.id) = (sent.filter (!·.delivered)).map (·.command.id) := by
        rw [List.filter_map, List.map_map]
        rfl
      have ids : (sent.map (⟨·, .pump⟩ : Intent → Sending)).map (·.intent.command.id) =
          sent.map (·.command.id) := by
        rw [List.map_map]
        rfl
      simp only [Watch.advance, pump_sent all others, fresh, ids]
      exact after
    · intro intent member
      obtain ⟨listed, free, idle⟩ := pumped.free intent member
      obtain ⟨⟨id, other⟩, entry, rfl⟩ := List.mem_map.mp listed
      have found := (s₁.records.mem_entries_iff id other).mp entry
      refine ⟨free.pending, idle, ?_⟩
      rw [keyed id other found]
      exact found

/-- The commands of a list that still wait for a receipt, with their records. -/
def Intents.unanswered (s : Intents) (ids : List String) : List Intent :=
  (ids.filter s.awaitingReceipt).filterMap s.records.get?

theorem foldl_reaskOne (s : Intents) (ids : List String) :
    ids.foldl Intents.reaskOne s =
      { s with sent := s.sent ++ (s.unanswered ids).map (⟨·, .reask⟩) } := by
  induction ids generalizing s with
  | nil => simp [Intents.unanswered]
  | cons id ids ih =>
    have same : ∀ sent, ({ s with sent } : Intents).unanswered ids = s.unanswered ids :=
      fun _ => rfl
    rw [List.foldl_cons, ih, Intents.reaskOne]
    cases found : s.records.get? id with
    | none =>
      have waits : s.awaitingReceipt id = false := by simp [Intents.awaitingReceipt, found]
      simp [Intents.unanswered, waits]
    | some intent =>
      simp only
      split
      next waits =>
        rw [Intents.send, same]
        simp [Intents.unanswered, waits, found]
      next answered => simp [Intents.unanswered, answered]

theorem reask_eq (s : Intents) (ids : List String) :
    s.reask ids = ({ s with
      sent := s.sent ++ (s.unanswered ids).map (⟨·, .reask⟩)
      fenced := none } : Intents).pump := by
  rw [Intents.reask, foldl_reaskOne]

theorem sent_step (o : Options) {watch : Watch} (coherent : Coherent watch.s)
    (holds : Holds watch.s watch.owed watch.out) {action : Action}
    (same_connection : action ≠ .replay ∧ action ≠ .disconnect) {s' : Intents}
    (steps : watch.s.step o action = some s') :
    ∃ s₁ extra sent, Sent o watch action s' s₁ extra sent := by
  have coherent' := coherent_step o coherent steps
  by_cases plain : action.isPlain = true
  · obtain ⟨s₁, prepared, ⟨extra, sent₁, again⟩, -, ends⟩ :=
      prepares_step o coherent holds plain steps
    obtain ⟨sent, all⟩ := sent_of_ends o prepared sent₁
      (fun sending member => by simp [(again sending member).1]) coherent' ends
    exact ⟨s₁, extra, sent, all⟩
  · have base : Holds watch.s
        (watch.owed.filter (fun id => !watch.s.answers action id) ++ watch.s.reopens action)
        (watch.out.filter fun id => !watch.s.renews action id) := by
      refine holds.weaken ?_ fun id member => (List.mem_filter.mp member).1
      intro id member
      rcases List.mem_append.mp member with old | new
      · exact (List.mem_filter.mp old).1
      · cases action <;> simp_all [Action.isPlain, Intents.reopens]
    cases action with
    | fence =>
      cases steps
      obtain ⟨sent, all⟩ := @sent_of_ends o watch .fence watch.s.fence.2 watch.s.fence.2 []
        (base.congr rfl rfl rfl rfl rfl rfl) (by simp [Intents.fence]) (by simp) coherent'
        (.still rfl)
      exact ⟨_, [], sent, all⟩
    | reask ids =>
      simp only [Intents.step, Option.some.injEq] at steps
      subst steps
      rw [reask_eq] at coherent' ⊢
      have asked : Holds { watch.s with
          sent := watch.s.sent ++ (watch.s.unanswered ids).map (⟨·, .reask⟩)
          fenced := none } _ _ := base.congr rfl rfl rfl rfl rfl rfl
      obtain ⟨sent, all⟩ := sent_of_ends o asked rfl (by simp) coherent' (ends_pump _)
      exact ⟨_, _, sent, all⟩
    | replay => exact absurd rfl same_connection.1
    | disconnect => exact absurd rfl same_connection.2
    | _ => exact absurd rfl plain

/-! ### Runs on one connection -/

/-- An outbox as it is when it has read what was stored. -/
structure Loaded (s : Intents) : Prop where
  keyed : ∀ id intent, s.records.get? id = some intent → intent.command.id = id
  remote : ∀ id intent, s.records.get? id = some intent → intent.state = .pending →
    intent.localFailure = false
  idle : s.running = none ∧ s.queue = [] ∧ s.rejected = [] ∧ s.acknowledging = [] ∧
    s.reopenings = []

def Reached (o : Options) (s : Intents) : Prop :=
  ∃ loaded actions, Loaded loaded ∧ loaded.run o actions = some s

theorem Reached.coherent {o : Options} {s : Intents} (reached : Reached o s) : Coherent s := by
  obtain ⟨loaded, actions, ⟨keyed, remote, running, queue, rejected, acknowledging, reopenings⟩,
    runs⟩ := reached
  have answering : loaded.answering = [] := by
    simp [Intents.answering, running, queue, rejected]
  refine coherent_run o ⟨keyed, remote, ?_, ?_, ?_, ?_, ?_⟩ runs
  · simp [running]
  · simp [answering]
  · simp [answering]
  · simp [rejected]
  · simp [reopenings]

def Watch.connect (s : Intents) : Watch := Watch.advance ⟨s, [], []⟩ .replay s.replay

/-- A run of a watched outbox on one connection. -/
inductive Watched (o : Options) (s : Intents) : Watch → Prop where
  | connect : Watched o s (.connect s)
  | step {watch : Watch} {action : Action} {s' : Intents} (before : Watched o s watch)
      (same_connection : action ≠ .replay ∧ action ≠ .disconnect)
      (steps : watch.s.step o action = some s') : Watched o s (watch.advance action s')

theorem holds_connect {o : Options} {s : Intents} (coherent : Coherent s) :
    Holds (Watch.connect s).s (Watch.connect s).owed (Watch.connect s).out := by
  have coherent' : Coherent s.replay := @coherent_step o s s.replay coherent .replay rfl
  have empty : Holds ({ s with connected := true, fenced := none, inFlight := [] } :
      Intents).cancelRetries [] [] :=
    ⟨rfl, by simp, by simp, by simp, by simp⟩
  obtain ⟨sent, all⟩ := @sent_of_ends o ⟨s, [], []⟩ .replay s.replay _ [] empty
    (by simp [Intents.cancelRetries]) (by simp) coherent' (ends_pump _)
  exact all.after

theorem Watched.sound {o : Options} {s : Intents} (coherent : Coherent s) {watch : Watch}
    (watched : Watched o s watch) :
    Coherent watch.s ∧ Holds watch.s watch.owed watch.out := by
  induction watched with
  | connect =>
    exact ⟨@coherent_step o s s.replay coherent .replay rfl, holds_connect (o := o) coherent⟩
  | step _ same_connection steps ih =>
    obtain ⟨s₁, extra, sent, all⟩ := sent_step o ih.1 ih.2 same_connection steps
    exact ⟨coherent_step o ih.1 steps, all.after⟩

/-! ### Behind a fence -/

/-- Nothing is asked again, and nothing answers `id`, on one connection. -/
def Silent (o : Options) (id : String) : Intents → List Action → Prop
  | _, [] => True
  | s, action :: actions =>
    action ≠ .replay ∧ action ≠ .disconnect ∧ (∀ ids, action ≠ .reask ids) ∧
      s.answers action id = false ∧
      ∀ s', s.step o action = some s' → Silent o id s' actions

/-- A fence holds a command that is owed a receipt. -/
structure Fenced (watch : Watch) (id : String) : Prop where
  coherent : Coherent watch.s
  holds : Holds watch.s watch.owed watch.out
  owed : id ∈ watch.owed
  fenced : ∃ fenced, watch.s.fenced = some fenced ∧ id ∈ fenced

theorem fenced_step {o : Options} {watch : Watch} {id : String} (fence : Fenced watch id)
    {action : Action} (same_connection : action ≠ .replay ∧ action ≠ .disconnect)
    (no_reask : ∀ ids, action ≠ .reask ids) (silent : watch.s.answers action id = false)
    {s' : Intents} (steps : watch.s.step o action = some s') :
    Fenced (watch.advance action s') id ∧
      ∃ extra, s'.sent = watch.s.sent ++ extra ∧ ∀ sending ∈ extra, sending.cause = .again ∧
        (sending.intent.state = .acked ∨ sending.intent.state = .failed) := by
  obtain ⟨coherent, holds, owed, fenced, is_fenced, behind⟩ := fence
  have coherent' := coherent_step o coherent steps
  have still_owed : id ∈ watch.owed.filter (fun id => !watch.s.answers action id) ++
      watch.s.reopens action :=
    List.mem_append_left _ (List.mem_filter.mpr ⟨owed, by simp [silent]⟩)
  have owed_after : ∀ s', id ∈ (watch.advance action s').owed :=
    fun s' => List.mem_append_left _ still_owed
  by_cases plain : action.isPlain = true
  · obtain ⟨s₁, prepared, ⟨extra, sent₁, again⟩, same_fence, ends⟩ :=
      prepares_step o coherent holds plain steps
    obtain ⟨sent, all⟩ := sent_of_ends o prepared sent₁
      (fun sending member => by simp [(again sending member).1]) coherent' ends
    -- the command still waits when the pump looks at the fence
    have waits : s₁.awaitingReceipt id = true :=
      (prepared.flying id still_owed).awaiting prepared.connected
    rw [is_fenced] at same_fence
    cases ends with
    | still same =>
      subst same
      exact ⟨⟨coherent', all.after, owed_after _, fenced, same_fence, behind⟩, extra, sent₁, again⟩
    | pumps fenced' sent' pumped =>
      obtain ⟨none_sent, rest⟩ := pumped.held fenced same_fence ⟨id, behind, waits⟩
      refine ⟨⟨coherent', all.after, owed_after _, fenced.filter s₁.awaitingReceipt, ?_,
        List.mem_filter.mpr ⟨behind, waits⟩⟩, extra, ?_, again⟩
      · simp only [Watch.advance]
        rw [pumped.is, rest]
      · rw [pumped.is, none_sent, sent₁]
        simp
  · cases action with
    | fence =>
      cases steps
      obtain ⟨s₁, extra, sent, all⟩ :=
        @sent_step o watch coherent holds .fence same_connection watch.s.fence.2 rfl
      have flies := (holds.flying id owed).inFlight
      refine ⟨⟨coherent', all.after, owed_after _, watch.s.inFlight, ?_, flies⟩, [], by
        simp [Intents.fence], by simp⟩
      have some_fly : watch.s.inFlight.isEmpty = false := by
        cases is_flight : watch.s.inFlight with
        | nil =>
          rw [is_flight] at flies
          cases flies
        | cons => rfl
      simp [Watch.advance, Intents.fence, some_fly]
    | reask ids => exact absurd rfl (no_reask ids)
    | replay => exact absurd rfl same_connection.1
    | disconnect => exact absurd rfl same_connection.2
    | _ => exact absurd rfl plain

theorem fenced_run {o : Options} {id : String} {actions : List Action} {watch : Watch}
    (fence : Fenced watch id) (silent : Silent o id watch.s actions) {s' : Intents}
    (runs : watch.s.run o actions = some s') :
    ∃ extra, s'.sent = watch.s.sent ++ extra ∧ ∀ sending ∈ extra, sending.cause = .again ∧
      (sending.intent.state = .acked ∨ sending.intent.state = .failed) := by
  induction actions generalizing watch with
  | nil =>
    cases runs
    exact ⟨[], by simp, by simp⟩
  | cons action actions ih =>
    rw [Intents.run, List.foldlM_cons] at runs
    obtain ⟨next, first, rest⟩ := Option.bind_eq_some_iff.mp runs
    obtain ⟨no_replay, no_disconnect, no_reask, unanswered, later⟩ := silent
    obtain ⟨fence', extra, sent, again⟩ := fenced_step fence ⟨no_replay, no_disconnect⟩ no_reask
      unanswered first
    obtain ⟨extra', sent', again'⟩ := @ih (watch.advance action next) fence' (later next first) rest
    refine ⟨extra ++ extra', ?_, ?_⟩
    · rw [sent', show (watch.advance action next).s.sent = next.sent from rfl, sent,
        List.append_assoc]
    · intro sending member
      rcases List.mem_append.mp member with old | new
      · exact again sending old
      · exact again' sending new

/-- **Path switches keep the order of commands.** Take an outbox at any time and a connection that
begins then, and watch it for as long as the connection lasts: which commands were sent on it and
have not been answered, refused or observed since, and which were sent while pending and have been
neither refused nor enqueued or opened anew. At every moment of it

* the pump sends a command only if it is pending and was not sent before, and each once;
* a command that is owed a receipt is among those that a fence returns, and after the fence nothing
  is sent but answered commands that were enqueued again, until that command is answered or asked
  for again;
* asking again sends the commands that still wait for a receipt, in the order of the fence, before
  the pump goes on. -/
theorem switch_keeps_order (o : Options) {s₀ : Intents} (reached : Reached o s₀) {watch : Watch}
    (watched : Watched o s₀ watch) :
    (∀ action s', action ≠ .replay ∧ action ≠ .disconnect → watch.s.step o action = some s' →
      ∃ (extra : List Sending) (sent : List Intent),
        s'.sent = watch.s.sent ++ extra ++ sent.map (⟨·, .pump⟩) ∧
        (∀ sending ∈ extra, sending.cause ≠ .pump) ∧ (sent.map (·.command.id)).Nodup ∧
        ∀ intent ∈ sent, intent.state = .pending ∧
          (intent.command.id ∈ watch.out → watch.s.renews action intent.command.id = true)) ∧
    (∀ id ∈ watch.owed, id ∈ watch.s.fence.1 ∧
      ∀ actions s', Silent o id watch.s.fence.2 actions →
        watch.s.fence.2.run o actions = some s' →
        ∃ extra, s'.sent = watch.s.sent ++ extra ∧ ∀ sending ∈ extra, sending.cause = .again ∧
          (sending.intent.state = .acked ∨ sending.intent.state = .failed)) ∧
    (∀ ids, ∃ sent : List Intent, (watch.s.reask ids).sent = watch.s.sent ++
      (watch.s.unanswered ids).map (⟨·, .reask⟩) ++ sent.map (⟨·, .pump⟩)) := by
  obtain ⟨coherent, holds⟩ := watched.sound reached.coherent
  refine ⟨?_, ?_, ?_⟩
  · intro action s' same_connection steps
    obtain ⟨s₁, extra, sent, all⟩ := sent_step o coherent holds same_connection steps
    refine ⟨extra, sent, all.all, all.others, all.nodup, fun intent member => ?_⟩
    obtain ⟨pending, idle, found⟩ := all.free intent member
    refine ⟨pending, fun out => ?_⟩
    by_contra kept
    have member' : intent.command.id ∈
        watch.out.filter fun id => !watch.s.renews action id :=
      List.mem_filter.mpr ⟨out, by simpa using kept⟩
    rcases all.holds.once _ member' with flies | settled
    · exact idle flies
    · exact settled intent found pending
  · intro id owed
    have flies := (holds.flying id owed).inFlight
    refine ⟨flies, fun actions s' silent runs => ?_⟩
    have some_fly : watch.s.inFlight.isEmpty = false := by
      cases is_flight : watch.s.inFlight with
      | nil =>
        rw [is_flight] at flies
        cases flies
      | cons => rfl
    obtain ⟨s₁, extra, sent, all⟩ :=
      @sent_step o watch coherent holds .fence (by simp) watch.s.fence.2 rfl
    have owed' : id ∈ (watch.advance .fence watch.s.fence.2).owed :=
      List.mem_append_left _ (List.mem_append_left _
        (List.mem_filter.mpr ⟨owed, by simp [Intents.answers]⟩))
    have fence : Fenced (watch.advance .fence watch.s.fence.2) id :=
      ⟨@coherent_step o watch.s watch.s.fence.2 coherent .fence rfl, all.after, owed', watch.s.inFlight,
        by simp [Watch.advance, Intents.fence, some_fly], flies⟩
    exact fenced_run fence silent runs
  · intro ids
    obtain ⟨fenced, sent, pumped⟩ := Intents.pump_spec { watch.s with
      sent := watch.s.sent ++ (watch.s.unanswered ids).map (⟨·, .reask⟩), fenced := none }
    exact ⟨sent, by rw [reask_eq, pumped.is]⟩

def sampleOptions : Options where
  device := "device"
  hostBinding := false
  limit := 4
  bytes := 65536
  frameBytes := 65536
  intentBytes _ := 256
  commandBytes _ := 128

def sampleIntent (id : String) (order : Nat) : Intent where
  command := { id, deviceId := "device", payload := .obj [("type", .str "thread.send")] }
  state := .pending
  order := some order

def sampleOutbox : Intents where
  records := (Registry.empty.set "a" (sampleIntent "a" 1)).set "b" (sampleIntent "b" 2)
  sequence := 2
  ready := true

theorem loaded_sampleOutbox : Loaded sampleOutbox := by
  have entries : ∀ id intent, sampleOutbox.records.get? id = some intent →
      (id = "a" ∧ intent = sampleIntent "a" 1) ∨ (id = "b" ∧ intent = sampleIntent "b" 2) := by
    intro id intent found
    simp only [sampleOutbox, Registry.get?_set, Registry.get?_empty] at found
    split at found
    next same => exact .inr ⟨same.symm, (Option.some.inj found).symm⟩
    next =>
      split at found
      next same => exact .inl ⟨same.symm, (Option.some.inj found).symm⟩
      next => cases found
  refine ⟨?_, ?_, rfl, rfl, rfl, rfl, rfl⟩
  · intro id intent found
    rcases entries id intent found with ⟨rfl, rfl⟩ | ⟨rfl, rfl⟩ <;> rfl
  · intro id intent found _
    rcases entries id intent found with ⟨rfl, rfl⟩ | ⟨rfl, rfl⟩ <;> rfl

/-- The actions of one connection that ask for nothing again. -/
def Action.isSilent : Action → Bool
  | .replay | .disconnect | .reask _ => false
  | _ => true

def isSilent (o : Options) (id : String) : Intents → List Action → Bool
  | _, [] => true
  | s, action :: actions =>
    action.isSilent && !s.answers action id &&
      (s.step o action).all fun s' => isSilent o id s' actions

theorem silent_of_isSilent {o : Options} {id : String} {actions : List Action} {s : Intents}
    (checked : isSilent o id s actions = true) : Silent o id s actions := by
  induction actions generalizing s with
  | nil => trivial
  | cons action actions ih =>
    rw [isSilent, Bool.and_eq_true, Bool.and_eq_true, Bool.not_eq_true'] at checked
    obtain ⟨⟨kind, silent⟩, later⟩ := checked
    refine ⟨?_, ?_, ?_, silent, fun s' steps => ih ?_⟩
    · rintro rfl
      simp [Action.isSilent] at kind
    · rintro rfl
      simp [Action.isSilent] at kind
    · rintro ids rfl
      simp [Action.isSilent] at kind
    · rw [steps] at later
      exact later

/-- Both commands are sent and a third is enqueued, saved and held: the first is still owed a
receipt. -/
theorem switch_keeps_order_sample :
    ∃ watch, Watched sampleOptions sampleOutbox watch ∧ watch.s.fence.1 = ["a", "b"] ∧
      ∃ s', watch.s.fence.2.run sampleOptions [.acknowledge { commandId := "b", ok := true },
          .enqueue "c" (.obj [("type", .str "thread.send")]), .start, .write true, .resume, .handle,
          .start, .write true, .resume, .handle] = some s' ∧
        s'.isPending "c" = true ∧
        ∃ extra, s'.sent = watch.s.sent ++ extra ∧ ∀ sending ∈ extra, sending.cause = .again ∧
          (sending.intent.state = .acked ∨ sending.intent.state = .failed) := by
  have reached : Reached sampleOptions sampleOutbox :=
    ⟨sampleOutbox, [], loaded_sampleOutbox, rfl⟩
  have watched : Watched sampleOptions sampleOutbox (.connect sampleOutbox) := .connect
  have held : ((Watch.connect sampleOutbox).s.fence.2.run sampleOptions
      [.acknowledge { commandId := "b", ok := true },
        .enqueue "c" (.obj [("type", .str "thread.send")]), .start, .write true, .resume, .handle,
        .start, .write true, .resume, .handle]).any (·.isPending "c") = true := by
    decide +kernel
  obtain ⟨s', runs, pending⟩ := (Option.any_eq_true _ _).mp held
  refine ⟨_, watched, by decide +kernel, s', runs, pending, ?_⟩
  obtain ⟨-, fence, -⟩ := switch_keeps_order sampleOptions reached watched
  exact (fence "a" (by decide +kernel)).2 _ s' (silent_of_isSilent (by decide +kernel)) runs

end Ace.Client
