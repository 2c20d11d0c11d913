import Ace.Client.Intents

/-!
# What the parts of the outbox do

Bounding the records removes settled ones only, and the pump changes nothing but what is in flight
and what the fence still holds. Whatever it sends was pending and nothing held it back.
-/

namespace Ace.Client

open Script

/-! ### Removals -/

/-- Records that went, none of them pending. -/
def Shrinks (records left : Records) : Prop :=
  ∀ id, left.get? id = records.get? id ∨
    left.get? id = none ∧ ∀ intent, records.get? id = some intent → intent.state ≠ .pending

namespace Shrinks

theorem refl (records : Records) : Shrinks records records := fun _ => .inl rfl

theorem trans {records middle left : Records} (first : Shrinks records middle)
    (second : Shrinks middle left) : Shrinks records left := by
  intro id
  rcases second id with same | ⟨gone, settled⟩
  · rw [same]
    exact first id
  · rcases first id with same' | ⟨-, settled'⟩
    · rw [same'] at settled
      exact .inr ⟨gone, settled⟩
    · exact .inr ⟨gone, settled'⟩

theorem delete {records : Records} {id : String}
    (settled : ∀ intent, records.get? id = some intent → intent.state ≠ .pending) :
    Shrinks records (records.delete id) := by
  intro id'
  rw [Registry.get?_delete]
  split
  next same => exact .inr ⟨rfl, same ▸ settled⟩
  next => exact .inl rfl

variable {records left : Records} (shrinks : Shrinks records left)

include shrinks

theorem get? {id : String} {intent : Intent} (found : left.get? id = some intent) :
    records.get? id = some intent := by
  rcases shrinks id with same | ⟨gone, -⟩
  · rw [← same, found]
  · rw [gone] at found
    cases found

theorem keeps {id : String} {intent : Intent} (found : records.get? id = some intent)
    (pending : intent.state = .pending) : left.get? id = some intent := by
  rcases shrinks id with same | ⟨-, settled⟩
  · rw [same, found]
  · exact absurd pending (settled intent found)

end Shrinks

/-- Entries that are in some records, each under its own key. -/
def Listed (entries : List (String × Intent)) (records : Records) : Prop :=
  (Assoc.keys entries).Nodup ∧ ∀ entry ∈ entries, records.get? entry.1 = some entry.2

theorem listed_entries (records : Records) : Listed records.entries records :=
  ⟨records.nodup, fun entry member => (records.mem_entries_iff entry.1 entry.2).mp member⟩

section

variable {id : String} {intent : Intent} {entries : List (String × Intent)} {records : Records}

theorem Listed.tail (listed : Listed ((id, intent) :: entries) records) :
    Listed entries records :=
  ⟨(List.nodup_cons.mp listed.1).2, fun entry member =>
    listed.2 entry (List.mem_cons_of_mem _ member)⟩

theorem Listed.delete (listed : Listed ((id, intent) :: entries) records) :
    Listed entries (records.delete id) := by
  refine ⟨listed.tail.1, fun entry member => ?_⟩
  have other : id ≠ entry.1 := by
    rintro rfl
    exact (List.nodup_cons.mp listed.1).1 (List.mem_map.mpr ⟨entry, member, rfl⟩)
  rw [Registry.get?_delete_ne _ other]
  exact listed.tail.2 entry member

theorem Listed.head (listed : Listed ((id, intent) :: entries) records) :
    records.get? id = some intent :=
  listed.2 (id, intent) (List.mem_cons_self ..)

end

section

variable (o : Options)

theorem evictFrom_shrinks (keep : Option String) {entries : List (String × Intent)}
    {records : Records} (listed : Listed entries records) :
    Shrinks records (evictFrom o keep entries records).1 := by
  induction entries generalizing records with
  | nil => exact .refl _
  | cons entry entries ih =>
    obtain ⟨id, intent⟩ := entry
    rw [evictFrom]
    split
    · exact .refl _
    · split
      · exact ih listed.tail
      next settled =>
        have not_pending : ∀ other, records.get? id = some other → other.state ≠ .pending := by
          intro other found
          rw [listed.head] at found
          cases found
          intro pending
          simp [isActive, pending] at settled
        exact (Shrinks.delete not_pending).trans (ih listed.delete)

theorem evictFrom_keeps {keep : String} {entries : List (String × Intent)} {records : Records} :
    (evictFrom o (some keep) entries records).1.get? keep = records.get? keep := by
  induction entries generalizing records with
  | nil => rfl
  | cons entry entries ih =>
    obtain ⟨id, intent⟩ := entry
    rw [evictFrom]
    split
    · rfl
    · split
      · exact ih
      next settled =>
        have other : id ≠ keep := by
          rintro rfl
          simp at settled
        have rest := @ih (records.delete id)
        rw [Registry.get?_delete_ne _ other] at rest
        exact rest

theorem evict_fst (records : Records) (keep : Option String) :
    (evict o records keep).1 = (evictFrom o keep records.entries records).1 := by
  unfold evict
  simp only
  split <;> rfl

theorem evict_shrinks (records : Records) (keep : Option String) :
    Shrinks records (evict o records keep).1 := by
  rw [evict_fst]
  exact evictFrom_shrinks o keep (listed_entries records)

theorem evict_keeps (records : Records) (keep : String) :
    (evict o records (some keep)).1.get? keep = records.get? keep := by
  rw [evict_fst]
  exact evictFrom_keeps o

theorem trimFrom_shrinks {keep : String} {entries : List (String × Intent)} {failed : Nat}
    {records : Records} (listed : Listed entries records)
    (remote : ∀ id intent, records.get? id = some intent → intent.state = .pending →
      intent.localFailure = false) :
    Shrinks records (trimFrom o keep entries failed records).1 := by
  induction entries generalizing records failed with
  | nil => exact .refl _
  | cons entry entries ih =>
    obtain ⟨id, intent⟩ := entry
    rw [trimFrom]
    split
    · exact .refl _
    · split
      · exact ih listed.tail remote
      next failure =>
        have not_pending : ∀ other, records.get? id = some other → other.state ≠ .pending := by
          intro other found pending
          have is_remote := remote id other found pending
          rw [listed.head] at found
          cases found
          simp [is_remote] at failure
        have shrinks := Shrinks.delete not_pending
        exact shrinks.trans (ih listed.delete fun id' other found => remote id' other
          (shrinks.get? found))

theorem trimFrom_keeps {keep : String} {entries : List (String × Intent)} {failed : Nat}
    {records : Records} :
    (trimFrom o keep entries failed records).1.get? keep = records.get? keep := by
  induction entries generalizing records failed with
  | nil => rfl
  | cons entry entries ih =>
    obtain ⟨id, intent⟩ := entry
    rw [trimFrom]
    split
    · rfl
    · split
      · exact ih
      next failure =>
        have other : id ≠ keep := by
          rintro rfl
          simp at failure
        have rest := @ih (failed - 1) (records.delete id)
        rw [Registry.get?_delete_ne _ other] at rest
        exact rest

end

/-! ### The pump -/

namespace Intents

structure Free (s : Intents) (intent : Intent) : Prop where
  pending : intent.state = .pending
  saved : intent.command.id ∉ s.saving
  unanswered : intent.command.id ∉ s.acknowledging
  released : s.heldBack intent.command.id = false

theorem pumpOne_cases (s : Intents) (intent : Intent) :
    s.pumpOne intent = s ∨
    (s.Free intent ∧ intent.command.id ∉ s.inFlight ∧
      s.pumpOne intent = { s with
        inFlight := s.inFlight ++ [intent.command.id]
        sent := s.sent ++ [⟨intent, .pump⟩] }) := by
  unfold pumpOne
  simp only
  split
  · exact .inl rfl
  next goes =>
    simp only [ge_iff_le, bne_iff_ne, ne_eq, Bool.or_eq_true, decide_eq_true_eq,
      List.contains_iff_mem, not_or, not_not, Bool.not_eq_true] at goes
    obtain ⟨⟨⟨⟨⟨-, pending⟩, saved⟩, idle⟩, unanswered⟩, released⟩ := goes
    refine .inr ⟨⟨pending, saved, unanswered, released⟩, idle, ?_⟩
    simp [send, addTo, idle]

theorem pumpAll_spec (intents : List Intent) (s : Intents) :
    ∃ sent : List Intent,
      intents.foldl pumpOne s = { s with
        inFlight := s.inFlight ++ sent.map (·.command.id)
        sent := s.sent ++ sent.map (⟨·, .pump⟩) } ∧
      (∀ intent ∈ sent, intent ∈ intents ∧ s.Free intent ∧ intent.command.id ∉ s.inFlight) ∧
      (sent.map (·.command.id)).Nodup := by
  induction intents generalizing s with
  | nil => exact ⟨[], by simp, by simp, List.nodup_nil⟩
  | cons intent intents ih =>
    rw [List.foldl_cons]
    rcases pumpOne_cases s intent with same | ⟨free, idle, sends⟩
    · rw [same]
      obtain ⟨sent, all, from_, nodup⟩ := ih s
      exact ⟨sent, all, fun other member =>
        ⟨List.mem_cons_of_mem _ (from_ other member).1, (from_ other member).2⟩, nodup⟩
    · rw [sends]
      obtain ⟨sent, all, from_, nodup⟩ := ih { s with
        inFlight := s.inFlight ++ [intent.command.id]
        sent := s.sent ++ [⟨intent, .pump⟩] }
      refine ⟨intent :: sent, ?_, ?_, ?_⟩
      · rw [all]
        simp
      · intro other member
        rcases List.mem_cons.mp member with rfl | later
        · exact ⟨List.mem_cons_self .., free, idle⟩
        · obtain ⟨listed, free', idle'⟩ := from_ other later
          refine ⟨List.mem_cons_of_mem _ listed,
            ⟨free'.pending, free'.saved, free'.unanswered, free'.released⟩, ?_⟩
          exact fun flying => idle' (List.mem_append_left _ flying)
      · rw [List.map_cons, List.nodup_cons]
        refine ⟨fun twice => ?_, nodup⟩
        obtain ⟨other, member, same⟩ := List.mem_map.mp twice
        have idle' := (from_ other member).2.2
        rw [same] at idle'
        exact idle' (by simp)

/-- What the pump did: it sent `sent`, unless the fence held. -/
structure Pumped (s s' : Intents) (fenced : Option (List String)) (sent : List Intent) : Prop where
  is : s' = { s with
    fenced
    inFlight := s.inFlight ++ sent.map (·.command.id)
    sent := s.sent ++ sent.map (⟨·, .pump⟩) }
  free : ∀ intent ∈ sent, intent ∈ s.records.values ∧ s.Free intent ∧
    intent.command.id ∉ s.inFlight
  nodup : (sent.map (·.command.id)).Nodup
  /-- Nothing is sent past a fence that still waits for a receipt. -/
  held : ∀ old, s.fenced = some old → (∃ id ∈ old, s.awaitingReceipt id = true) →
    sent = [] ∧ fenced = some (old.filter s.awaitingReceipt)

theorem pumped_nothing (s : Intents) (fenced : Option (List String))
    (held : ∀ old, s.fenced = some old → (∃ id ∈ old, s.awaitingReceipt id = true) →
      fenced = some (old.filter s.awaitingReceipt)) :
    Pumped s { s with fenced } fenced [] :=
  ⟨by simp, by simp, List.nodup_nil, fun old is_old waits => ⟨rfl, held old is_old waits⟩⟩

theorem pump_spec (s : Intents) : ∃ fenced sent, Pumped s s.pump fenced sent := by
  unfold pump
  split
  next offline =>
    refine ⟨s.fenced, [], pumped_nothing s s.fenced ?_⟩
    rintro old - ⟨id, -, waits⟩
    simp only [Bool.not_eq_true'] at offline
    simp [awaitingReceipt, offline] at waits
  next =>
    unfold holding
    cases is_fenced : s.fenced with
    | none =>
      obtain ⟨sent, all, from_, nodup⟩ := pumpAll_spec s.records.values s
      refine ⟨none, sent, ?_, from_, nodup, ?_⟩
      · simp only [Bool.false_eq_true, if_false]
        rw [all, ← is_fenced]
      · rw [is_fenced]
        nofun
    | some old =>
      by_cases drained : (old.filter s.awaitingReceipt).isEmpty = true
      · simp only [drained, if_true, Bool.false_eq_true, if_false]
        obtain ⟨sent, all, from_, nodup⟩ := pumpAll_spec s.records.values { s with fenced := none }
        refine ⟨none, sent, all, fun intent member => ?_, nodup, ?_⟩
        · obtain ⟨listed, free, idle⟩ := from_ intent member
          exact ⟨listed, ⟨free.pending, free.saved, free.unanswered, free.released⟩, idle⟩
        · rintro other same ⟨id, member, waits⟩
          rw [is_fenced] at same
          cases same
          have left : id ∈ old.filter s.awaitingReceipt := List.mem_filter.mpr ⟨member, waits⟩
          rw [List.isEmpty_iff.mp drained] at left
          simp at left
      · simp only [drained, Bool.false_eq_true, if_false, if_true]
        refine ⟨_, [], pumped_nothing s _ ?_⟩
        intro other same _
        rw [is_fenced] at same
        cases same
        rfl

end Intents

end Ace.Client
