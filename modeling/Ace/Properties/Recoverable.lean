import Ace.Properties.Orchestrations
import Mathlib.Data.List.ProdSigma

/-!
# A state at rest passes the checks of a recovery

`recover` repeats in some twenty checks what the reducer keeps by construction. A state at
rest in which every lane has the intent it waits for passes them all: the bounds of the
schema follow from the bound on the lanes, the receipts are the keys the reducer made, and
what is pending may be executed.

## Main result

`recover_of_rest`: `recover` returns such a state as it is, with its pending intents.
-/

namespace Ace.Orchestrator

open Script

variable {s : State}

/-! ### Checks in sequence -/

theorem require_of_true {condition : Bool} {fault : Fault} (holds : condition = true) :
    require condition fault = .ok ⟨⟩ := by
  simp [require, holds]

theorem forM_of_each {α : Type} {xs : List α} {check : α → Except Fault PUnit}
    (each : ∀ x ∈ xs, check x = .ok ⟨⟩) : xs.forM check = .ok ⟨⟩ := by
  induction xs with
  | nil => rfl
  | cons x xs ih =>
    show (check x >>= fun _ => xs.forM check) = _
    rw [each x (List.mem_cons_self ..)]
    exact ih fun y member => each y (List.mem_cons_of_mem _ member)

/-! ### The schema -/

theorem utf16Length_of_ascii {text : String} (ascii : ∀ c ∈ text.toList, c.toNat < 128) :
    utf16Length text = text.toList.length := by
  unfold utf16Length
  generalize text.toList = cs at ascii
  induction cs with
  | nil => rfl
  | cons c cs ih =>
    have small := ascii c (List.mem_cons_self ..)
    have tail := ih fun d member => ascii d (List.mem_cons_of_mem _ member)
    have unit : c.val < 0x10000 := by
      rw [UInt32.lt_iff_toNat_lt]
      exact Nat.lt_trans small (by decide)
    simp only [List.map_cons, List.sum_cons, List.length_cons, tail, unit, if_true]
    omega

theorem idChars {id : String} (valid : isOrchestrationId id = true) :
    id.toList.length ≤ 128 ∧ ∀ c ∈ id.toList, c.toNat < 128 ∧ c ≠ ':' := by
  unfold isOrchestrationId at valid
  split at valid
  next => cases valid
  next c rest chars =>
    simp only [Bool.and_eq_true, decide_eq_true_eq, List.all_eq_true, Bool.or_eq_true,
      beq_iff_eq] at valid
    obtain ⟨⟨⟨first, others⟩, short⟩, -⟩ := valid
    have alphanumeric : ∀ {c : Char}, c.isAlphanum = true → c.toNat < 128 ∧ c ≠ ':' := by
      intro c h
      refine ⟨?_, fun same => by rw [same] at h; revert h; decide⟩
      delta Char.isAlphanum Char.isAlpha Char.isUpper Char.isLower Char.isDigit at h
      simp only [Bool.or_eq_true, Bool.and_eq_true, decide_eq_true_eq, ge_iff_le,
        UInt32.le_iff_toNat_le] at h
      have value : c.toNat = c.val.toNat := rfl
      rw [value]
      have bounds : 'Z'.val.toNat = 90 ∧ 'z'.val.toNat = 122 ∧ '9'.val.toNat = 57 := by decide
      omega
    rw [chars]
    refine ⟨by simp only [List.length_cons]; omega, ?_⟩
    intro d member
    rcases List.mem_cons.mp member with rfl | member
    · exact alphanumeric first
    · rcases others d member with ((h | rfl) | rfl) | rfl
      · exact alphanumeric h
      all_goals decide

theorem attemptChars {attempt : Nat} (small : attempt ≤ 10) :
    (toString attempt).toList.length ≤ 2 ∧
      ∀ c ∈ (toString attempt).toList, c.toNat < 128 ∧ c ≠ ':' := by
  have table : ((List.range 11).all fun n => (toString n).toList.length ≤ 2 &&
      (toString n).toList.all fun c => decide (c.toNat < 128) && c != ':') = true := by
    decide +kernel
  rw [List.all_eq_true] at table
  have row := table attempt (List.mem_range.mpr (by omega))
  simp only [Bool.and_eq_true, decide_eq_true_eq, List.all_eq_true, bne_iff_ne] at row
  exact row

section Receipts

variable {parentId requestId : String} {attempt : Nat}
  (parent_valid : isOrchestrationId parentId = true) (small : attempt ≤ 10)
  (request_valid : isOrchestrationId requestId = true)

include parent_valid small request_valid

theorem receiptKey_short : lengthWithin 0 300 (receiptKey parentId attempt requestId) = true := by
  obtain ⟨parent_short, parent_ascii⟩ := idChars parent_valid
  obtain ⟨attempt_short, attempt_ascii⟩ := attemptChars small
  obtain ⟨request_short, request_ascii⟩ := idChars request_valid
  have colon : utf16Length ":" = 1 := by decide +kernel
  simp only [lengthWithin, receiptKey, utf16Length_append, colon, decide_eq_true_eq,
    utf16Length_of_ascii fun c member => (parent_ascii c member).1,
    utf16Length_of_ascii fun c member => (attempt_ascii c member).1,
    utf16Length_of_ascii fun c member => (request_ascii c member).1]
  omega

theorem splitReceipt_receiptKey : splitReceipt (receiptKey parentId attempt requestId) =
    [parentId, toString attempt, requestId] := by
  have parts : ([':'].intercalate
      [parentId.toList, (toString attempt).toList, requestId.toList]).splitOn ':' =
      [parentId.toList, (toString attempt).toList, requestId.toList] := by
    apply List.splitOn_intercalate
    · intro part member
      simp only [List.mem_cons, List.not_mem_nil, or_false] at member
      rcases member with rfl | rfl | rfl
      · exact fun colon => ((idChars parent_valid).2 _ colon).2 rfl
      · exact fun colon => ((attemptChars small).2 _ colon).2 rfl
      · exact fun colon => ((idChars request_valid).2 _ colon).2 rfl
    · simp
  have joined : (receiptKey parentId attempt requestId).toList =
      [':'].intercalate [parentId.toList, (toString attempt).toList, requestId.toList] := by
    simp [receiptKey, List.intercalate]
  rw [splitReceipt, joined, parts]
  simp only [List.map_cons, List.map_nil, String.ofList_toList]

end Receipts

theorem namesAttempt_of_le {attempt limit : Nat} (positive : 1 ≤ attempt) (le : attempt ≤ limit) :
    namesAttempt limit (toString attempt) = true := by
  unfold namesAttempt
  rw [List.any_eq_true]
  refine ⟨attempt - 1, List.mem_range.mpr (by omega), ?_⟩
  rw [show attempt - 1 + 1 = attempt by omega]
  exact beq_self_eq_true _

section Rest

variable {strict : Prop} (rest : Rest strict s)

include rest

theorem Rest.few : s.lanes.keys.length ≤ 64 := by
  have head := rest.head
  rw [State.headValid_iff] at head
  have valid := head.2.2.1
  simp only [Create.valid, Template.valid, Budget.valid, Bool.and_eq_true,
    decide_eq_true_eq] at valid
  have small := rest.small
  omega

theorem Rest.isCount_tally (p : Lane → Bool) : isCount (tally p s.lanes) = true := by
  have few := rest.few
  have low := tally_nonneg p s.lanes
  have high := tally_le_length p s.lanes
  simp only [isCount, decide_eq_true_eq]
  omega

theorem Rest.receipt (key child : String) (receipt : s.spawnReceipts.get? key = some child) :
    lengthWithin 0 300 key = true ∧ receiptHolds s key child = true := by
  obtain ⟨coordinator, parentId, attempt, requestId, parent, lane, rfl, parent_valid, request_valid,
    positive, above, le, below, nested⟩ := rest.receipts.holds key child receipt
  have content := (rest.proper parentId parent above).content
  rw [Lane.contentValid_iff] at content
  have attempts := content.2.2.2.2.2.2.2.2.1
  simp only [isAttempt, decide_eq_true_eq] at attempts
  have small : attempt ≤ 10 := by omega
  refine ⟨receiptKey_short parent_valid small request_valid, ?_⟩
  unfold receiptHolds
  rw [splitReceipt_receiptKey parent_valid small request_valid]
  have named := namesAttempt_of_le positive le
  simp only [coordinator, parent_valid, request_valid, above, below, nested, named, Option.any_some,
    beq_self_eq_true, Bool.and_self]

theorem Rest.intents_few : s.intents.keys.length ≤ 128 := by
  have few := rest.few
  have names : s.intents.keys.length ≤ (s.lanes.keys ×ˢ [true, false]).length := by
    refine length_keys_le_of_names
      (fun _ entry => (entry.effect.laneId, entry.effect.type == .check)) ?_ ?_
    · intro key entry pending
      rw [List.mem_product]
      refine ⟨(Dictionary.mem_keys_iff ..).mpr (rest.owner key entry pending), ?_⟩
      cases entry.effect.type == .check <;> simp
    · intro key entry key' entry' pending pending' same
      simp only [Prod.mk.injEq] at same
      obtain ⟨lane, here⟩ := Option.isSome_iff_exists.mp (rest.owner key entry pending)
      have tended := rest.tended _ lane here
      have suits := (tended.suits key entry pending rfl).2
      have suits' := (tended.suits key' entry' pending' same.1.symm).2
      refine tended.sole key entry key' entry' pending pending' rfl same.1.symm ?_
      obtain ⟨id, effect⟩ := entry
      obtain ⟨id', effect'⟩ := entry'
      have checks := same.2
      cases effect <;> cases effect' <;> simp_all [Suits, Effect.type, Active]
  simp only [List.length_product, List.length_cons, List.length_nil] at names
  omega

theorem Rest.valid : s.valid = true := by
  have few := rest.few
  have intents := rest.intents_few
  have receipts : s.spawnReceipts.keys.length ≤ s.lanes.keys.length := by
    refine length_keys_le_of_names (fun _ child => child) ?_ ?_
    · intro key child receipt
      obtain ⟨-, _, _, _, _, lane, -, -, -, -, -, -, below, -⟩ := rest.receipts.holds key child receipt
      rw [Dictionary.mem_keys_iff, below]
      rfl
    · rintro key child key' child' receipt receipt' rfl
      exact rest.receipts.once key key' child receipt receipt'
  have named : ∀ l lane, s.lanes.get? l = some lane → isOrchestrationId l = true := by
    intro l lane here
    have content := (rest.proper l lane here).content
    rw [Lane.contentValid_iff, rest.id_eq l lane here] at content
    exact content.1
  simp only [State.valid, Bool.and_eq_true, decide_eq_true_eq, List.all_eq_true]
  refine ⟨⟨⟨⟨⟨⟨⟨⟨⟨⟨rest.head, ?_⟩, few⟩, ?_⟩, by omega⟩, ?_⟩, by omega⟩, ?_⟩, ?_⟩, ?_⟩, ?_⟩
  · rintro ⟨l, lane⟩ member
    have here := (Dictionary.mem_entries_iff ..).mp member
    have children := rest.children_eq l lane here
    have failures := rest.failedChildren_eq l lane here
    simp only [Int.add_zero] at children failures
    refine ⟨named l lane here, ?_⟩
    simp only [Lane.valid, Bool.and_eq_true]
    rw [children, failures]
    exact ⟨⟨(rest.proper l lane here).content, rest.isCount_tally _⟩, rest.isCount_tally _⟩
  · rintro ⟨key, entry⟩ member
    have pending := (Dictionary.mem_entries_iff ..).mp member
    obtain ⟨lane, here⟩ := Option.isSome_iff_exists.mp (rest.owner key entry pending)
    obtain ⟨same, valid⟩ := (rest.tended _ lane here).named key entry pending rfl
    have id_valid : isOrchestrationId entry.id = true := by
      simp only [Intent.valid, Bool.and_eq_true] at valid
      exact valid.1
    exact ⟨same ▸ id_valid, valid⟩
  · rintro ⟨key, child⟩ member
    have receipt := (Dictionary.mem_entries_iff ..).mp member
    obtain ⟨-, _, _, _, _, lane, -, -, -, -, -, -, below, -⟩ := rest.receipts.holds key child receipt
    exact ⟨(rest.receipt key child receipt).1, named child lane below⟩
  · rw [rest.open_eq]
    exact rest.isCount_tally _
  · rw [rest.waiting_eq]
    exact rest.isCount_tally _
  · rw [rest.succeeded_eq]
    exact rest.isCount_tally _
  · rw [rest.failed_eq]
    exact rest.isCount_tally _

/-! ### Lanes and receipts -/

theorem Rest.recoverPlace_ok (l : String) (lane : Lane) (here : s.lanes.get? l = some lane) :
    recoverPlace s (l, lane) = .ok ⟨⟩ := by
  have deep := (rest.proper l lane here).deep
  have identity : (l == lane.id && decide (lane.depth ≤ s.input.template.budget.maxDepth)) = true := by
    simp [rest.id_eq l lane here, deep]
  simp only [recoverPlace, require_of_true identity]
  cases nested : lane.parentId with
  | none =>
    have top := Inv.root rest l lane here nested
    exact require_of_true (by simp [top])
  | some parentId =>
    obtain ⟨-, parent, above, depth⟩ := rest.parent l lane parentId here nested
    exact require_of_true (by simp [above, depth])

theorem Rest.recoverLane_ok (l : String) (lane : Lane) (here : s.lanes.get? l = some lane) :
    recoverLane s lane = .ok ⟨⟩ := by
  have proper := rest.proper l lane here
  have children := rest.children_eq l lane here
  have failures := rest.failedChildren_eq l lane here
  simp only [Int.add_zero] at children failures
  have counts : (lane.children == s.laneCount (openChild lane.id) &&
      lane.failedChildren == s.laneCount (failedChild lane.id)) = true := by
    rw [rest.id_eq l lane here, children, failures]
    simp [State.laneCount, tally]
  have stopped : (!(s.stopReason.isSome && !terminal lane.phase &&
      lane.phase != .cancelling)) = true := by
    have halted := proper.halted
    cases h : s.stopReason.isSome
    · rfl
    · cases isOver : terminal lane.phase
      · rcases halted h isOver with stopping | impossible
        · simp [stopping]
        · exact impossible.elim
      · rfl
  have bound : (lane.threadId.isNone == lane.worktree.isNone) = true := by
    have both := proper.bound
    cases h : lane.threadId <;> cases h' : lane.worktree <;> simp_all
  have finished : (!(terminal lane.phase && decide (0 < lane.children))) = true := by
    cases isOver : terminal lane.phase
    · rfl
    · simp [proper.isOver isOver]
  have checked : (!(lane.phase == .succeeded &&
      (!lane.threadDone || lane.artifact.isNone || lane.checksPassed != some true))) = true := by
    by_cases success : lane.phase = .succeeded
    · obtain ⟨done, artifact, passed⟩ := proper.success success
      obtain ⟨found, made⟩ := Option.isSome_iff_exists.mp artifact
      simp [done, made, passed]
    · simp [success]
  simp only [recoverLane, require_of_true counts, require_of_true stopped, require_of_true bound,
    require_of_true finished, require_of_true checked]
  rfl

end Rest

theorem recoverReceipts_ok {entries : List (String × String)} {seen : List String}
    (each : ∀ key child, (key, child) ∈ entries → receiptHolds s key child = true)
    (distinct : (entries.map Prod.snd).Nodup) (unseen : ∀ child ∈ entries.map Prod.snd, child ∉ seen) :
    ∃ found, recoverReceipts s entries seen = .ok found ∧
      ∀ child, child ∈ found ↔ child ∈ seen ∨ child ∈ entries.map Prod.snd := by
  induction entries generalizing seen with
  | nil => exact ⟨seen, rfl, by simp⟩
  | cons first rest ih =>
    obtain ⟨key, child⟩ := first
    simp only [List.map_cons, List.nodup_cons] at distinct
    have holds : (receiptHolds s key child && !seen.contains child) = true := by
      have new := unseen child (by simp)
      simp [each key child (List.mem_cons_self ..), new]
    obtain ⟨found, run, names⟩ := @ih (child :: seen)
      (fun key' child' member => each key' child' (List.mem_cons_of_mem _ member)) distinct.2
      (fun other member => by
        simp only [List.mem_cons, not_or]
        refine ⟨?_, unseen other (List.mem_cons_of_mem _ member)⟩
        rintro rfl
        exact distinct.1 member)
    refine ⟨found, ?_, ?_⟩
    · simp only [recoverReceipts, require_of_true holds]
      exact run
    · intro other
      rw [names]
      simp only [List.mem_cons, List.map_cons]
      tauto

/-! ### Pending intents -/

theorem Rest.canExecute (rest : Rest True s) {key : String} {entry : Intent} {lane : Lane}
    (pending : s.intents.get? key = some entry)
    (here : s.lanes.get? entry.effect.laneId = some lane) :
    canExecute s lane entry.effect = true := by
  have suits := ((rest.tended _ lane here).suits key entry pending rfl).2
  have proper := rest.proper _ lane here
  have unstopped : terminal lane.phase = false → lane.phase ≠ .cancelling → s.stopReason = none := by
    intro going staying
    cases stop : s.stopReason with
    | none => rfl
    | some reason =>
      rcases proper.halted (by rw [stop]; rfl) going with stopping | impossible
      · exact absurd stopping staying
      · exact impossible.elim
  obtain ⟨id, effect⟩ := entry
  cases effect with
  | start laneId attempt prompt spec input =>
    simp only [Suits, Active] at suits
    have running : s.stopReason = none := by
      apply unstopped <;> rcases suits with h | h | h | h | h | h <;> rw [h] <;> simp [terminal]
    rcases suits with h | h | h | h | h | h <;> simp [Orchestrator.canExecute, running, h]
  | check laneId attempt artifact =>
    obtain ⟨checking, done, childless, unchecked, made⟩ := suits
    have running : s.stopReason = none := by
      apply unstopped <;> rw [checking] <;> simp [terminal]
    simp [Orchestrator.canExecute, running, checking, done, childless, unchecked, made]
  | cancel laneId attempt =>
    have stopping : lane.phase = .cancelling := suits
    simp [Orchestrator.canExecute, stopping, proper.stopping (.inl stopping)]
  | merge laneId attempt checkpoint =>
    obtain ⟨success, made⟩ := suits
    obtain ⟨merging, requested, won⟩ := rest.merging key _ pending rfl
    have quiet := rest.quiet trivial (fun noisy => noisy) merging
    have named : lane.id = laneId := rest.id_eq _ lane here
    have winner : s.winner = some laneId := won
    simp [Orchestrator.canExecute, rest.requested requested, requested, merging, winner, named, quiet,
      success, made]

theorem recoverIntents_ok {entries : List (String × Intent)} {seen : List (String × EffectType)}
    (each : ∀ key entry, (key, entry) ∈ entries → ∃ lane,
      s.lanes.get? entry.effect.laneId = some lane ∧ lane.id = entry.effect.laneId ∧
      entry.id = key ∧ lane.attempt = entry.effect.attempt ∧
      canExecute s lane entry.effect = true)
    (distinct : (entries.map fun e => (e.2.effect.laneId, e.2.effect.type)).Nodup)
    (unseen : ∀ operation ∈ entries.map fun e => (e.2.effect.laneId, e.2.effect.type),
      operation ∉ seen) :
    ∃ found, recoverIntents s entries seen = .ok found ∧ ∀ operation, operation ∈ found ↔
      operation ∈ seen ∨ operation ∈ entries.map fun e => (e.2.effect.laneId, e.2.effect.type) := by
  induction entries generalizing seen with
  | nil => exact ⟨seen, rfl, by simp⟩
  | cons first rest ih =>
    obtain ⟨key, entry⟩ := first
    obtain ⟨lane, here, named, same, current, executable⟩ := each key entry (List.mem_cons_self ..)
    simp only [List.map_cons, List.nodup_cons] at distinct
    have owned : (key == entry.id && lane.attempt == entry.effect.attempt) = true := by
      simp [same, current]
    have fresh : (!seen.contains (lane.id, entry.effect.type)) = true := by
      have new := unseen (entry.effect.laneId, entry.effect.type) (by simp)
      simp [named, new]
    obtain ⟨found, run, names⟩ := @ih ((lane.id, entry.effect.type) :: seen)
      (fun key' entry' member => each key' entry' (List.mem_cons_of_mem _ member)) distinct.2
      (fun other member => by
        simp only [List.mem_cons, not_or]
        refine ⟨?_, unseen other (List.mem_cons_of_mem _ member)⟩
        rintro rfl
        rw [named] at member
        exact distinct.1 member)
    refine ⟨found, ?_, ?_⟩
    · simp only [recoverIntents, here, require_of_true owned, require_of_true executable,
        require_of_true fresh]
      exact run
    · intro other
      rw [names, named]
      simp only [List.mem_cons, List.map_cons]
      tauto

/-! ### Recovery -/

theorem recover_of_rest (rest : Rest True s) (status : s.status = runStatus s)
    (nonempty : s.lanes.keys.length ≠ 0) : recover s = .ok (s, s.intents.values) := by
  have entry_of_value : ∀ lane ∈ s.lanes.values, ∃ l, s.lanes.get? l = some lane :=
    fun lane member => (s.lanes.mem_values_iff lane).mp member
  have count : (decide (s.lanes.keys.length ≤ s.input.template.budget.maxLanes) &&
      s.lanes.keys.length != 0) = true := by
    simp [rest.small, nonempty]
  have places : s.lanes.entries.forM (recoverPlace s) = .ok PUnit.unit.{1} := by
    apply forM_of_each
    rintro ⟨l, lane⟩ member
    exact rest.recoverPlace_ok l lane ((Dictionary.mem_entries_iff ..).mp member)
  have lanes : s.lanes.values.forM (recoverLane s) = .ok PUnit.unit.{1} := by
    apply forM_of_each
    intro lane member
    obtain ⟨l, here⟩ := entry_of_value lane member
    exact rest.recoverLane_ok l lane here
  -- The receipts name the spawned lanes, each once.
  obtain ⟨receipted, receipts, children⟩ :
      ∃ found, recoverReceipts s s.spawnReceipts.entries [] = .ok found ∧
        ∀ child, child ∈ found ↔ child ∈ ([] : List String) ∨
          child ∈ s.spawnReceipts.entries.map Prod.snd := by
    apply recoverReceipts_ok
    · intro key child member
      exact (rest.receipt key child ((Dictionary.mem_entries_iff ..).mp member)).2
    · refine List.Nodup.map_on ?_ (List.Nodup.of_map Prod.fst s.spawnReceipts.nodup)
      rintro ⟨key, child⟩ member ⟨key', child'⟩ member' same
      simp only at same
      subst same
      rw [Dictionary.mem_entries_iff] at member member'
      rw [rest.receipts.once key key' child member member']
    · simp
  have spawned : s.lanes.values.forM (fun lane =>
      require (lane.parentId.isNone || receipted.contains lane.id)
        (.error "Missing spawn receipt")) = .ok PUnit.unit.{1} := by
    apply forM_of_each
    intro lane member
    obtain ⟨l, here⟩ := entry_of_value lane member
    apply require_of_true
    cases nested : lane.parentId with
    | none => rfl
    | some parentId =>
      obtain ⟨key, receipt⟩ := rest.receipts.every l lane here (by rw [nested]; rfl)
      have listed : l ∈ receipted := by
        rw [children]
        refine .inr (List.mem_map.mpr ⟨(key, l), ?_, rfl⟩)
        exact (Dictionary.mem_entries_iff ..).mpr receipt
      simp [rest.id_eq l lane here, listed]
  have counters : (s.open_ == s.laneCount (!terminal ·.phase) &&
      s.waiting == s.laneCount (isWaiting ·.phase) &&
      s.succeeded == s.laneCount (·.phase == .succeeded) &&
      s.failed == s.laneCount (·.phase == .failed)) = true := by
    have consistent := rest.consistent status
    rw [consistent.open_eq, consistent.waiting_eq, consistent.succeeded_eq, consistent.failed_eq]
    simp
  have current : (s.status == runStatus s) = true := by simp [← status]
  have won : (s.winner.all fun winner =>
      (s.lanes.get? winner).any (·.phase == .succeeded)) = true := by
    cases winner : s.winner with
    | none => rfl
    | some l =>
      obtain ⟨lane, here, success⟩ := rest.winner l winner
      simp [here, success]
  -- Each pending intent is of a lane, and no two are for one operation.
  obtain ⟨operations, intents, pending⟩ :
      ∃ found, recoverIntents s s.intents.entries [] = .ok found ∧
        ∀ operation, operation ∈ found ↔ operation ∈ ([] : List (String × EffectType)) ∨
          operation ∈ s.intents.entries.map fun e => (e.2.effect.laneId, e.2.effect.type) := by
    apply recoverIntents_ok
    · intro key entry member
      have pending := (Dictionary.mem_entries_iff ..).mp member
      obtain ⟨lane, here⟩ := Option.isSome_iff_exists.mp (rest.owner key entry pending)
      have tended := rest.tended _ lane here
      exact ⟨lane, here, rest.id_eq _ lane here, (tended.named key entry pending rfl).1,
        (tended.suits key entry pending rfl).1.symm, rest.canExecute pending here⟩
    · refine List.Nodup.map_on ?_ (List.Nodup.of_map Prod.fst s.intents.nodup)
      rintro ⟨key, entry⟩ member ⟨key', entry'⟩ member' same
      rw [Dictionary.mem_entries_iff] at member member'
      simp only [Prod.mk.injEq] at same
      obtain ⟨lane, here⟩ := Option.isSome_iff_exists.mp (rest.owner key entry member)
      have keys := (rest.tended _ lane here).sole key entry key' entry' member member' rfl
        same.1.symm same.2
      subst keys
      rw [member] at member'
      cases member'
      rfl
    · simp
  have listed : ∀ {l type}, Pends s.intents l type → (l, type) ∈ operations := by
    rintro l type ⟨key, entry, here, own, kind⟩
    rw [pending]
    refine .inr (List.mem_map.mpr ⟨(key, entry), (Dictionary.mem_entries_iff ..).mpr here, ?_⟩)
    rw [own, kind]
  have awaited : s.lanes.values.forM (fun lane =>
      require (lane.required.all fun type => operations.contains (lane.id, type))
        (.error "Missing lifecycle intent")) = .ok PUnit.unit.{1} := by
    apply forM_of_each
    intro lane member
    obtain ⟨l, here⟩ := entry_of_value lane member
    apply require_of_true
    cases required : lane.required with
    | none => rfl
    | some type =>
      have owed := (rest.tended l lane here).owed ⟨trivial, fun loosely => loosely.elim⟩ type required
      simp [rest.id_eq l lane here, listed owed]
  have merging : (s.mergeStatus != .pending ||
      s.winner.any (fun winner => operations.contains (winner, .merge))) = true := by
    by_cases merge : s.mergeStatus = .pending
    · obtain ⟨l, winner, pends⟩ := rest.promised trivial merge
      simp [winner, listed pends]
    · simp [merge]
  unfold recover
  rw [require_of_true rest.valid]
  dsimp only [bind, Except.bind]
  simp only [require_of_true count, places, lanes, receipts, spawned, require_of_true counters,
    require_of_true current, require_of_true won, intents, awaited, require_of_true merging]
  rfl

end Ace.Orchestrator
