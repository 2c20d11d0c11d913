import Ace.Client.SnapshotMerge
import Ace.Properties.HistoryPages

/-!
# Resuming a transcript leaves no hole

What a lane keeps is a suffix of its held items that are older than the snapshot's part of it.
A lane is complete from the oldest item it keeps, since the held items of a lane are its newest.

## Main result

`resumeTranscript_sound`
-/

namespace Ace.Client

open Window

/-- An item of a thread: when it was created, whose it is, and what it says. -/
structure Entry (α : Type) where
  seq : Nat
  agentId : Option String
  complete : Bool
  item : α
  deriving DecidableEq

abbrev ThreadItems (α : Type) := String → Option (Entry α)

variable {α : Type} {rootAgentId : Option String} {thread : ThreadItems α}

def Entry.root (rootAgentId : Option String) (entry : Entry α) : Bool :=
  inRootLane entry.agentId rootAgentId

/-- At or after a cursor: everything is after null. -/
def AtOrAfter (before : Option Nat) (seq : Nat) : Prop := ∀ cursor, before = some cursor →
  cursor ≤ seq

/-- A holder of part of a thread: it tells the truth about what it holds, oldest first, and it
holds every item at or after its cursor and one newest run of each lane. -/
structure Holder (rootAgentId : Option String) (thread : ThreadItems α) (side : TranscriptSide) :
    Prop where
  truthful : ∀ id ∈ side.order, ∃ entry, thread id = some entry ∧ side.seq id = some entry.seq ∧
    side.agentOf id = entry.agentId ∧ side.complete id = entry.complete
  sorted : side.order.Pairwise fun a b => (side.seq a).getD 0 < (side.seq b).getD 0
  covers : ∀ before, side.before = some before → ∀ id entry, thread id = some entry →
    AtOrAfter before entry.seq → id ∈ side.order
  newest : ∀ older ∈ side.order, ∀ oldest, thread older = some oldest →
    ∀ id entry, thread id = some entry → entry.root rootAgentId = oldest.root rootAgentId →
    oldest.seq ≤ entry.seq → id ∈ side.order

/-- What happens to a thread between a cursor and a later snapshot: an item keeps its owner and
its place, new items come after the cursor, and a finished item is neither changed nor deleted. -/
structure Advances (old : ThreadItems α) (cursor : Nat) (new : ThreadItems α) : Prop where
  placed : ∀ id entry, new id = some entry → entry.seq ≤ cursor →
    ∃ before, old id = some before ∧ before.seq = entry.seq ∧ before.agentId = entry.agentId
  finished : ∀ id entry, old id = some entry → entry.complete → new id = some entry

/-! ### Cursors of a lane -/

variable {side : TranscriptSide}

theorem Holder.inLane_eq (holds : Holder rootAgentId thread side) {id : String} {entry : Entry α}
    (member : id ∈ side.order) (found : thread id = some entry) (root : Bool) :
    inLane rootAgentId root side id = (entry.root rootAgentId == root) := by
  obtain ⟨known, same, -, agent, -⟩ := holds.truthful id member
  cases found.symm.trans same
  rw [inLane, agent, Entry.root]

theorem Holder.seq_eq (holds : Holder rootAgentId thread side) {id : String} {entry : Entry α}
    (member : id ∈ side.order) (found : thread id = some entry) : side.seq id = some entry.seq := by
  obtain ⟨known, same, seq, -⟩ := holds.truthful id member
  cases found.symm.trans same
  exact seq

theorem laneBefore_cases (order : List String) (seq : String → Option Nat)
    (lane : String → Bool) (before : Option Nat) :
    laneBefore order seq lane (some before) = some before ∨
    ∃ cursor id value, before = some cursor ∧ order.find? lane = some id ∧ seq id = some value ∧
      laneBefore order seq lane (some before) = some (some (min value cursor)) := by
  cases before with
  | none => exact .inl rfl
  | some cursor =>
    rw [laneBefore]
    split
    · exact .inl rfl
    next id found =>
      split
      · exact .inl rfl
      next value known => exact .inr ⟨cursor, id, value, rfl, found, known, rfl⟩

theorem Holder.lane_complete (holds : Holder rootAgentId thread side) {root : Bool}
    {start : Option Nat}
    (from_ : laneBefore side.order side.seq (inLane rootAgentId root side) side.before = some start)
    {id : String} {entry : Entry α} (found : thread id = some entry)
    (own : entry.root rootAgentId = root) (after : AtOrAfter start entry.seq) : id ∈ side.order := by
  match known : side.before with
  | none => simp [known, laneBefore] at from_
  | some before =>
    rw [known] at from_
    rcases laneBefore_cases side.order side.seq (inLane rootAgentId root side) before
      with same | held
    · cases same.symm.trans from_
      exact holds.covers _ known id entry found after
    · obtain ⟨cursor, oldest, value, rfl, first, place, least⟩ := held
      cases least.symm.trans from_
      have member := List.mem_of_find?_eq_some first
      obtain ⟨known', same, seq, -⟩ := holds.truthful oldest member
      cases place.symm.trans seq
      have reached := after _ rfl
      -- Either it is after the holder's cursor, or it is newer than the oldest held of its lane.
      rcases Nat.le_total cursor known'.seq with later | earlier
      · apply holds.covers _ known id entry found
        rintro _ ⟨⟩
        omega
      · apply holds.newest oldest member known' same id entry found _ (by omega)
        have lane := List.find?_some first
        rw [holds.inLane_eq member same, beq_iff_eq] at lane
        rw [own, lane]

theorem Holder.lane_starts (holds : Holder rootAgentId thread side) {root : Bool} {start : Nat}
    (from_ : laneBefore side.order side.seq (inLane rootAgentId root side) side.before =
      some (some start)) {id : String} (member : id ∈ side.order)
    (own : inLane rootAgentId root side id) : start ≤ (side.seq id).getD 0 := by
  match known : side.before with
  | none => simp [known, laneBefore] at from_
  | some none => simp [known, laneBefore] at from_
  | some (some cursor) =>
    rw [known, laneBefore] at from_
    split at from_
    next absent => simp [List.find?_eq_none.mp absent id member] at own
    next oldest first =>
      obtain ⟨_, same, seq, -⟩ := holds.truthful oldest (List.mem_of_find?_eq_some first)
      rw [seq] at from_
      simp only [Option.some.injEq] at from_
      obtain ⟨-, before, after, split, others⟩ := List.find?_eq_some_iff_append.mp first
      have sorted := holds.sorted
      rw [split] at sorted member
      rcases List.mem_append.mp member with older | later
      · simp [own] at others
        exact absurd own (by simpa using others id older)
      · rcases List.mem_cons.mp later with rfl | newer
        · rw [seq, Option.getD_some]
          omega
        · have less := (List.pairwise_cons.mp (List.pairwise_append.mp sorted).2.1).1 id newer
          rw [seq, Option.getD_some] at less
          omega

/-! ### What a lane keeps -/

/-- The items of a lane that are older than `start`. -/
def olderOf (held : TranscriptSide) (own : String → Bool) (start : Nat) (order : List String) :
    List String :=
  order.filter fun id => own id && decide ((held.seq id).getD 0 < start)

theorem laneRun_suffix {held : TranscriptSide} {own : String → Bool} {start : Nat}
    {order : List String} (known : ∀ id ∈ order, (held.seq id).isSome)
    (sorted : order.Pairwise fun a b => (held.seq a).getD 0 < (held.seq b).getD 0) :
    ∀ {run : List String} {whole : Bool}, (∀ id ∈ run, held.complete id) →
    ∃ run' whole', laneRun held own start order run whole = some (run', whole') ∧
      run' <:+ run ++ olderOf held own start order ∧ (∀ id ∈ run', held.complete id) ∧
      (whole' → whole ∧ run' = run ++ olderOf held own start order) := by
  induction order with
  | nil =>
    intro run whole finished
    exact ⟨run, whole, rfl, by simp [olderOf], finished, fun all => ⟨all, by simp [olderOf]⟩⟩
  | cons id rest ih =>
    intro run whole finished
    have later := (List.pairwise_cons.mp sorted).1
    have ih := @ih (fun x member => known x (List.mem_cons_of_mem id member))
      (List.pairwise_cons.mp sorted).2
    rw [laneRun]
    by_cases own' : own id
    · obtain ⟨seq, place⟩ := Option.isSome_iff_exists.mp (known id List.mem_cons_self)
      rw [if_neg (by simp [own']), place]
      simp only
      split
      next reached =>
        -- The order is sorted, so nothing further on is older either.
        have none_ : olderOf held own start (id :: rest) = [] := by
          rw [olderOf, List.filter_eq_nil_iff]
          intro x member
          rcases List.mem_cons.mp member with rfl | further
          · simp [place, reached]
          · have less := later x further
            rw [place, Option.getD_some] at less
            have : ¬(held.seq x).getD 0 < start := by omega
            simp [this]
        rw [none_, List.append_nil]
        exact ⟨run, whole, rfl, List.suffix_refl _, finished, fun all => ⟨all, rfl⟩⟩
      next older =>
        have split_ : olderOf held own start (id :: rest) = id :: olderOf held own start rest := by
          rw [olderOf, List.filter_cons, if_pos (by simp [own', place]; omega), olderOf]
        rw [split_]
        split
        next done =>
          obtain ⟨run', whole', result, suffix, finished', all⟩ := @ih (run ++ [id]) whole
            (by simpa [or_imp, forall_and, done] using finished)
          exact ⟨run', whole', result, by simpa using suffix, finished', by simpa using all⟩
        next _ =>
          obtain ⟨run', whole', result, suffix, finished', all⟩ := @ih [] false (by simp)
          refine ⟨run', whole', result, ?_, finished', ?_⟩
          · exact suffix.trans ((List.suffix_cons id _).trans (List.suffix_append run _))
          · exact fun keeps => absurd (all keeps).1 Bool.false_ne_true
    · rw [if_pos (by simp [own'])]
      have split_ : olderOf held own start (id :: rest) = olderOf held own start rest := by
        rw [olderOf, List.filter_cons, if_neg (by simp [own']), olderOf]
      rw [split_]
      exact ih finished

theorem mem_suffix_of_le {seq : String → Nat} {run all : List String}
    (sorted : all.Pairwise fun a b => seq a < seq b) (suffix : run <:+ all) {id later : String}
    (member : id ∈ run) (listed : later ∈ all) (order : seq id ≤ seq later) : later ∈ run := by
  obtain ⟨cut, rfl⟩ := suffix
  rcases List.mem_append.mp listed with before | inRun
  · have less := (List.pairwise_append.mp sorted).2.2 later before id member
    omega
  · exact inRun

/-! ### One lane -/

section Lanes

variable {old new : ThreadItems α} {held incoming : TranscriptSide} {cursor : Nat}

/-- What one round keeps of a lane, and the cursor that it asks for. -/
structure LaneKept (rootAgentId : Option String) (old new : ThreadItems α)
    (held incoming : TranscriptSide) (root : Bool) (run : List String) (bound : Option Nat) :
    Prop where
  sublist : run.Sublist held.order
  kept : ∀ id ∈ run, inLane rootAgentId root held id ∧ held.complete id ∧
    ∃ start, laneBefore incoming.order incoming.seq (inLane rootAgentId root incoming)
      incoming.before = some (some start) ∧ (held.seq id).getD 0 < start
  complete : ∀ id entry, new id = some entry → entry.root rootAgentId = root →
    AtOrAfter bound entry.seq → id ∈ run ∨ id ∈ incoming.order
  newest : ∀ oldest ∈ run, ∀ first, old oldest = some first →
    ∀ id entry, new id = some entry → entry.root rootAgentId = root → first.seq ≤ entry.seq →
    id ∈ run ∨ id ∈ incoming.order

theorem LaneKept.nothing (incomingHolds : Holder rootAgentId new incoming) {root : Bool}
    {start : Option Nat}
    (from_ : laneBefore incoming.order incoming.seq (inLane rootAgentId root incoming)
      incoming.before = some start) :
    LaneKept rootAgentId old new held incoming root [] start where
  sublist := List.nil_sublist _
  kept := by simp
  complete id entry found own after := .inr (incomingHolds.lane_complete from_ found own after)
  newest := by simp

theorem LaneKept.of_suffix (heldHolds : Holder rootAgentId old held)
    (incomingHolds : Holder rootAgentId new incoming) (advances : Advances old cursor new)
    {root : Bool} {start : Nat}
    (from_ : laneBefore incoming.order incoming.seq (inLane rootAgentId root incoming)
      incoming.before = some (some start)) (meets : start ≤ cursor + 1) {run : List String}
    (suffix : run <:+ olderOf held (inLane rootAgentId root held) start held.order)
    (finished : ∀ id ∈ run, held.complete id) {bound : Option Nat}
    (reaches : ∀ id entry, old id = some entry → entry.root rootAgentId = root →
      entry.seq < start → AtOrAfter bound entry.seq → id ∈ run) :
    LaneKept rootAgentId old new held incoming root run bound where
  sublist := suffix.sublist.trans List.filter_sublist
  kept id member := by
    obtain ⟨-, own⟩ := List.mem_filter.mp (suffix.subset member)
    rw [Bool.and_eq_true, decide_eq_true_iff] at own
    exact ⟨own.1, finished id member, start, from_, own.2⟩
  complete id entry found own after := by
    rcases Nat.lt_or_ge entry.seq start with older | covered
    · obtain ⟨before, was, place, agent⟩ := advances.placed id entry found (by omega)
      have own' : before.root rootAgentId = root := by rw [Entry.root, agent, ← own, Entry.root]
      rw [← place] at after older
      exact .inl (reaches id before was own' older after)
    · refine .inr (incomingHolds.lane_complete from_ found own ?_)
      rintro _ ⟨⟩
      exact covered
  newest oldest member first was id entry found own order := by
    rcases Nat.lt_or_ge entry.seq start with older | covered
    · obtain ⟨before, was', place, agent⟩ := advances.placed id entry found (by omega)
      have own' : before.root rootAgentId = root := by rw [Entry.root, agent, ← own, Entry.root]
      obtain ⟨listed, lane⟩ := List.mem_filter.mp (suffix.subset member)
      rw [Bool.and_eq_true, decide_eq_true_iff, heldHolds.inLane_eq listed was, beq_iff_eq] at lane
      -- The held items of a lane are its newest ones, so this one is held too.
      have isHeld := heldHolds.newest oldest listed first was id before was'
        (own'.trans lane.1.symm) (by omega)
      have isOlder : id ∈ olderOf held (inLane rootAgentId root held) start held.order := by
        rw [olderOf, List.mem_filter, Bool.and_eq_true, decide_eq_true_iff,
          heldHolds.inLane_eq isHeld was', own', heldHolds.seq_eq isHeld was']
        exact ⟨isHeld, by simp, by rw [Option.getD_some]; omega⟩
      refine .inl (mem_suffix_of_le (heldHolds.sorted.filter _) suffix member isOlder ?_)
      rw [heldHolds.seq_eq isHeld was', heldHolds.seq_eq listed was, Option.getD_some,
        Option.getD_some]
      omega
    · refine .inr (incomingHolds.lane_complete from_ found own ?_)
      rintro _ ⟨⟩
      exact covered

theorem atOrAfter_raise {state : Joining} {lane seq : Nat} :
    AtOrAfter (state.raise lane).joined seq ↔
      AtOrAfter state.joined seq ∧ AtOrAfter (some lane) seq := by
  cases joined : state.joined with
  | none => simp [Joining.raise, joined, AtOrAfter]
  | some cursor => simp [Joining.raise, joined, AtOrAfter]

/-- What a round makes of the state of the loop. -/
def Rounds (rootAgentId : Option String) (old new : ThreadItems α)
    (held incoming : TranscriptSide) (root : Bool) (state state' : Joining) : Prop :=
  ∃ run bound, LaneKept rootAgentId old new held incoming root run bound ∧
    state'.kept = state.kept ++ run ∧
    (∀ seq, AtOrAfter state'.joined seq ↔ AtOrAfter state.joined seq ∧ AtOrAfter bound seq) ∧
    (state.any = state.joined.isSome → state'.any = state'.joined.isSome)

theorem LaneKept.raised {root : Bool} {run : List String} {lane : Nat} {state : Joining}
    (keeps : LaneKept rootAgentId old new held incoming root run (some lane)) :
    Rounds rootAgentId old new held incoming root state
      (Joining.raise { state with kept := state.kept ++ run } lane) :=
  ⟨run, some lane, keeps, rfl, fun _ => atOrAfter_raise, fun _ => rfl⟩

theorem LaneKept.unbounded {root : Bool} {run : List String} {state : Joining}
    (keeps : LaneKept rootAgentId old new held incoming root run none) :
    Rounds rootAgentId old new held incoming root state
      { state with kept := state.kept ++ run } :=
  ⟨run, none, keeps, rfl, fun _ => by simp [AtOrAfter], id⟩

variable (heldHolds : Holder rootAgentId old held) (incomingHolds : Holder rootAgentId new incoming)
  (advances : Advances old cursor new)

include heldHolds incomingHolds advances

theorem joinLane_rounds (defined : incoming.before.isSome) (state : Joining) (root : Bool) :
    ∃ state', joinLane held cursor incoming rootAgentId state root = some state' ∧
      Rounds rootAgentId old new held incoming root state state' := by
  obtain ⟨before, known⟩ := Option.isSome_iff_exists.mp defined
  have nothing : ∀ lane, LaneKept rootAgentId old new held incoming root [] (some lane) →
      Rounds rootAgentId old new held incoming root state (state.raise lane) := by
    intro lane keeps
    have raised : Rounds rootAgentId old new held incoming root state _ := keeps.raised
    simpa using raised
  rw [joinLane]
  simp only
  split
  next undefined =>
    rw [known] at undefined
    rcases laneBefore_cases incoming.order incoming.seq (inLane rootAgentId root incoming) before
      with same | other
    · simp [undefined] at same
    · obtain ⟨_, _, _, -, -, -, same⟩ := other
      simp [undefined] at same
  next whole =>
    refine ⟨state, rfl, ?_⟩
    have keeps : Rounds rootAgentId old new held incoming root state _ :=
      (LaneKept.nothing incomingHolds whole).unbounded
    simpa using keeps
  next start from_ =>
    have keepsNothing : LaneKept rootAgentId old new held incoming root [] (some start) :=
      .nothing incomingHolds from_
    split
    · exact ⟨_, rfl, nothing start keepsNothing⟩
    next heldFrom heldCursor =>
      split
      next meets =>
        obtain ⟨run, whole, ran, suffix, finished, all⟩ := @laneRun_suffix held
          (inLane rootAgentId root held) start held.order
          (fun id member => by
            obtain ⟨_, -, seq, -⟩ := heldHolds.truthful id member
            rw [seq, Option.isSome_some])
          heldHolds.sorted [] true (by simp)
        rw [List.nil_append] at suffix all
        rw [ran, Option.map_some]
        refine ⟨_, rfl, ?_⟩
        have isOlder : ∀ id ∈ held.order, ∀ entry, old id = some entry →
            entry.root rootAgentId = root → entry.seq < start →
            id ∈ olderOf held (inLane rootAgentId root held) start held.order := by
          intro id member entry found own older
          rw [olderOf, List.mem_filter, heldHolds.inLane_eq member found, own,
            heldHolds.seq_eq member found]
          exact ⟨member, by simpa using older⟩
        cases whole with
        | true =>
          obtain ⟨-, rfl⟩ := all rfl
          -- None of the lane's older held items is unfinished.
          have keeps : ∀ bound, (∀ seq, AtOrAfter bound seq → seq < start →
              AtOrAfter heldFrom seq) → LaneKept rootAgentId old new held incoming root
              (olderOf held (inLane rootAgentId root held) start held.order) bound := by
            intro bound reaches
            refine .of_suffix heldHolds incomingHolds advances from_ meets (List.suffix_refl _)
              finished ?_
            intro id entry found own older after
            have member := heldHolds.lane_complete heldCursor found own
              (reaches entry.seq after older)
            exact isOlder id member entry found own older
          cases heldFrom with
          | none => exact (keeps none fun _ _ _ => nofun).unbounded
          | some heldFrom =>
            apply LaneKept.raised
            apply keeps
            intro seq after older _ same
            cases same
            have least := after _ rfl
            omega
        | false =>
          cases run with
          | nil => simpa using nothing start keepsNothing
          | cons first rest =>
            obtain ⟨listed, lane⟩ := List.mem_filter.mp (suffix.subset List.mem_cons_self)
            rw [Bool.and_eq_true, decide_eq_true_iff] at lane
            obtain ⟨oldest, was, place, -⟩ := heldHolds.truthful first listed
            apply LaneKept.raised
            refine .of_suffix heldHolds incomingHolds advances from_ meets suffix finished ?_
            intro id entry found own older after
            have least := after _ rfl
            rw [place, Option.getD_some] at least lane
            rw [heldHolds.inLane_eq listed was, beq_iff_eq] at lane
            -- What is newer than the first kept item is held, and after it in the lane.
            have member := heldHolds.newest first listed oldest was id entry found
              (own.trans lane.1.symm) (by omega)
            refine mem_suffix_of_le (heldHolds.sorted.filter _) suffix List.mem_cons_self
              (isOlder id member entry found own older) ?_
            rw [place, heldHolds.seq_eq member found, Option.getD_some, Option.getD_some]
            omega
      next _ => exact ⟨_, rfl, nothing start keepsNothing⟩

end Lanes

/-! ### The joined transcript -/

section Joined

variable {old new : ThreadItems α} {held incoming : TranscriptSide} {cursor : Nat}

theorem strict_of_le {seq : String → Nat} {ids : List String}
    (sorted : ids.Pairwise fun a b => seq a ≤ seq b) (distinct : ids.Nodup)
    (apart : ∀ a ∈ ids, ∀ b ∈ ids, seq a = seq b → a = b) :
    ids.Pairwise fun a b => seq a < seq b := by
  refine (sorted.and distinct).imp_of_mem ?_
  rintro a b inA inB ⟨order, differ⟩
  exact Nat.lt_of_le_of_ne order fun same => differ (apart a inA b inB same)

theorem Holder.apart (holds : Holder rootAgentId thread side) {a b : String} (inA : a ∈ side.order)
    (inB : b ∈ side.order) (same : (side.seq a).getD 0 = (side.seq b).getD 0) : a = b := by
  have pairs : side.order.Pairwise fun a b =>
      (side.seq a).getD 0 = (side.seq b).getD 0 → a = b :=
    holds.sorted.imp fun less same => absurd same (Nat.ne_of_lt less)
  have flipped := pairs.imp fun eq same => (eq (Eq.symm same)).symm
  exact List.Pairwise.forall_of_forall_of_flip (fun _ _ _ => rfl) pairs flipped inA inB same

theorem Holder.nodup (holds : Holder rootAgentId thread side) : side.order.Nodup :=
  holds.sorted.imp fun less same => absurd (same ▸ less) (Nat.lt_irrefl _)

variable (heldHolds : Holder rootAgentId old held) (incomingHolds : Holder rootAgentId new incoming)
  (advances : Advances old cursor new) {resumed : Resumed}

include heldHolds incomingHolds advances

theorem resumeTranscript_lanes
    (result : resumeTranscript held cursor incoming rootAgentId = some resumed) :
    ∃ roots others rootBound otherBound,
      LaneKept rootAgentId old new held incoming true roots rootBound ∧
      LaneKept rootAgentId old new held incoming false others otherBound ∧
      resumed.kept = (roots ++ others).mergeSort
        (fun a b => (held.seq a).getD 0 ≤ (held.seq b).getD 0) ∧
      ∀ seq, AtOrAfter resumed.before seq ↔ AtOrAfter rootBound seq ∧ AtOrAfter otherBound seq := by
  by_cases defined : incoming.before.isSome
  · obtain ⟨first, joins, roots, rootBound, rootKept, keptFirst, boundFirst, anyFirst⟩ :=
      joinLane_rounds heldHolds incomingHolds advances defined {} true
    obtain ⟨last, joins', others, otherBound, otherKept, keptLast, boundLast, anyLast⟩ :=
      joinLane_rounds heldHolds incomingHolds advances defined first false
    have both : [true, false].foldlM (joinLane held cursor incoming rootAgentId) {} =
        some last := by
      simp [joins, joins']
    rw [resumeTranscript, both, Option.bind_some] at result
    split at result
    next => simp at result
    next =>
      cases result
      refine ⟨roots, others, rootBound, otherBound, rootKept, otherKept, ?_, ?_⟩
      · simp only
        rw [keptLast, keptFirst, List.nil_append]
      · intro seq
        have any := anyLast (anyFirst rfl)
        have before : (if last.any then last.joined else none) = last.joined := by
          rw [any]
          cases last.joined <;> rfl
        simp only
        rw [before, boundLast, boundFirst]
        simp [AtOrAfter]
  · -- Without a cursor of the snapshot no lane keeps anything.
    have undefined : incoming.before = none := by simpa using defined
    simp [resumeTranscript, joinLane, undefined, laneBefore] at result

theorem mem_kept (result : resumeTranscript held cursor incoming rootAgentId = some resumed)
    {id : String} (member : id ∈ resumed.kept) :
    id ∈ held.order ∧ held.complete id ∧ ∃ entry start, old id = some entry ∧
      new id = some entry ∧ held.seq id = some entry.seq ∧
      laneBefore incoming.order incoming.seq
        (inLane rootAgentId (entry.root rootAgentId) incoming) incoming.before =
          some (some start) ∧ entry.seq < start := by
  obtain ⟨roots, others, _, _, rootKept, otherKept, kept, -⟩ :=
    resumeTranscript_lanes heldHolds incomingHolds advances result
  rw [kept, (List.mergeSort_perm _ _).mem_iff, List.mem_append] at member
  have fromLane : ∀ {root run bound},
      LaneKept rootAgentId old new held incoming root run bound → id ∈ run →
      id ∈ held.order ∧ held.complete id ∧ ∃ entry start, old id = some entry ∧
        new id = some entry ∧ held.seq id = some entry.seq ∧
        laneBefore incoming.order incoming.seq
          (inLane rootAgentId (entry.root rootAgentId) incoming) incoming.before =
            some (some start) ∧ entry.seq < start := by
    intro root run bound keeps inRun
    obtain ⟨lane, finished, start, from_, older⟩ := keeps.kept id inRun
    have listed := keeps.sublist.subset inRun
    obtain ⟨entry, was, place, -, done⟩ := heldHolds.truthful id listed
    rw [heldHolds.inLane_eq listed was, beq_iff_eq] at lane
    rw [place, Option.getD_some] at older
    exact ⟨listed, finished, entry, start, was,
      advances.finished id entry was (done ▸ finished), place, lane ▸ from_, older⟩
  rcases member with inRoots | inOthers
  · exact fromLane rootKept inRoots
  · exact fromLane otherKept inOthers

theorem kept_nodup (result : resumeTranscript held cursor incoming rootAgentId = some resumed) :
    resumed.kept.Nodup := by
  obtain ⟨roots, others, _, _, rootKept, otherKept, kept, -⟩ :=
    resumeTranscript_lanes heldHolds incomingHolds advances result
  rw [kept, (List.mergeSort_perm _ _).nodup_iff, List.nodup_append]
  refine ⟨heldHolds.nodup.sublist rootKept.sublist, heldHolds.nodup.sublist otherKept.sublist, ?_⟩
  rintro id inRoots _ inOthers rfl
  -- No item reads in both lanes.
  have root := (rootKept.kept id inRoots).1
  have other := (otherKept.kept id inOthers).1
  simp only [inLane, beq_iff_eq] at root other
  exact absurd (root.symm.trans other) (by decide)

theorem kept_sorted (result : resumeTranscript held cursor incoming rootAgentId = some resumed) :
    resumed.kept.Pairwise fun a b => (held.seq a).getD 0 < (held.seq b).getD 0 := by
  apply strict_of_le _ (kept_nodup heldHolds incomingHolds advances result)
  · intro a inA b inB same
    exact heldHolds.apart (mem_kept heldHolds incomingHolds advances result inA).1
      (mem_kept heldHolds incomingHolds advances result inB).1 same
  · obtain ⟨roots, others, _, _, -, -, kept, -⟩ :=
      resumeTranscript_lanes heldHolds incomingHolds advances result
    rw [kept]
    have sorted := @List.pairwise_mergeSort _
      (fun a b => decide ((held.seq a).getD 0 ≤ (held.seq b).getD 0))
      (fun a b c => by simpa using fun (first : _ ≤ _) => Nat.le_trans first)
      (fun a b => by simpa using Nat.le_total _ _) (roots ++ others)
    simpa using sorted

theorem kept_disjoint (result : resumeTranscript held cursor incoming rootAgentId = some resumed)
    {id : String} (member : id ∈ resumed.kept) : id ∉ incoming.order := by
  intro inSnapshot
  obtain ⟨-, -, entry, start, -, now, -, from_, older⟩ :=
    mem_kept heldHolds incomingHolds advances result member
  have lane : inLane rootAgentId (entry.root rootAgentId) incoming id := by
    rw [incomingHolds.inLane_eq inSnapshot now, beq_self_eq_true]
  have later := incomingHolds.lane_starts from_ inSnapshot lane
  rw [incomingHolds.seq_eq inSnapshot now, Option.getD_some] at later
  omega

theorem kept_covers (result : resumeTranscript held cursor incoming rootAgentId = some resumed)
    {id : String} {entry : Entry α} (found : new id = some entry)
    (after : AtOrAfter resumed.before entry.seq) : id ∈ resumed.kept ∨ id ∈ incoming.order := by
  obtain ⟨roots, others, _, _, rootKept, otherKept, kept, bound⟩ :=
    resumeTranscript_lanes heldHolds incomingHolds advances result
  obtain ⟨afterRoot, afterOther⟩ := (bound entry.seq).mp after
  rw [kept, (List.mergeSort_perm _ _).mem_iff, List.mem_append]
  cases lane : entry.root rootAgentId with
  | true => exact (rootKept.complete id entry found lane afterRoot).imp_left .inl
  | false => exact (otherKept.complete id entry found lane afterOther).imp_left .inr

theorem kept_newest (result : resumeTranscript held cursor incoming rootAgentId = some resumed)
    {oldest : String} (member : oldest ∈ resumed.kept) {first : Entry α}
    (was : old oldest = some first) {id : String} {entry : Entry α} (found : new id = some entry)
    (lane : entry.root rootAgentId = first.root rootAgentId) (newer : first.seq ≤ entry.seq) :
    id ∈ resumed.kept ∨ id ∈ incoming.order := by
  obtain ⟨roots, others, _, _, rootKept, otherKept, kept, -⟩ :=
    resumeTranscript_lanes heldHolds incomingHolds advances result
  rw [kept, (List.mergeSort_perm _ _).mem_iff, List.mem_append] at member ⊢
  have ofLane : ∀ {root run bound},
      LaneKept rootAgentId old new held incoming root run bound → oldest ∈ run →
      id ∈ run ∨ id ∈ incoming.order := by
    intro root run bound keeps inRun
    have own := (keeps.kept oldest inRun).1
    rw [heldHolds.inLane_eq (keeps.sublist.subset inRun) was, beq_iff_eq] at own
    exact keeps.newest oldest inRun first was id entry found (lane.trans own) newer
  rcases member with inRoots | inOthers
  · exact (ofLane rootKept inRoots).imp_left .inl
  · exact (ofLane otherKept inOthers).imp_left .inr

theorem joined_distinct
    (result : resumeTranscript held cursor incoming rootAgentId = some resumed) :
    (resumed.kept ++ incoming.order).Nodup := by
  rw [List.nodup_append]
  refine ⟨kept_nodup heldHolds incomingHolds advances result, incomingHolds.nodup, ?_⟩
  rintro id inKept _ inSnapshot rfl
  exact kept_disjoint heldHolds incomingHolds advances result inKept inSnapshot

theorem joined_perm (result : resumeTranscript held cursor incoming rootAgentId = some resumed) :
    (joinedSide held incoming resumed).order.Perm (resumed.kept ++ incoming.order) := by
  simp only [joinedSide]
  rw [mergeBySeq_eq _ (joined_distinct heldHolds incomingHolds advances result)]
  exact plainMerge_perm _ _ _

theorem joined_truthful
    (result : resumeTranscript held cursor incoming rootAgentId = some resumed) {id : String}
    (member : id ∈ resumed.kept ∨ id ∈ incoming.order) :
    ∃ entry, new id = some entry ∧ (joinedSide held incoming resumed).seq id = some entry.seq ∧
      (joinedSide held incoming resumed).agentOf id = entry.agentId ∧
      (joinedSide held incoming resumed).complete id = entry.complete := by
  rcases member with inKept | inSnapshot
  · have absent := kept_disjoint heldHolds incomingHolds advances result inKept
    obtain ⟨listed, -, entry, _, was, now, -⟩ :=
      mem_kept heldHolds incomingHolds advances result inKept
    obtain ⟨known, same, seq, agent, complete⟩ := heldHolds.truthful id listed
    cases same.symm.trans was
    exact ⟨entry, now, by simp [joinedSide, absent, inKept, seq],
      by simp [joinedSide, absent, inKept, agent],
      by simp [joinedSide, absent, inKept, complete]⟩
  · obtain ⟨entry, now, seq, agent, complete⟩ := incomingHolds.truthful id inSnapshot
    exact ⟨entry, now, by simp [joinedSide, inSnapshot, seq],
      by simp [joinedSide, inSnapshot, agent], by simp [joinedSide, inSnapshot, complete]⟩

theorem joined_holder
    (distinct : ∀ a b first second, new a = some first → new b = some second →
      first.seq = second.seq → a = b)
    (result : resumeTranscript held cursor incoming rootAgentId = some resumed) :
    Holder rootAgentId new (joinedSide held incoming resumed) := by
  have perm := joined_perm heldHolds incomingHolds advances result
  have listed : ∀ id, id ∈ (joinedSide held incoming resumed).order ↔
      id ∈ resumed.kept ∨ id ∈ incoming.order := fun id => by
    rw [perm.mem_iff, List.mem_append]
  have truthful := fun id (member : id ∈ resumed.kept ∨ id ∈ incoming.order) =>
    joined_truthful heldHolds incomingHolds advances result member
  constructor
  case truthful =>
    intro id member
    exact truthful id ((listed id).mp member)
  case sorted =>
    apply strict_of_le
    · have place : ∀ id ∈ resumed.kept,
          ((joinedSide held incoming resumed).seq id).getD 0 = (held.seq id).getD 0 := by
        intro id inKept
        have absent := kept_disjoint heldHolds incomingHolds advances result inKept
        simp [joinedSide, absent, inKept]
      have place' : ∀ id ∈ incoming.order,
          ((joinedSide held incoming resumed).seq id).getD 0 = (incoming.seq id).getD 0 := by
        intro id inSnapshot
        obtain ⟨_, -, seq, -⟩ := incomingHolds.truthful id inSnapshot
        simp [joinedSide, inSnapshot, seq]
      have older : resumed.kept.Pairwise fun a b =>
          ((joinedSide held incoming resumed).seq a).getD 0 ≤
            ((joinedSide held incoming resumed).seq b).getD 0 := by
        refine (kept_sorted heldHolds incomingHolds advances result).imp_of_mem ?_
        intro a b inA inB less
        rw [place a inA, place b inB]
        exact Nat.le_of_lt less
      have newer : incoming.order.Pairwise fun a b =>
          ((joinedSide held incoming resumed).seq a).getD 0 ≤
            ((joinedSide held incoming resumed).seq b).getD 0 := by
        refine incomingHolds.sorted.imp_of_mem ?_
        intro a b inA inB less
        rw [place' a inA, place' b inB]
        exact Nat.le_of_lt less
      simp only [joinedSide] at older newer ⊢
      rw [mergeBySeq_eq _ (joined_distinct heldHolds incomingHolds advances result)]
      have sorted := plainMerge_sorted (fun id => ((_ : Option Nat).getD 0 : Nat))
        (older.imp Int.ofNat_le.mpr) (newer.imp Int.ofNat_le.mpr)
      exact sorted.imp Int.ofNat_le.mp
    · rw [perm.nodup_iff]
      exact joined_distinct heldHolds incomingHolds advances result
    · intro a inA b inB same
      obtain ⟨first, hasA, seqA, -⟩ := truthful a ((listed a).mp inA)
      obtain ⟨second, hasB, seqB, -⟩ := truthful b ((listed b).mp inB)
      rw [seqA, seqB] at same
      exact distinct a b first second hasA hasB (by simpa using same)
  case covers =>
    rintro _ ⟨⟩ id entry found after
    exact (listed id).mpr (kept_covers heldHolds incomingHolds advances result found after)
  case newest =>
    intro older member oldest was id entry found lane newer
    rw [listed] at member ⊢
    rcases member with inKept | inSnapshot
    · obtain ⟨-, -, first, _, before, now, -⟩ :=
        mem_kept heldHolds incomingHolds advances result inKept
      cases now.symm.trans was
      exact kept_newest heldHolds incomingHolds advances result inKept before found lane newer
    · exact .inr (incomingHolds.newest older inSnapshot oldest was id entry found lane newer)

/-- A resumed transcript has no hole and nothing stale. What is kept is in order, finished and
held, older than everything the snapshot has of its lane, and now as it was; with the snapshot it
is everything from the joined cursor on, and each lane is whole from its own cursor on. -/
theorem resumeTranscript_sound
    (distinct : ∀ a b first second, new a = some first → new b = some second →
      first.seq = second.seq → a = b)
    (result : resumeTranscript held cursor incoming rootAgentId = some resumed) :
    (resumed.kept.Pairwise fun a b => (held.seq a).getD 0 < (held.seq b).getD 0) ∧
    (∀ id ∈ resumed.kept, id ∈ held.order ∧ held.complete id ∧
      ∃ entry, old id = some entry ∧ new id = some entry ∧ held.seq id = some entry.seq ∧
        (∃ start, laneBefore incoming.order incoming.seq
          (inLane rootAgentId (entry.root rootAgentId) incoming) incoming.before =
            some (some start) ∧ entry.seq < start) ∧
        ∀ other ∈ incoming.order,
          inLane rootAgentId (entry.root rootAgentId) incoming other →
          entry.seq < (incoming.seq other).getD 0) ∧
    (∀ id entry, new id = some entry → AtOrAfter resumed.before entry.seq →
      id ∈ resumed.kept ∨ id ∈ incoming.order) ∧
    ∀ root start,
      laneBefore (joinedSide held incoming resumed).order (joinedSide held incoming resumed).seq
        (inLane rootAgentId root (joinedSide held incoming resumed))
        (joinedSide held incoming resumed).before = some start →
      ∀ id entry, new id = some entry → entry.root rootAgentId = root →
        AtOrAfter start entry.seq → id ∈ resumed.kept ∨ id ∈ incoming.order := by
  refine ⟨kept_sorted heldHolds incomingHolds advances result, ?_, ?_, ?_⟩
  · intro id member
    obtain ⟨listed, finished, entry, start, was, now, place, from_, older⟩ :=
      mem_kept heldHolds incomingHolds advances result member
    refine ⟨listed, finished, entry, was, now, place, ⟨start, from_, older⟩, ?_⟩
    intro other inSnapshot own
    have later := incomingHolds.lane_starts from_ inSnapshot own
    omega
  · intro id entry found after
    exact kept_covers heldHolds incomingHolds advances result found after
  · intro root start from_ id entry found own after
    have holds := joined_holder heldHolds incomingHolds advances distinct result
    have listed := holds.lane_complete from_ found own after
    rwa [(joined_perm heldHolds incomingHolds advances result).mem_iff, List.mem_append] at listed

end Joined

/-! ### A resumption -/

def itemsOf (table : List (String × Entry α)) : ThreadItems α := fun id => table.lookup id

theorem forall_items {table : List (String × Entry α)} {P : String → Entry α → Prop}
    (all : ∀ row ∈ table, P row.1 row.2) :
    ∀ id entry, itemsOf table id = some entry → P id entry := by
  intro id entry found
  exact all (id, entry) (List.lookup_eq_some_iff.mp found |> fun ⟨before, after, split, _⟩ => by
    rw [split]
    simp)

def sampleOld : List (String × Entry String) :=
  [("a", ⟨1, some "r", true, "first"⟩), ("b", ⟨2, some "o", true, "second"⟩),
    ("c", ⟨3, none, false, "thi"⟩), ("d", ⟨4, some "r", true, "fourth"⟩)]

def sampleNew : List (String × Entry String) :=
  [("a", ⟨1, some "r", true, "first"⟩), ("b", ⟨2, some "o", true, "second"⟩),
    ("c", ⟨3, none, true, "third"⟩), ("d", ⟨4, some "r", true, "fourth"⟩),
    ("e", ⟨5, some "r", false, "fi"⟩)]

def sampleSide (table : List (String × Entry String)) (order : List String)
    (before : Option Nat) : TranscriptSide where
  order := order
  seq id := (table.lookup id).map (·.seq)
  agentOf id := (table.lookup id).bind (·.agentId)
  complete id := ((table.lookup id).map (·.complete)).getD false
  before := some before

theorem sampleSide_holder {table : List (String × Entry String)} {order : List String}
    {before : Option Nat} (listed : ∀ id ∈ order, (table.lookup id).isSome)
    (sorted : order.Pairwise fun a b =>
      ((table.lookup a).map (·.seq)).getD 0 < ((table.lookup b).map (·.seq)).getD 0)
    (covers : ∀ row ∈ table, before.all (· ≤ row.2.seq) → row.1 ∈ order)
    (newest : ∀ older ∈ order, ∀ row ∈ table,
      (table.lookup older).all (fun oldest => row.2.root (some "r") == oldest.root (some "r") &&
        decide (oldest.seq ≤ row.2.seq)) → row.1 ∈ order) :
    Holder (some "r") (itemsOf table) (sampleSide table order before) where
  truthful id member := by
    obtain ⟨entry, found⟩ := Option.isSome_iff_exists.mp (listed id member)
    exact ⟨entry, found, by simp [sampleSide, found], by simp [sampleSide, found],
      by simp [sampleSide, found]⟩
  sorted := sorted
  covers := by
    rintro _ ⟨⟩
    apply forall_items
    intro row member after
    refine covers row member ?_
    cases before with
    | none => rfl
    | some cursor => exact decide_eq_true (after cursor rfl)
  newest older inOrder oldest was := by
    apply forall_items
    intro row member lane later
    refine newest older inOrder row member ?_
    rw [show table.lookup older = some oldest from was]
    simp [lane, later]

/-- The root lane is cut at an item that was still streaming; the other lane stays whole. -/
theorem resumeTranscript_sample :
    resumeTranscript (sampleSide sampleOld ["a", "b", "c", "d"] none) 4
      (sampleSide sampleNew ["e"] (some 5)) (some "r") = some ⟨["b", "d"], some 4⟩ ∧
    ∀ id entry, itemsOf sampleNew id = some entry → AtOrAfter (some 4) entry.seq →
      id ∈ ["b", "d"] ∨ id ∈ ["e"] := by
  have result : resumeTranscript (sampleSide sampleOld ["a", "b", "c", "d"] none) 4
      (sampleSide sampleNew ["e"] (some 5)) (some "r") = some ⟨["b", "d"], some 4⟩ := by
    have joins : [true, false].foldlM (joinLane (sampleSide sampleOld ["a", "b", "c", "d"] none) 4
        (sampleSide sampleNew ["e"] (some 5)) (some "r")) {} = some ⟨["d", "b"], some 4, true⟩ := by
      decide +kernel
    rw [resumeTranscript, joins]
    simp [List.mergeSort, List.merge, List.MergeSort.Internal.splitInTwo]
    decide +kernel
  have advances : Advances (itemsOf sampleOld) 4 (itemsOf sampleNew) := by
    constructor
    · apply forall_items
      intro row member
      have places : ∀ row ∈ sampleNew, row.2.seq ≤ 4 → (sampleOld.lookup row.1).any
          fun before => before.seq = row.2.seq && before.agentId = row.2.agentId := by
        decide +kernel
      intro early
      have placed := places row member early
      obtain ⟨before, found, same⟩ := Option.any_eq_true .. |>.mp placed
      exact ⟨before, found, by simpa using same⟩
    · apply forall_items
      decide +kernel
  have distinct : ∀ a b first second, itemsOf sampleNew a = some first →
      itemsOf sampleNew b = some second → first.seq = second.seq → a = b := by
    intro a b first second hasA
    revert b second
    have apart : ∀ row ∈ sampleNew, ∀ row' ∈ sampleNew, row.2.seq = row'.2.seq →
        row.1 = row'.1 := by
      decide +kernel
    exact forall_items (P := fun a first => ∀ b second, itemsOf sampleNew b = some second →
      first.seq = second.seq → a = b)
      (fun row member => forall_items (apart row member)) a first hasA
  exact ⟨result, (resumeTranscript_sound
    (sampleSide_holder (by decide +kernel) (by decide +kernel) (by decide +kernel)
      (by decide +kernel))
    (sampleSide_holder (by decide +kernel) (by decide +kernel) (by decide +kernel)
      (by decide +kernel)) advances distinct result).2.2.1⟩

end Ace.Client
