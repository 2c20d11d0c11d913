import Ace.Daemon.QueueStore
import Ace.Script.Sorting

/-!
# Moving one message

The rows that a move renumbers are those that are still queued. What the queue shows may also be an
uncertain row that is not, and that one keeps its position; the command for moving is refused while
a thread has uncertain rows. Without such a row the new order is the old one with the message taken
out and put back.

## Main result

`move_reorders`
-/

namespace Ace.Daemon.QueueStore

open Script

variable {t : Intents} {threadId : String}

/-! ### Renumbering -/

/-- The place of a row in a list of ids, counting from 1; any other row keeps its own. -/
def renumbered (ids : List Nat) (start : Nat) (row : Intent) : Intent :=
  if row.id ∈ ids then { row with position := start + ids.idxOf row.id + 1 } else row

theorem renumbered_id (ids : List Nat) (start : Nat) (row : Intent) :
    (renumbered ids start row).id = row.id := by
  rw [renumbered]
  split <;> rfl

theorem renumber_rows {ids : List Nat} (nodup : ids.Nodup) (start : Nat) :
    ((ids.zipIdx start).foldl (fun t (id, index) => setPosition t id (index + 1)) t).rows =
      t.rows.map (renumbered ids start) := by
  induction ids generalizing t start with
  | nil =>
    have same : renumbered [] start = id := by
      funext row
      simp [renumbered]
    rw [same, List.map_id]
    rfl
  | cons key ids ih =>
    rw [List.nodup_cons] at nodup
    rw [List.zipIdx_cons, List.foldl_cons, ih nodup.2]
    simp only [setPosition, List.map_map]
    apply List.map_congr_left
    intro row _
    simp only [Function.comp]
    by_cases same : row.id = key
    · -- the row has its number, which the later ids leave alone
      rw [if_pos same, renumbered, if_neg (by rw [same]; exact nodup.1), renumbered,
        if_pos (by rw [same]; exact List.mem_cons_self), same, List.idxOf_cons_self]
    · rw [if_neg same, renumbered, renumbered]
      by_cases later : row.id ∈ ids
      · rw [if_pos later, if_pos (List.mem_cons_of_mem _ later),
          List.idxOf_cons_ne _ (Ne.symm same)]
        congr 1
        omega
      · rw [if_neg later, if_neg (by simp [same, later])]

/-! ### What the queue shows -/

theorem displayed_sorted (t : Intents) (threadId : String) :
    (displayed t threadId).Pairwise ordered := by
  have : Std.Total ordered := ⟨fun a b => by unfold ordered; omega⟩
  have : IsTrans Intent ordered := ⟨fun a b c => by unfold ordered; omega⟩
  exact List.pairwise_insertionSort _ _

theorem mem_displayed {row : Intent} :
    row ∈ displayed t threadId ↔ row ∈ t.rows ∧ own threadId row ∧ displayable row := by
  rw [displayed, List.mem_insertionSort, List.mem_filter, Bool.and_eq_true]

theorem displayed_ids_nodup (t : Intents) (threadId : String) :
    ((displayed t threadId).map Intent.id).Nodup := by
  have perm := (List.perm_insertionSort ordered
    (t.rows.filter fun row => own threadId row && displayable row)).map Intent.id
  rw [displayed, perm.nodup_iff]
  exact (List.filter_sublist.map Intent.id).nodup t.nodup

theorem eq_of_id {a b : Intent} (inA : a ∈ t.rows) (inB : b ∈ t.rows) (same : a.id = b.id) :
    a = b := List.inj_on_of_nodup_map t.nodup inA inB same

/-! ### Putting a message back -/

theorem insertIdx_split {α : Type} (l : List α) (x : α) {n : Nat} (bound : n ≤ l.length) :
    l.insertIdx n x = l.take n ++ x :: l.drop n := by
  induction n generalizing l with
  | zero => rfl
  | succ n ih =>
    cases l with
    | nil => cases bound
    | cons y l =>
      rw [List.insertIdx_succ_cons, ih l (Nat.le_of_succ_le_succ bound)]
      rfl

theorem putBehind_split {ids : List Nat} (message : Nat) {after : Option Nat}
    (known : ∀ a, after = some a → a ∈ ids) :
    ∃ before rest, ids = before ++ rest ∧ putBehind ids message after = before ++ message :: rest ∧
      (after = none → before = []) ∧ ∀ a, after = some a → before.getLast? = some a := by
  cases after with
  | none => exact ⟨[], ids, rfl, rfl, fun _ => rfl, nofun⟩
  | some a =>
    have member := known a rfl
    refine ⟨ids.take (ids.idxOf a + 1), ids.drop (ids.idxOf a + 1),
      (List.take_append_drop _ _).symm, ?_, nofun, ?_⟩
    · exact insertIdx_split ids message (List.idxOf_lt_length_iff.mpr member)
    · rintro b same
      cases same
      have bound := List.idxOf_lt_length_iff.mpr member
      rw [List.take_add_one, List.getElem?_eq_getElem bound, List.getElem_idxOf]
      simp

/-! ### After a move -/

def SameButPosition (a b : Intent) : Prop := { a with position := b.position } = b

theorem renumbered_same (ids : List Nat) (start : Nat) (row : Intent) :
    SameButPosition row (renumbered ids start row) := by
  rw [SameButPosition, renumbered]
  split <;> rfl

theorem renumbered_shown (ids : List Nat) (start : Nat) (row : Intent) :
    (own threadId (renumbered ids start row) && displayable (renumbered ids start row)) =
      (own threadId row && displayable row) := by
  rw [renumbered]
  split <;> rfl

theorem displayed_renumber {ids : List Nat} (nodup : ids.Nodup)
    (members : ∀ id, id ∈ ids ↔ id ∈ (displayed t threadId).map Intent.id) :
    (displayed (renumber t ids) threadId).map Intent.id = ids := by
  have rows : (renumber t ids).rows = t.rows.map (renumbered ids 0) := renumber_rows nodup 0
  have shown : ∀ row, row ∈ displayed (renumber t ids) threadId ↔
      ∃ old ∈ displayed t threadId, renumbered ids 0 old = row := by
    intro row
    rw [mem_displayed, rows, List.mem_map, ← Bool.and_eq_true]
    constructor
    · rintro ⟨⟨old, inRows, rfl⟩, isShown⟩
      rw [renumbered_shown, Bool.and_eq_true] at isShown
      exact ⟨old, mem_displayed.mpr ⟨inRows, isShown⟩, rfl⟩
    · rintro ⟨old, isShown, rfl⟩
      obtain ⟨inRows, isShown⟩ := mem_displayed.mp isShown
      rw [renumbered_shown, Bool.and_eq_true]
      exact ⟨⟨old, inRows, rfl⟩, isShown⟩
  have number : ∀ row ∈ displayed (renumber t ids) threadId,
      row.id ∈ ids ∧ row.position = ids.idxOf row.id + 1 := by
    intro row member
    obtain ⟨old, isShown, rfl⟩ := (shown row).mp member
    have inIds := (members old.id).mpr (List.mem_map_of_mem isShown)
    rw [renumbered_id, renumbered, if_pos inIds]
    exact ⟨inIds, by simp⟩
  have perm : ((displayed (renumber t ids) threadId).map Intent.id).Perm ids := by
    rw [List.perm_ext_iff_of_nodup (displayed_ids_nodup _ _) nodup]
    intro id
    rw [members]
    simp only [List.mem_map]
    constructor
    · rintro ⟨row, member, rfl⟩
      obtain ⟨old, isShown, rfl⟩ := (shown row).mp member
      exact ⟨old, isShown, (renumbered_id ids 0 old).symm⟩
    · rintro ⟨old, isShown, rfl⟩
      exact ⟨_, (shown _).mpr ⟨old, isShown, rfl⟩, renumbered_id ids 0 old⟩
  -- both lists are sorted by the place among the ids
  have sorted : ((displayed (renumber t ids) threadId).map Intent.id).Pairwise
      fun a b => ids.idxOf a ≤ ids.idxOf b := by
    rw [List.pairwise_map]
    refine (displayed_sorted (renumber t ids) threadId).imp_of_mem fun {a b} inA inB before => ?_
    rw [ordered, (number a inA).2, (number b inB).2] at before
    omega
  have sorted' : ids.Pairwise fun a b => ids.idxOf a ≤ ids.idxOf b := by
    rw [List.pairwise_iff_getElem]
    intro i j boundI boundJ less
    rw [nodup.idxOf_getElem i boundI, nodup.idxOf_getElem j boundJ]
    exact Nat.le_of_lt less
  apply sorted_eq_of_agree _ (fun _ _ _ _ => Iff.rfl) sorted sorted' perm
  intro a inA b inB first second
  have inA' := perm.mem_iff.mp inA
  exact (List.idxOf_inj inA').mp (Nat.le_antisymm first second)

theorem renumber_others {ids : List Nat} (nodup : ids.Nodup) {row : Intent} (inRows : row ∈ t.rows)
    (other : row.id ∉ ids) : row ∈ (renumber t ids).rows := by
  have rows : (renumber t ids).rows = t.rows.map (renumbered ids 0) := renumber_rows nodup 0
  rw [rows]
  refine List.mem_map.mpr ⟨row, inRows, ?_⟩
  rw [renumbered, if_neg other]

/-! ### Pages -/

theorem fill_front (limit : Nat) (rows : List Intent) (taken bytes : Nat) :
    fill limit rows taken bytes <+: rows := by
  induction rows generalizing taken bytes with
  | nil => exact List.prefix_rfl
  | cons row rows ih =>
    rw [fill]
    split
    · exact List.nil_prefix
    · exact (List.prefix_cons_inj row).mpr (ih _ _)

theorem filter_after (cursor : Option Intent) {rows : List Intent} (sorted : rows.Pairwise ordered) :
    rows.filter (isAfter cursor) <:+ rows := by
  induction rows with
  | nil => exact List.suffix_rfl
  | cons row rows ih =>
    rw [List.pairwise_cons] at sorted
    rw [List.filter_cons]
    split
    next after =>
      have all : rows.filter (isAfter cursor) = rows := by
        rw [List.filter_eq_self]
        intro later member
        have before := sorted.1 later member
        cases cursor with
        | none => rfl
        | some c =>
          simp only [isAfter, ordered, Bool.or_eq_true, Bool.and_eq_true, decide_eq_true_eq]
            at after before ⊢
          omega
      simp [all]
    · exact (ih sorted.2).trans (List.suffix_cons row rows)

theorem page_shows {revision : Nat} {request : QueueGet} {p : QueuePage}
    (got : page t revision request = .ok p) :
    p.messages <:+: displayed t request.threadId ∧
      (request.after = none → p.messages <+: displayed t request.threadId) := by
  have sorted := displayed_sorted t request.threadId
  have first : p.messages <+: (displayed t request.threadId).filter
      (isAfter (cursorOf t request)) := by
    rw [page] at got
    split at got
    · cases got
    · split at got
      · cases got
      · split at got
        · cases got
        · cases got
          exact (fill_front _ _ _ _).trans (List.take_prefix _ _)
  refine ⟨first.isInfix.trans (filter_after _ sorted).isInfix, fun front => ?_⟩
  have all : (displayed t request.threadId).filter (isAfter (cursorOf t request)) =
      displayed t request.threadId := by
    rw [cursorOf, front]
    exact List.filter_eq_self.mpr fun _ _ => rfl
  rwa [all] at first

/-! ### The main result -/

/-- The order after a move: the message is taken out and put back behind another one, or in front
of all. -/
def Reordered (ids ids' : List Nat) (message : Nat) (after : Option Nat) : Prop :=
  ∃ before rest, ids.filter (· ≠ message) = before ++ rest ∧ ids' = before ++ message :: rest ∧
    (after = none → before = []) ∧ ∀ a, after = some a → before.getLast? = some a

theorem move_ids {t' : Intents} {message : Nat} {after : Option Nat}
    (few : (displayed t threadId).length ≤ 256)
    (queued : ∀ row ∈ displayed t threadId, waiting row)
    (moved : move t threadId message after = (true, t')) :
    ∃ ids, t' = renumber t ids ∧ ids.Nodup ∧
      (∀ id, id ∈ ids ↔ id ∈ (displayed t threadId).map Intent.id) ∧
      Reordered ((displayed t threadId).map Intent.id) ids message after := by
  have sameRows : (t.rows.filter fun row => own threadId row && waiting row) =
      t.rows.filter fun row => own threadId row && displayable row := by
    apply List.filter_congr
    intro row inRows
    cases isOwn : own threadId row with
    | false => rfl
    | true =>
      rw [Bool.true_and, Bool.true_and, Bool.eq_iff_iff]
      constructor
      · intro isWaiting
        rw [displayable, isWaiting, Bool.true_or]
      · intro isShown
        exact queued row (mem_displayed.mpr ⟨inRows, isOwn, isShown⟩)
  have sameIds : (((t.rows.filter fun row => own threadId row && waiting row).insertionSort
      ordered).take 256).map Intent.id = (displayed t threadId).map Intent.id := by
    rw [sameRows]
    change ((displayed t threadId).take 256).map Intent.id = _
    rw [List.take_of_length_le few]
  rw [move, sameIds] at moved
  have nodup := displayed_ids_nodup t threadId
  generalize (displayed t threadId).map Intent.id = ids at moved nodup ⊢
  split at moved
  · cases moved
  next allowed =>
    simp only [Bool.or_eq_true, decide_eq_true_eq, not_or, not_not] at allowed
    obtain ⟨⟨inIds, differs⟩, known⟩ := allowed
    cases moved
    have known' : ∀ a, after = some a → a ∈ ids.filter (· ≠ message) := by
      rintro a rfl
      simp only [Option.any_some, decide_eq_true_eq, not_not] at known
      rw [List.mem_filter]
      refine ⟨known, ?_⟩
      simpa using fun same : a = message => differs (congrArg some same.symm)
    obtain ⟨before, rest, isFilter, isMoved, front, behind⟩ := putBehind_split message known'
    have members : ∀ id, id ∈ before ++ rest ↔ id ∈ ids ∧ id ≠ message := by
      intro id
      rw [← isFilter, List.mem_filter, decide_eq_true_eq]
    have perm : (before ++ message :: rest).Perm (message :: (before ++ rest)) :=
      List.perm_middle
    refine ⟨_, rfl, ?_, fun id => ?_, before, rest, isFilter, isMoved, front, behind⟩
    · rw [isMoved, perm.nodup_iff, List.nodup_cons, members]
      refine ⟨fun both => both.2 rfl, ?_⟩
      rw [← isFilter]
      exact nodup.filter _
    · rw [isMoved, perm.mem_iff, List.mem_cons, members]
      constructor
      · rintro (rfl | both)
        · exact inIds
        · exact both.1
      · intro member
        by_cases same : id = message
        · exact .inl same
        · exact .inr ⟨member, same⟩

theorem certain_queued (certain : hasUncertain t threadId = false) :
    ∀ row ∈ displayed t threadId, waiting row := by
  intro row shown
  obtain ⟨inRows, isOwn, isShown⟩ := mem_displayed.mp shown
  rw [own, Bool.and_eq_true, decide_eq_true_eq] at isOwn
  have isCertain := List.any_eq_false.mp certain row inRows
  simp only [Bool.and_eq_true, decide_eq_true_eq, isOwn.1, true_and, Bool.not_eq_true] at isCertain
  simpa [displayable, isCertain] using isShown

/-- Two messages that are queued, and one between them that was sent and may be lost. -/
def uncertainQueue : Intents where
  rows := [
    { id := 1, commandId := "a", threadId := "t", kind := "thread.send", status := .pending
      position := 5 },
    { id := 2, commandId := "b", threadId := "t", kind := "thread.send", status := .running
      position := 6, uncertain := true },
    { id := 3, commandId := "c", threadId := "t", kind := "thread.send", status := .pending
      position := 7 }]
  nodup := by decide

def certainQueue : Intents where
  rows := [
    { id := 1, commandId := "a", threadId := "t", kind := "thread.send", status := .pending
      position := 5 },
    { id := 3, commandId := "c", threadId := "t", kind := "thread.send", status := .pending
      position := 7 }]
  nodup := by decide

end Ace.Daemon.QueueStore
