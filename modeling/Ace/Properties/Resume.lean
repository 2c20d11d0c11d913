import Ace.Daemon.LiveWrites
import Ace.Properties.MergedDeltas
import Ace.Properties.PrefixDelivery
import Mathlib.Data.List.Chain

/-!
# Resuming from a cursor

Every row stands for a run of published deltas that were next to each other in the batch it was
flushed with. If they were next to each other in the log, no row that another event has lies
inside a run, and a cursor that the store calls safe lies between runs. What is replayed after it
is then the rest of the log, in rows.

## Main result

`resume_converges`: a client that comes back with a safe cursor gets what it would have got.
-/

namespace Ace.Daemon

open Script Delivery

/-! ### Rows and their runs -/

/-- The text that a delta extends. -/
def textOf (event : LogEvent) : Option (String × String × String × DeltaField) :=
  match event.payload with
  | .itemDelta itemId field _ => some (event.threadId, event.agentId, itemId, field)
  | _ => none

/-- The bytes that a delta appends. -/
def appendedBytes (event : LogEvent) : Nat :=
  match event.payload with
  | .itemDelta _ _ append => Text.byteLength append.toList
  | _ => 0

theorem mergeDeltas_eq_some {previous event merged : LogEvent}
    (merges : mergeDeltas previous event = some merged) :
    ∃ itemId field a b, previous.payload = .itemDelta itemId field a ∧
      event.payload = .itemDelta itemId field b ∧
      merged = { event with payload := .itemDelta itemId field (a ++ b) } ∧
      previous.threadId = event.threadId ∧ previous.agentId = event.agentId ∧
      Text.byteLength a.toList + Text.byteLength b.toList ≤ deltaRowBytes := by
  unfold mergeDeltas at merges
  split at merges
  next itemId field a itemId' field' b payload payload' =>
    split at merges
    next same =>
      obtain ⟨thread, rfl, agent, rfl, small⟩ := same
      exact ⟨itemId, field, a, b, payload, payload', (Option.some.inj merges).symm, thread, agent,
        small⟩
    next => cases merges
  next => cases merges

/-- A row, as it stands for its run. -/
structure Stands (run : List LogEvent) (row : LogEvent) : Prop where
  last : ∃ before event, run = before ++ [event] ∧ row.seq = event.seq
  thread : ∀ event ∈ run, event.threadId = row.threadId
  text : ∀ event ∈ run, textOf event = textOf row
  alone : run = [row] ∨ (textOf row).isSome ∧ appendedBytes row ≤ deltaRowBytes

theorem stands_of_span {run : List LogEvent} {row : LogEvent} (span : Span mergeDeltas run row) :
    Stands run row := by
  induction span with
  | single x =>
    refine ⟨⟨[], x, rfl, rfl⟩, ?_, ?_, .inl rfl⟩ <;> simp
  | @grow run row x merged span merges ih =>
    obtain ⟨itemId, field, a, b, payload, payload', rfl, thread, agent, small⟩ :=
      mergeDeltas_eq_some merges
    have text : textOf row = textOf x := by
      simp only [textOf, payload, payload', thread, agent]
    have text' : textOf x = textOf { x with payload := .itemDelta itemId field (a ++ b) } := by
      simp only [textOf, payload']
    refine ⟨⟨run, x, rfl, rfl⟩, ?_, ?_, .inr ⟨rfl, ?_⟩⟩
    · intro event member
      rcases List.mem_append.mp member with old | new
      · exact (ih.thread event old).trans thread
      · rw [List.mem_singleton.mp new]
    · intro event member
      rcases List.mem_append.mp member with old | new
      · exact (ih.text event old).trans (text.trans text')
      · rw [List.mem_singleton.mp new]
        exact text'
    · simp only [appendedBytes, String.toList_append, byteLength_append]
      exact small

theorem not_shown {event : LogEvent} (delta : (textOf event).isSome) :
    isSidebarEvent event.toEvent = false := by
  unfold textOf at delta
  split at delta
  next payload => simp [isSidebarEvent, Payload.isSidebar, payload]
  next => cases delta

theorem Stands.includes {run : List LogEvent} {row : LogEvent} (stands : Stands run row)
    (scope : Scope) {event : LogEvent} (member : event ∈ run) :
    scope.includes event.toEvent = scope.includes row.toEvent := by
  cases scope with
  | thread threadId => simp only [Scope.includes, stands.thread event member]
  | threads =>
    rcases stands.alone with rfl | ⟨delta, -⟩
    · rw [List.mem_singleton.mp member]
    · simp only [Scope.includes]
      rw [not_shown delta, not_shown]
      rw [stands.text event member]
      exact delta

/-! ### Folding rows -/

def foldLog (view : View) (events : List LogEvent) : Option View :=
  events.foldlM (fun view event => view.fold event.toEvent) view

theorem absorbs_mergeDeltas : Absorbs mergeDeltas (fun (view : View) (event : LogEvent) =>
    view.fold event.toEvent) View.Sane (fun event => event.toEvent.Sane) where
  kept _ _ _ held sane folds := held.fold sane folds
  merged row x merged sane sane' merges := by
    obtain ⟨itemId, field, a, b, payload, payload', rfl, -⟩ := mergeDeltas_eq_some merges
    simp only [Event.Sane, payload, payload'] at sane sane' ⊢
    intro output
    rw [String.toList_append]
    exact (sane output).append (sane' output)
  same view row x merged held sane sane' merges := by
    obtain ⟨itemId, field, a, b, payload, payload', rfl, thread, -⟩ := mergeDeltas_eq_some merges
    simp only [Event.Sane, payload, payload'] at sane sane'
    refine fold_merged held payload payload' ?_ thread ?_ ?_
    · rfl
    · rfl
    · intro output
      exact ⟨sane output, sane' output⟩

/-! ### Batches -/

/-- Batches hold the events of each thread, all of them and in their order. -/
def Splits (history : List LogEvent) (batches : List (List LogEvent)) : Prop :=
  ∀ threadId, batches.flatten.filter (·.threadId == threadId) =
    history.filter (·.threadId == threadId)

/-- No event of the log lies between two others. -/
def Adjacent (history : List LogEvent) (x y : LogEvent) : Prop :=
  ∀ z ∈ history, ¬ (x.seq < z.seq ∧ z.seq < y.seq)

/-- Deltas of one text that are next to each other in a batch are so in the log. -/
def Gapless (history batch : List LogEvent) : Prop :=
  batch.IsChain fun x y => textOf x = textOf y → (textOf x).isSome → Adjacent history x y

theorem isChain_of_flatMap {R : LogEvent → LogEvent → Prop}
    {spans : List (List LogEvent × LogEvent)} (chain : (spans.flatMap Prod.fst).IsChain R) :
    ∀ span ∈ spans, span.1.IsChain R := by
  induction spans with
  | nil => simp
  | cons span spans ih =>
    rw [List.flatMap_cons] at chain
    intro span' member
    rcases List.mem_cons.mp member with rfl | later
    · exact chain.left_of_append
    · exact ih chain.right_of_append span' later

theorem spans_of_batches {R : LogEvent → LogEvent → Prop} {batches : List (List LogEvent)}
    (chains : ∀ batch ∈ batches, batch.IsChain R) :
    ∃ spans, Covers mergeDeltas spans batches.flatten (flushed batches) ∧
      ∀ span ∈ spans, span.1.IsChain R := by
  induction batches with
  | nil => exact ⟨[], ⟨rfl, rfl, by simp⟩, by simp⟩
  | cons batch batches ih =>
    obtain ⟨spans, covers, chained⟩ := ih fun b member => chains b (List.mem_cons_of_mem _ member)
    obtain ⟨first, covers'⟩ : ∃ first, Covers mergeDeltas first batch (compactDeltas batch) :=
      covers_coalesce batch
    have chained' : ∀ span ∈ first, span.1.IsChain R := by
      apply isChain_of_flatMap
      rw [covers'.runs]
      exact chains batch (List.mem_cons_self ..)
    refine ⟨first ++ spans, ⟨?_, ?_, ?_⟩, ?_⟩
    · simp [covers.runs, covers'.runs]
    · simp [covers.rows, covers'.rows, flushed, compactDeltas]
    · intro span member
      rcases List.mem_append.mp member with new | old
      · exact covers'.spans span new
      · exact covers.spans span old
    · intro span member
      rcases List.mem_append.mp member with new | old
      · exact chained' span new
      · exact chained span old

theorem mem_run_of_between {history run : List LogEvent} (chain : run.IsChain (Adjacent history))
    {x last z : LogEvent} (member : x ∈ run) (ends : run.getLast? = some last)
    (logged : z ∈ history) (after : x.seq ≤ z.seq) (before : z.seq ≤ last.seq) :
    ∃ y ∈ run, y.seq = z.seq := by
  induction run generalizing x with
  | nil => cases member
  | cons first rest ih =>
    cases rest with
    | nil =>
      simp only [List.getLast?_singleton, Option.some.injEq] at ends
      rw [List.mem_singleton] at member
      subst member ends
      exact ⟨x, by simp, by omega⟩
    | cons second rest =>
      have tail : (second :: rest).IsChain (Adjacent history) := chain.tail
      have ends' : (second :: rest).getLast? = some last := by simpa using ends
      have apart : Adjacent history first second := by
        simpa using (List.isChain_cons_cons.mp chain).1
      by_cases later : second.seq ≤ z.seq
      · obtain ⟨y, inside, same⟩ := ih tail (List.mem_cons_self ..) ends' later
        exact ⟨y, List.mem_cons_of_mem _ inside, same⟩
      · rcases List.mem_cons.mp member with rfl | inside
        · have close := apart z logged
          exact ⟨x, by simp, by omega⟩
        · obtain ⟨y, inside', same⟩ := ih tail inside ends' after
          exact ⟨y, List.mem_cons_of_mem _ inside', same⟩

/-! ### Cursors -/

theorem le_highest {seqs : List Nat} {n : Nat} (member : n ∈ seqs) : n ≤ highest seqs := by
  have kept (start : Nat) : start ≤ seqs.foldl max start ∧ ∀ m ∈ seqs, m ≤ seqs.foldl max start := by
    clear member
    induction seqs generalizing start with
    | nil => simp
    | cons first rest ih =>
      obtain ⟨above, all⟩ := ih (max start first)
      refine ⟨by simp only [List.foldl_cons]; omega, ?_⟩
      intro m member
      rcases List.mem_cons.mp member with rfl | later
      · simp only [List.foldl_cons]
        omega
      · exact all m later
  exact (kept 0).2 n member

theorem eq_of_seq {history : List LogEvent} (sorted : history.Pairwise (·.seq < ·.seq))
    {x y : LogEvent} (member : x ∈ history) (member' : y ∈ history) (same : x.seq = y.seq) :
    x = y := by
  by_contra different
  have symmetric : Std.Symm fun (x y : LogEvent) => x.seq ≠ y.seq := ⟨fun _ _ ne => ne.symm⟩
  have apart : history.Pairwise fun x y => x.seq ≠ y.seq := sorted.imp Nat.ne_of_lt
  exact apart.forall member member' different same

section Cut

variable {history : List LogEvent} {batches : List (List LogEvent)}
  {spans : List (List LogEvent × LogEvent)}

theorem filter_runs {p : LogEvent → Bool} (shared : ∀ span ∈ spans, ∀ x ∈ span.1, p x = p span.2) :
    (spans.flatMap Prod.fst).filter p = (spans.filter fun span => p span.2).flatMap Prod.fst := by
  induction spans with
  | nil => rfl
  | cons span spans ih =>
    rw [List.flatMap_cons, List.filter_append,
      ih fun span' member => shared span' (List.mem_cons_of_mem _ member), List.filter_cons]
    have own := shared span (List.mem_cons_self ..)
    cases kept : p span.2 with
    | true =>
      rw [List.filter_eq_self.mpr fun x member => (own x member).trans kept]
      simp
    | false =>
      rw [List.filter_eq_nil_iff.mpr fun x member => by simp [own x member, kept]]
      simp

variable (covers : Covers mergeDeltas spans batches.flatten (flushed batches))

include covers

theorem stands_of_covers : ∀ span ∈ spans, Stands span.1 span.2 :=
  fun span member => stands_of_span (covers.spans span member)

variable (splits : Splits history batches)

include splits

theorem runs_of_thread (threadId : String) :
    (spans.filter (·.2.threadId == threadId)).flatMap Prod.fst =
      history.filter (·.threadId == threadId) := by
  rw [← splits threadId, ← covers.runs, filter_runs]
  intro span member x inside
  rw [(stands_of_covers covers span member).thread x inside]

theorem mem_history_of_run {span : List LogEvent × LogEvent} (member : span ∈ spans)
    {x : LogEvent} (inside : x ∈ span.1) : x ∈ history := by
  have listed : x ∈ (spans.filter (·.2.threadId == x.threadId)).flatMap Prod.fst := by
    rw [List.mem_flatMap]
    refine ⟨span, ?_, inside⟩
    rw [List.mem_filter]
    have thread := (stands_of_covers covers span member).thread x inside
    exact ⟨member, by simp [thread]⟩
  rw [runs_of_thread covers splits] at listed
  exact (List.mem_filter.mp listed).1

variable (sorted : history.Pairwise (·.seq < ·.seq))

include sorted

theorem seq_le_row {span : List LogEvent × LogEvent} (member : span ∈ spans) {x : LogEvent}
    (inside : x ∈ span.1) : x.seq ≤ span.2.seq := by
  have order : ((spans.filter (·.2.threadId == span.2.threadId)).flatMap Prod.fst).Pairwise
      (·.seq < ·.seq) := by
    rw [runs_of_thread covers splits]
    exact sorted.filter _
  have own : span.1.Pairwise (·.seq < ·.seq) := by
    apply (List.pairwise_flatMap.mp order).1 span
    rw [List.mem_filter]
    exact ⟨member, by simp⟩
  obtain ⟨before, last, run_eq, seq_eq⟩ := (stands_of_covers covers span member).last
  rw [run_eq] at own inside
  rw [seq_eq]
  rcases List.mem_append.mp inside with early | here
  · have below := (List.pairwise_append.mp own).2.2 x early last (by simp)
    omega
  · rw [List.mem_singleton.mp here]

theorem span_eq_of_shared {span span' : List LogEvent × LogEvent} (member : span ∈ spans)
    (member' : span' ∈ spans) {x : LogEvent} (inside : x ∈ span.1) (inside' : x ∈ span'.1) :
    span = span' := by
  have order : ((spans.filter (·.2.threadId == x.threadId)).flatMap Prod.fst).Pairwise
      (·.seq < ·.seq) := by
    rw [runs_of_thread covers splits]
    exact sorted.filter _
  have listed {s : List LogEvent × LogEvent} (there : s ∈ spans) (holds : x ∈ s.1) :
      s ∈ spans.filter (·.2.threadId == x.threadId) := by
    rw [List.mem_filter]
    exact ⟨there, by simp [(stands_of_covers covers s there).thread x holds]⟩
  by_contra different
  have apart : (spans.filter (·.2.threadId == x.threadId)).Pairwise
      fun s s' => ∀ y ∈ s.1, ∀ y' ∈ s'.1, y.seq ≠ y'.seq := by
    apply (List.pairwise_flatMap.mp order).2.imp
    intro s s' below y inside y' inside'
    exact Nat.ne_of_lt (below y inside y' inside')
  have symmetric : Std.Symm fun (s s' : List LogEvent × LogEvent) =>
      ∀ y ∈ s.1, ∀ y' ∈ s'.1, y.seq ≠ y'.seq :=
    ⟨fun s s' below y inside y' inside' => (below y' inside' y inside).symm⟩
  exact apart.forall (listed member inside) (listed member' inside') different x inside x inside'
    rfl

theorem cut_of_replaySafe (positive : ∀ x ∈ history, 0 < x.seq)
    (chained : ∀ span ∈ spans, span.1.IsChain
      fun x y => textOf x = textOf y → (textOf x).isSome → Adjacent history x y)
    {sequences : StreamSequences} {deletions : List Nat} {cursor : Nat}
    (safe : sequences.replaySafe ⟨flushed batches, deletions⟩ cursor = true)
    {span : List LogEvent × LogEvent} (member : span ∈ spans) {x : LogEvent}
    (inside : x ∈ span.1) (early : x.seq ≤ cursor) : span.2.seq ≤ cursor := by
  by_contra late
  have logged := mem_history_of_run covers splits member inside
  have stored {s : List LogEvent × LogEvent} (there : s ∈ spans) : s.2 ∈ flushed batches := by
    rw [← covers.rows]
    exact List.mem_map_of_mem there
  unfold StreamSequences.replaySafe at safe
  split at safe
  next => cases safe
  next =>
    simp only [Bool.or_eq_true, beq_iff_eq, List.any_eq_true] at safe
    rcases safe with (zero | head) | ⟨row, there, at_⟩
    · have above := positive x logged
      omega
    · have below : span.2.seq ≤ StreamSequences.head ⟨flushed batches, deletions⟩ := by
        have high : span.2.seq ≤ highest ((flushed batches).map (·.seq)) :=
          le_highest (List.mem_map_of_mem (stored member))
        exact Nat.le_trans high (Nat.le_max_left ..)
      omega
    · -- The row at the cursor ends a run of its own, with an event that lies in this one.
      rw [← covers.rows] at there
      obtain ⟨span', member', rfl⟩ := List.mem_map.mp there
      obtain ⟨before, last, run_eq, seq_eq⟩ := (stands_of_covers covers span' member').last
      have inside' : last ∈ span'.1 := by rw [run_eq]; simp
      have logged' := mem_history_of_run covers splits member' inside'
      have stands := stands_of_covers covers span member
      have several : (textOf span.2).isSome := by
        rcases stands.alone with single | ⟨delta, -⟩
        · rw [single] at inside
          rw [List.mem_singleton.mp inside] at early
          omega
        · exact delta
      have neighbours : span.1.IsChain (Adjacent history) := by
        apply (chained span member).imp_of_mem_imp
        intro y z inY inZ close
        exact close ((stands.text y inY).trans (stands.text z inZ).symm)
          (by rw [stands.text y inY]; exact several)
      obtain ⟨front, final, run_eq', seq_eq'⟩ := stands.last
      obtain ⟨y, inY, same⟩ := mem_run_of_between neighbours inside
        (show span.1.getLast? = some final by rw [run_eq']; simp) logged' (by omega) (by omega)
      have one : y = last := eq_of_seq sorted (mem_history_of_run covers splits member inY) logged'
        same
      have spans_eq := span_eq_of_shared covers splits sorted member member' inY (one ▸ inside')
      rw [spans_eq] at late
      omega

end Cut

/-! ### Reading the rows -/

theorem rowsAfter_filter {tables : Tables} {cursor : Nat} {p : LogEvent → Bool}
    {rows : List LogEvent} (order : rows.Pairwise (·.seq < ·.seq))
    (perm : rows.Perm (tables.events.filter fun row => decide (cursor < row.seq) && p row)) :
    (rowsAfter tables cursor).filter p = rows := by
  have read : ((rowsAfter tables cursor).filter p).Perm rows := by
    refine List.Perm.trans ((List.mergeSort_perm _ _).filter p) (List.Perm.trans ?_ perm.symm)
    rw [List.filter_filter]
    apply List.Perm.of_eq
    congr 1
    funext row
    exact Bool.and_comm ..
  have sorted : ((rowsAfter tables cursor).filter p).Pairwise fun x y => x.seq ≤ y.seq := by
    apply List.Pairwise.filter
    apply (List.pairwise_mergeSort _ _ _).imp
    · intro x y le
      simpa using le
    · intro x y z
      simpa using Nat.le_trans
    · intro x y
      simpa using Nat.le_total x.seq y.seq
  refine List.Perm.eq_of_pairwise ?_ sorted (order.imp Nat.le_of_lt) read
  intro x y member member' le ge
  exact eq_of_seq order (read.subset member) member' (Nat.le_antisymm le ge)

theorem filter_append_filter {history : List LogEvent}
    (sorted : history.Pairwise (·.seq < ·.seq)) (cursor : Nat) :
    history.filter (fun x => decide (x.seq ≤ cursor)) ++
      history.filter (fun x => decide (cursor < x.seq)) = history := by
  induction history with
  | nil => rfl
  | cons first rest ih =>
    obtain ⟨later, sorted'⟩ := List.pairwise_cons.mp sorted
    by_cases early : first.seq ≤ cursor
    · have notLate : ¬ cursor < first.seq := by omega
      simp [early, notLate, ih sorted']
    · -- From here on everything is after the cursor.
      have none : rest.filter (fun x => decide (x.seq ≤ cursor)) = [] := by
        rw [List.filter_eq_nil_iff]
        intro x member
        have after := later x member
        simp
        omega
      have all := ih sorted'
      rw [none, List.nil_append] at all
      have late : cursor < first.seq := by omega
      simp [early, late, none, all]

theorem sane_foldLog {view view' : View} {events : List LogEvent} (held : view.Sane)
    (sane : ∀ x ∈ events, x.toEvent.Sane) (folds : foldLog view events = some view') :
    view'.Sane := by
  induction events generalizing view with
  | nil =>
    obtain rfl := Option.some.inj folds
    exact held
  | cons first rest ih =>
    simp only [foldLog, List.foldlM_cons] at folds
    obtain ⟨next, step, folds'⟩ := Option.bind_eq_some_iff.mp folds
    exact ih (held.fold (sane first (by simp)) step) (fun x member => sane x (by simp [member]))
      folds'

/-- The scoped part of a log, in runs of which each is before the cursor or after it, and the
rows that are read from there on. -/
theorem foldLog_resumed {view : View} {log rows : List LogEvent} {cursor : Nat}
    {spans : List (List LogEvent × LogEvent)} (sorted : log.Pairwise (·.seq < ·.seq))
    (sane : ∀ x ∈ log, x.toEvent.Sane) (held : view.Sane)
    (covers : Covers mergeDeltas spans log rows)
    (cut : ∀ span ∈ spans, ∀ x ∈ span.1, decide (cursor < x.seq) = decide (cursor < span.2.seq)) :
    foldLog view (log.filter (fun x => decide (x.seq ≤ cursor)) ++
      rows.filter fun row => decide (cursor < row.seq)) = foldLog view log := by
  have later : (spans.filter fun span => decide (cursor < span.2.seq)).flatMap Prod.fst =
      log.filter fun x => decide (cursor < x.seq) := by
    rw [← covers.runs, filter_runs cut]
  have later' : (spans.filter fun span => decide (cursor < span.2.seq)).map Prod.snd =
      rows.filter fun row => decide (cursor < row.seq) := by
    rw [← covers.rows, List.filter_map]
    rfl
  conv_rhs => rw [← filter_append_filter sorted cursor]
  rw [← later, ← later']
  simp only [foldLog, List.foldlM_append]
  cases first : (log.filter fun x => decide (x.seq ≤ cursor)).foldlM
      (fun (view : View) (event : LogEvent) => view.fold event.toEvent) view with
  | none => rfl
  | some view' =>
    have held' : view'.Sane := sane_foldLog held
      (fun x member => sane x (List.mem_filter.mp member).1) first
    symm
    apply absorbs_mergeDeltas.covers _ _ view' held'
    · intro span member
      exact covers.spans span (List.mem_filter.mp member).1
    · intro span member x inside
      apply sane
      rw [← covers.runs, List.mem_flatMap]
      exact ⟨span, (List.mem_filter.mp member).1, inside⟩

/-! ### Scopes -/

section Scopes

variable {history : List LogEvent} {batches : List (List LogEvent)}
  {spans : List (List LogEvent × LogEvent)} {cursor : Nat}

/-- The part of a log that a subscriber sees. -/
def inScope (scope : Scope) (events : List LogEvent) : List LogEvent :=
  events.filter fun event => scope.includes event.toEvent

theorem rows_increasing {log rows : List LogEvent} (covers : Covers mergeDeltas spans log rows)
    (sorted : log.Pairwise (·.seq < ·.seq)) : rows.Pairwise (·.seq < ·.seq) := by
  rw [← covers.runs, List.pairwise_flatMap] at sorted
  rw [← covers.rows, List.pairwise_map]
  apply sorted.2.imp_of_mem
  intro span span' member member' below
  obtain ⟨before, last, run_eq, seq_eq⟩ := (stands_of_span (covers.spans span member)).last
  obtain ⟨before', last', run_eq', seq_eq'⟩ :=
    (stands_of_span (covers.spans span' member')).last
  rw [seq_eq, seq_eq']
  exact below last (by rw [run_eq]; simp) last' (by rw [run_eq']; simp)

theorem perm_of_splits (splits : Splits history batches) : batches.flatten.Perm history := by
  rw [List.perm_iff_count]
  intro x
  have same := congrArg (List.count x) (splits x.threadId)
  rwa [List.count_filter (by simp), List.count_filter (by simp)] at same

theorem rows_of_list {log rows : List LogEvent} (covers : Covers mergeDeltas spans log rows) :
    inScope .threads rows = inScope .threads log := by
  have shared : ∀ span ∈ spans, ∀ x ∈ span.1, Scope.threads.includes x.toEvent =
      Scope.threads.includes span.2.toEvent :=
    fun span member x inside => (stands_of_span (covers.spans span member)).includes .threads inside
  rw [inScope, inScope, ← covers.runs, ← covers.rows, filter_runs shared, List.filter_map]
  have single : ∀ span ∈ spans.filter (fun span => Scope.threads.includes span.2.toEvent),
      span.1 = [span.2] := by
    intro span member
    obtain ⟨there, shown⟩ := List.mem_filter.mp member
    rcases (stands_of_span (covers.spans span there)).alone with alone | ⟨delta, -⟩
    · exact alone
    · rw [Scope.includes, not_shown delta] at shown
      cases shown
  rw [List.flatMap_congr single, ← List.map_eq_flatMap]
  rfl

theorem exists_scoped (splits : Splits history batches)
    (covers : Covers mergeDeltas spans batches.flatten (flushed batches)) (scope : Scope)
    (cut : ∀ span ∈ spans, ∀ x ∈ span.1, decide (cursor < x.seq) = decide (cursor < span.2.seq)) :
    ∃ spans' rows, Covers mergeDeltas spans' (inScope scope history) rows ∧
      rows.Perm (inScope scope (flushed batches)) ∧
      ∀ span ∈ spans', ∀ x ∈ span.1, decide (cursor < x.seq) = decide (cursor < span.2.seq) := by
  cases scope with
  | thread threadId =>
    refine ⟨spans.filter (·.2.threadId == threadId), inScope (.thread threadId) (flushed batches),
      ⟨runs_of_thread covers splits threadId, ?_, ?_⟩, List.Perm.refl _, ?_⟩
    · rw [← covers.rows]
      simp only [inScope, List.filter_map]
      rfl
    · intro span member
      exact covers.spans span (List.mem_filter.mp member).1
    · intro span member
      exact cut span (List.mem_filter.mp member).1
  | threads =>
    -- What the list shows is never merged.
    refine ⟨(inScope .threads history).map fun x => ([x], x), inScope .threads history,
      ⟨?_, ?_, ?_⟩, ?_, ?_⟩
    · simp [List.flatMap_map]
    · simp [Function.comp_def]
    · intro span member
      obtain ⟨x, -, rfl⟩ := List.mem_map.mp member
      exact .single x
    · rw [rows_of_list covers]
      exact (perm_of_splits splits).symm.filter _
    · intro span member
      obtain ⟨x, -, rfl⟩ := List.mem_map.mp member
      simp

theorem covers_inScope {log rows : List LogEvent} (covers : Covers mergeDeltas spans log rows)
    (scope : Scope) :
    Covers mergeDeltas (spans.filter fun span => scope.includes span.2.toEvent)
      (inScope scope log) (inScope scope rows) := by
  refine ⟨?_, ?_, ?_⟩
  · rw [inScope, ← covers.runs, filter_runs]
    intro span member x inside
    exact (stands_of_span (covers.spans span member)).includes scope inside
  · rw [inScope, ← covers.rows, List.filter_map]
    rfl
  · intro span member
    exact covers.spans span (List.mem_filter.mp member).1

end Scopes

/-! ### The claims of the store -/

structure Compacts (events rows : List LogEvent) : Prop where
  /-- A row stands for a run of the batch: for one event, or for adjacent deltas of one text
  that have at most 4096 bytes together. -/
  runs : ∃ spans, Covers mergeDeltas spans events rows ∧ ∀ span ∈ spans, Stands span.1 span.2
  increasing : events.Pairwise (·.seq < ·.seq) → rows.Pairwise (·.seq < ·.seq)
  fold : ∀ (scope : Scope) (view : View), view.Sane → (∀ x ∈ events, x.toEvent.Sane) →
    foldLog view (inScope scope rows) = foldLog view (inScope scope events)

theorem compactDeltas_compacts (events : List LogEvent) : Compacts events (compactDeltas events) := by
  obtain ⟨spans, covers⟩ : ∃ spans, Covers mergeDeltas spans events (compactDeltas events) :=
    covers_coalesce events
  refine ⟨⟨spans, covers, fun span member => stands_of_span (covers.spans span member)⟩,
    rows_increasing covers, ?_⟩
  intro scope view held sane
  have covers' := covers_inScope covers scope
  rw [← covers'.runs, ← covers'.rows, foldLog, foldLog]
  symm
  apply absorbs_mergeDeltas.covers covers'.spans _ view held
  intro span member x inside
  have listed : x ∈ inScope scope events := by
    rw [← covers'.runs, List.mem_flatMap]
    exact ⟨span, member, inside⟩
  exact sane x (List.mem_filter.mp listed).1

theorem resume_converges {history : List LogEvent} {batches : List (List LogEvent)}
    (sorted : history.Pairwise (·.seq < ·.seq)) (positive : ∀ x ∈ history, 0 < x.seq)
    (splits : Splits history batches) (gapless : ∀ batch ∈ batches, Gapless history batch)
    (sane : ∀ x ∈ history, x.toEvent.Sane) :
    (∀ events, Compacts events (compactDeltas events)) ∧
    ∀ (sequences : StreamSequences) (deletions : List Nat) (cursor : Nat),
      sequences.replaySafe ⟨flushed batches, deletions⟩ cursor = true →
      ∀ (scope : Scope) (view : View), view.Sane →
        foldLog view (inScope scope (history.filter fun x => decide (x.seq ≤ cursor)) ++
          inScope scope (rowsAfter ⟨flushed batches, deletions⟩ cursor)) =
        foldLog view (inScope scope history) := by
  refine ⟨compactDeltas_compacts, ?_⟩
  intro sequences deletions cursor safe scope view held
  obtain ⟨spans, covers, chained⟩ := spans_of_batches gapless
  have cut : ∀ span ∈ spans, ∀ x ∈ span.1,
      decide (cursor < x.seq) = decide (cursor < span.2.seq) := by
    intro span member x inside
    have below := seq_le_row covers splits sorted member inside
    have apart := cut_of_replaySafe covers splits sorted positive chained safe member inside
    rw [decide_eq_decide]
    omega
  obtain ⟨spans', rows, covers', perm, cut'⟩ := exists_scoped splits covers scope cut
  have order : (inScope scope history).Pairwise (·.seq < ·.seq) := sorted.filter _
  have read : inScope scope (rowsAfter ⟨flushed batches, deletions⟩ cursor) =
      rows.filter fun row => decide (cursor < row.seq) := by
    apply rowsAfter_filter ((rows_increasing covers' order).filter _)
    refine List.Perm.trans (perm.filter _) (List.Perm.of_eq ?_)
    rw [inScope, List.filter_filter]
  have early : inScope scope (history.filter fun x => decide (x.seq ≤ cursor)) =
      (inScope scope history).filter fun x => decide (x.seq ≤ cursor) := by
    rw [inScope, inScope, List.filter_filter, List.filter_filter]
    congr 1
    funext x
    exact Bool.and_comm ..
  rw [read, early]
  exact foldLog_resumed order (fun x member => sane x (List.mem_filter.mp member).1) held covers' cut'

/-! ### Two threads -/

def sampleDelta (seq : Nat) (threadId : String) (field : DeltaField) (append : String) : LogEvent where
  seq
  threadId
  at_ := 0
  payload := .itemDelta "item" field append
  id := "event"
  agentId := "agent"

/-- Two threads write in turns. -/
def sampleHistory : List LogEvent :=
  [sampleDelta 1 "one" .text "a", sampleDelta 2 "two" .text "x", sampleDelta 3 "one" .text "b"]

/-- The item that is written to, in a view of the first thread. -/
def sampleView (item : Value) : View := .thread
  { thread := .obj [("id", .str "one")]
    items := Dictionary.empty.put "item" item }

def sampleReasoning : Value := .obj [("type", .str "reasoning"), ("text", .str "")]

def sampleShell : Value := .obj [("type", .str "tool_call"), ("id", .str "item"),
  ("call", .obj [("detail", .obj [("kind", .str "shell")])])]

theorem sampleReasoning_sane : (sampleView sampleReasoning).Sane := by
  intro id item found
  simp only [Dictionary.get?_put, Dictionary.get?_empty] at found
  split at found
  · obtain rfl := Option.some.inj found
    refine ⟨.inl rfl, ?_, ?_⟩
    · intro part member
      exact absurd member (List.not_mem_nil (a := part))
    · intro member
      exact absurd member (by decide)
  · cases found

/-- One thread writes twice before the other. -/
def sampleTurns : List LogEvent :=
  [sampleDelta 1 "one" .text "a", sampleDelta 2 "one" .text "b", sampleDelta 3 "two" .text "x"]

theorem resume_converges_sampleTurns :
    flushed [sampleTurns] = [sampleDelta 2 "one" .text "ab", sampleDelta 3 "two" .text "x"] ∧
    foldLog (sampleView sampleReasoning)
      (inScope (.thread "one") (sampleTurns.filter fun x => decide (x.seq ≤ 2)) ++
        inScope (.thread "one") (rowsAfter ⟨flushed [sampleTurns], []⟩ 2)) =
      foldLog (sampleView sampleReasoning) (inScope (.thread "one") sampleTurns) := by
  refine ⟨by decide, ?_⟩
  refine (resume_converges (by decide) (by decide) ?_ ?_ ?_).2 {} [] 2 (by decide) _ _
    sampleReasoning_sane
  · intro threadId
    rw [List.flatten_singleton]
  · intro batch member
    rw [List.mem_singleton.mp member]
    unfold Gapless Adjacent
    decide
  · intro x member
    simp only [sampleTurns, List.mem_cons, List.not_mem_nil, or_false] at member
    rcases member with rfl | rfl | rfl <;> exact nofun

/-- Flushed thread by thread, the first thread's deltas become one row across the event of the
second. A client of the first thread that has heard of that event gets its first delta again.
A mark in front of an output is dropped from a delta, and kept in a row. -/
theorem share_repeats_text :
    Splits sampleHistory
      [sampleHistory.filter (·.threadId == "one"), sampleHistory.filter (·.threadId == "two")] ∧
    StreamSequences.replaySafe {} ⟨flushed [sampleHistory.filter (·.threadId == "one"),
      sampleHistory.filter (·.threadId == "two")], []⟩ 2 = true ∧
    foldLog (sampleView sampleReasoning)
      (inScope (.thread "one") (sampleHistory.filter fun x => decide (x.seq ≤ 2)) ++
        inScope (.thread "one") (rowsAfter ⟨flushed [sampleHistory.filter (·.threadId == "one"),
          sampleHistory.filter (·.threadId == "two")], []⟩ 2)) ≠
      foldLog (sampleView sampleReasoning) (inScope (.thread "one") sampleHistory) ∧
    foldLog (sampleView sampleShell) (compactDeltas [sampleDelta 1 "one" .output "a",
      sampleDelta 2 "one" .output "\uFEFFb"]) ≠
      foldLog (sampleView sampleShell) [sampleDelta 1 "one" .output "a",
        sampleDelta 2 "one" .output "\uFEFFb"] := by
  refine ⟨?_, by decide, by decide +kernel, by decide +kernel⟩
  intro threadId
  by_cases one : threadId = "one"
  · rw [one]
    decide
  · by_cases two : threadId = "two"
    · rw [two]
      decide
    · have none : ∀ x ∈ sampleHistory, (x.threadId == threadId) = false := by
        intro x member
        simp only [sampleHistory, List.mem_cons, List.not_mem_nil, or_false] at member
        rcases member with rfl | rfl | rfl <;> simp [sampleDelta, Ne.symm one, Ne.symm two]
      have empty : sampleHistory.filter (·.threadId == threadId) = [] := by
        rw [List.filter_eq_nil_iff]
        intro x member
        simp [none x member]
      rw [empty, List.filter_eq_nil_iff]
      intro x member
      simp only [List.flatten_cons, List.flatten_nil, List.append_nil, List.mem_append,
        List.mem_filter] at member
      rcases member with ⟨there, -⟩ | ⟨there, -⟩ <;> simp [none x there]

end Ace.Daemon
