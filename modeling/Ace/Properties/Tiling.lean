import Ace.Daemon.Subscription

/-!
# Intervals that tile a log

Messages tile a stretch of the log when each begins where the one before it ended and holds the
scoped events of its interval, all of them and in order. A stretch may be cut anywhere into
frames and still be tiled, and it stays tiled while the log grows past its end. A client that
stands at its beginning applies every message of it.

## Main results

`Tiles.split`: cutting every message into frames keeps the tiling.
`Tiles.follow`: a client folds exactly the scoped events of the stretch.
-/

namespace Ace.Delivery

open Script

/-- Messages that tile the stretch of a log between two sequences. -/
inductive Tiles (scope : Scope) (log : List Event) : Nat → List Message → Nat → Prop where
  | nil (seq : Nat) : Tiles scope log seq [] seq
  | cons {message : Message} {rest : List Message} {last : Nat}
      (forward : message.afterSeq < message.throughSeq) (cut : message.CutFrom scope log)
      (tiles : Tiles scope log message.throughSeq rest last) :
      Tiles scope log message.afterSeq (message :: rest) last

variable {scope : Scope} {log : List Event}

namespace Tiles

theorem le {start last : Nat} {messages : List Message}
    (tiles : Tiles scope log start messages last) : start ≤ last := by
  induction tiles with
  | nil => exact le_rfl
  | cons forward _ _ ih => exact forward.le.trans ih

theorem append {start middle last : Nat} {messages more : List Message}
    (tiles : Tiles scope log start messages middle) (next : Tiles scope log middle more last) :
    Tiles scope log start (messages ++ more) last := by
  induction tiles with
  | nil => exact next
  | cons forward cut _ ih => exact .cons forward cut (ih next)

theorem single {message : Message} (forward : message.afterSeq < message.throughSeq)
    (cut : message.CutFrom scope log) :
    Tiles scope log message.afterSeq [message] message.throughSeq :=
  .cons forward cut (.nil _)

theorem grow {start last : Nat} {messages : List Message}
    (tiles : Tiles scope log start messages last) {events : List Event}
    (past : ∀ event ∈ events, last < event.seq) :
    Tiles scope (log ++ events) start messages last := by
  induction tiles with
  | nil => exact .nil _
  | @cons message rest last forward cut tiles ih =>
    refine .cons forward ?_ (ih past)
    have none_within : within scope events message.afterSeq message.throughSeq = [] := by
      rw [within, List.filter_eq_nil_iff]
      intro event member
      have beyond := past event member
      have through := tiles.le
      simp only [Bool.and_eq_true, decide_eq_true_eq]
      omega
    unfold Message.CutFrom at cut ⊢
    rw [cut]
    unfold within at none_within ⊢
    rw [List.filter_append, none_within, List.append_nil]

end Tiles

/-! ### Cutting a stretch -/

theorem mem_within {event : Event} {afterSeq throughSeq : Nat} :
    event ∈ within scope log afterSeq throughSeq ↔
      event ∈ log ∧ scope.includes event = true ∧ afterSeq < event.seq ∧
        event.seq ≤ throughSeq := by
  simp [within]

theorem sorted_within (sorted : log.Pairwise (·.seq < ·.seq)) (afterSeq throughSeq : Nat) :
    (within scope log afterSeq throughSeq).Pairwise (·.seq < ·.seq) :=
  sorted.filter _

theorem within_append_within (sorted : log.Pairwise (·.seq < ·.seq)) {start middle last : Nat}
    (le : start ≤ middle) (le' : middle ≤ last) :
    within scope log start middle ++ within scope log middle last =
      within scope log start last := by
  have whole := @upTo_append_within scope log sorted start last (le.trans le')
  rw [← upTo_append_within sorted le', ← upTo_append_within sorted le,
    List.append_assoc] at whole
  exact (List.append_cancel_left whole).symm

theorem append_inj_of_split {α : Type} (p : α → Prop) {xs xs' ys ys' : List α}
    (same : xs ++ ys = xs' ++ ys') (hold : ∀ x ∈ xs, p x) (hold' : ∀ x ∈ xs', p x)
    (fail : ∀ y ∈ ys, ¬ p y) (fail' : ∀ y ∈ ys', ¬ p y) : xs = xs' ∧ ys = ys' := by
  induction xs generalizing xs' with
  | nil =>
    cases xs' with
    | nil => exact ⟨rfl, same⟩
    | cons x xs' =>
      have first : x ∈ ys := by
        rw [List.nil_append] at same
        simp [same]
      exact absurd (hold' x (List.mem_cons_self ..)) (fail x first)
  | cons x xs ih =>
    cases xs' with
    | nil =>
      have first : x ∈ ys' := by
        rw [List.nil_append] at same
        simp [← same]
      exact absurd (hold x (List.mem_cons_self ..)) (fail' x first)
    | cons x' xs' =>
      obtain ⟨rfl, rest⟩ := List.cons.inj same
      obtain ⟨rfl, rfl⟩ := ih rest (fun y member => hold y (List.mem_cons_of_mem _ member))
        fun y member => hold' y (List.mem_cons_of_mem _ member)
      exact ⟨rfl, rfl⟩

theorem within_cut (sorted : log.Pairwise (·.seq < ·.seq)) {start last : Nat}
    {before after : List Event} {event : Event}
    (cut : before ++ event :: after = within scope log start last) :
    start < event.seq ∧ event.seq ≤ last ∧
      before ++ [event] = within scope log start event.seq ∧
      after = within scope log event.seq last := by
  have member : event ∈ within scope log start last := by simp [← cut]
  obtain ⟨-, -, above, below⟩ := mem_within.mp member
  have ordered : (within scope log start last).Pairwise (·.seq < ·.seq) :=
    sorted_within sorted start last
  rw [← cut] at ordered
  obtain ⟨-, ordered_after, earlier⟩ := List.pairwise_append.mp ordered
  have later := (List.pairwise_cons.mp ordered_after).1
  have joined : (before ++ [event]) ++ after =
      within scope log start event.seq ++ within scope log event.seq last := by
    rw [within_append_within sorted above.le below, ← cut, List.append_assoc]
    rfl
  obtain ⟨left, right⟩ := append_inj_of_split (·.seq ≤ event.seq) joined
    (fun e at_left => by
      rcases List.mem_append.mp at_left with early | is_event
      · exact (earlier e early event (List.mem_cons_self ..)).le
      · rw [List.mem_singleton.mp is_event])
    (fun e at_left => (mem_within.mp at_left).2.2.2)
    (fun e at_right => Nat.not_le.mpr (later e at_right))
    (fun e at_right => Nat.not_le.mpr (mem_within.mp at_right).2.2.1)
  exact ⟨above, below, left, right⟩

/-! ### Frames of a message -/

section

open WireEncoder

theorem lastSeq_append (before : List Event) (event : Event) (other : Nat) :
    lastSeq (before ++ [event]) other = event.seq := by
  simp [lastSeq]

theorem tiles_intervals (sorted : log.Pairwise (·.seq < ·.seq)) {last : List Event}
    {afterSeq throughSeq : Nat} {frames : List (List Event)} (filled : ∀ frame ∈ frames, frame ≠ [])
    (forward : afterSeq < throughSeq) (ends : frames ≠ [] → last ≠ [])
    (cut : frames.flatten ++ last = within scope log afterSeq throughSeq) :
    Tiles scope log afterSeq (intervals throughSeq last afterSeq frames) throughSeq := by
  induction frames generalizing afterSeq with
  | nil =>
    rw [List.flatten_nil, List.nil_append] at cut
    exact @Tiles.single scope log (.events afterSeq throughSeq last) forward cut
  | cons frame frames ih =>
    obtain ⟨before, event, rfl⟩ :=
      (List.eq_nil_or_concat' frame).resolve_left (filled frame (List.mem_cons_self ..))
    replace cut : before ++ event :: (frames.flatten ++ last) =
        within scope log afterSeq throughSeq := by
      simpa only [List.flatten_cons, List.append_assoc, List.cons_append, List.nil_append] using cut
    obtain ⟨above, -, is_frame, is_rest⟩ := within_cut sorted cut
    rw [intervals, lastSeq_append]
    have left_over : event.seq < throughSeq := by
      -- the last frame has an event, and it is past this one
      obtain ⟨final, member⟩ := List.exists_mem_of_ne_nil last (ends (by simp))
      have inside : final ∈ within scope log event.seq throughSeq := by
        rw [← is_rest]
        exact List.mem_append.mpr (.inr member)
      obtain ⟨-, -, after, through⟩ := mem_within.mp inside
      omega
    refine @Tiles.cons scope log (.events afterSeq event.seq _) _ _ above is_frame
      (ih ?_ left_over ?_ is_rest)
    · exact fun frame member => filled frame (List.mem_cons_of_mem _ member)
    · exact fun _ => ends (by simp)

theorem tiles_split (sorted : log.Pairwise (·.seq < ·.seq)) (eventBytes : Event → Nat)
    (envelope : Message → Nat) {message : Message}
    (forward : message.afterSeq < message.throughSeq) (cut : message.CutFrom scope log) :
    Tiles scope log message.afterSeq (split eventBytes envelope message) message.throughSeq := by
  cases message with
  | progress afterSeq throughSeq => exact Tiles.single forward cut
  | events afterSeq throughSeq batch =>
    rw [split]
    have filled := pack_ne_nil (eventBytes · + 1) eventFrameBytes
      (envelope (.events afterSeq throughSeq []) + 64) [] batch
      (envelope (.events afterSeq throughSeq []) + 64)
    apply tiles_intervals sorted filled forward
    · intro closed
      apply pack_last_ne_nil
      rintro empty
      apply closed
      rw [List.nil_append] at empty
      rw [empty, pack]
    · rw [flatten_pack]
      exact cut

theorem Tiles.split (sorted : log.Pairwise (·.seq < ·.seq)) (eventBytes : Event → Nat)
    (envelope : Message → Nat) {start last : Nat} {messages : List Message}
    (tiles : Tiles scope log start messages last) :
    Tiles scope log start (messages.flatMap (WireEncoder.split eventBytes envelope)) last := by
  induction tiles with
  | nil => exact .nil _
  | cons forward cut _ ih =>
    rw [List.flatMap_cons]
    exact (tiles_split sorted eventBytes envelope forward cut).append ih

end

/-! ### A client of the messages -/

/-- A client's view after a message that it applied. -/
def follow (view : View) (message : Message) : Option View :=
  match applyDelivery view message with
  | (view, some .applied) => some view
  | _ => none

/-- A view is a view of its scope: one thread, or the thread list. -/
def Scope.IsFor : Scope → View → Prop
  | .thread _, .thread _ => True
  | .threads, .threads _ => True
  | _, _ => False

theorem Scope.IsFor.fold {view folded : View} (is_for : scope.IsFor view) {event : Event}
    (folds : view.fold event = some folded) : scope.IsFor folded := by
  cases view with
  | thread view =>
    obtain ⟨next, -, rfl⟩ := Option.map_eq_some_iff.mp folds
    cases scope <;> exact is_for
  | threads view =>
    cases folds
    cases scope <;> exact is_for

theorem Scope.IsFor.foldlM {view folded : View} (is_for : scope.IsFor view) {events : List Event}
    (folds : events.foldlM View.fold view = some folded) : scope.IsFor folded := by
  induction events generalizing view with
  | nil =>
    cases folds
    exact is_for
  | cons event events ih =>
    rw [List.foldlM_cons] at folds
    obtain ⟨next, first, rest⟩ := Option.bind_eq_some_iff.mp folds
    exact ih (is_for.fold first) rest

theorem Scope.IsFor.withSeq {view : View} (is_for : scope.IsFor view) (seq : Nat) :
    scope.IsFor (view.withSeq seq) := by
  cases view <;> cases scope <;> exact is_for

/-- Events that come in order and in their interval are refused only if one is of another
thread. -/
theorem refused_eq_none {view : View} {throughSeq last : Nat} {events : List Event}
    (ordered : events.Pairwise (·.seq < ·.seq)) (plain : ∀ event ∈ events, event.firstSeq = none)
    (inside : ∀ event ∈ events, last < event.seq ∧ event.seq ≤ throughSeq)
    (accepted : ∀ event ∈ events, view.accepts event = true) :
    refused view throughSeq last events = none := by
  induction events generalizing last with
  | nil => rfl
  | cons event events ih =>
    obtain ⟨later, ordered⟩ := List.pairwise_cons.mp ordered
    have own : event.first = event.seq := by simp [Event.first, plain event]
    have bounds := inside event (List.mem_cons_self ..)
    have in_order : ¬ (event.first ≤ last ∨ event.seq < event.first ∨ throughSeq < event.seq) := by
      omega
    rw [refused, if_neg in_order, if_neg (by simp [accepted event])]
    apply ih ordered
    · exact fun e member => plain e (List.mem_cons_of_mem _ member)
    · exact fun e member => ⟨later e member, (inside e (List.mem_cons_of_mem _ member)).2⟩
    · exact fun e member => accepted e (List.mem_cons_of_mem _ member)

theorem accepts_of_foldlM {view folded : View} (is_for : scope.IsFor view) {events : List Event}
    (in_scope : ∀ event ∈ events, scope.includes event = true)
    (folds : events.foldlM View.fold view = some folded) :
    ∀ event ∈ events, view.accepts event = true := by
  intro event member
  cases scope with
  | threads =>
    cases view with
    | thread view => exact is_for.elim
    | threads view => exact in_scope event member
  | thread threadId =>
    cases view with
    | threads view => exact is_for.elim
    | thread view =>
      -- the first event is folded, and the others are of the same thread
      obtain ⟨first, rest, rfl⟩ := List.exists_cons_of_ne_nil (List.ne_nil_of_mem member)
      rw [List.foldlM_cons] at folds
      obtain ⟨next, folds_first, -⟩ := Option.bind_eq_some_iff.mp folds
      obtain ⟨view', folds_view, -⟩ := Option.map_eq_some_iff.mp folds_first
      have same : event.threadId = first.threadId := by
        have of_event := in_scope event member
        have of_first := in_scope first (List.mem_cons_self ..)
        simp only [Scope.includes, beq_iff_eq] at of_event of_first
        rw [of_event, of_first]
      unfold foldEvent at folds_view
      split at folds_view
      · cases folds_view
      next shown =>
        simp only [View.accepts, ThreadView.shows, same]
        simpa [ThreadView.shows] using shown

theorem follow_eq (sorted : log.Pairwise (·.seq < ·.seq))
    (plain : ∀ event ∈ log, event.firstSeq = none) {view : View} (is_for : scope.IsFor view)
    {message : Message} (joins : message.afterSeq = view.seq)
    (forward : message.afterSeq < message.throughSeq) (cut : message.CutFrom scope log) :
    follow view message =
      (message.carried.foldlM View.fold view).map (View.withSeq message.throughSeq) := by
  have ahead : ¬ message.throughSeq ≤ view.seq := by omega
  rw [follow, applyDelivery, if_neg ahead, if_neg (not_not.mpr joins)]
  cases folds : message.carried.foldlM View.fold view with
  | some folded =>
    have inside : ∀ event ∈ message.carried, event ∈ log ∧ scope.includes event = true ∧
        message.afterSeq < event.seq ∧ event.seq ≤ message.throughSeq := by
      intro event member
      rw [cut] at member
      exact mem_within.mp member
    have passes : refused view message.throughSeq message.afterSeq message.carried = none := by
      apply refused_eq_none
      · rw [cut]
        exact sorted_within sorted _ _
      · exact fun event member => plain event (inside event member).1
      · exact fun event member => (inside event member).2.2
      · exact accepts_of_foldlM is_for (fun event member => (inside event member).2.1) folds
    rw [passes]
    rw [foldAll_eq] at folds
    split at folds
    next returned =>
      cases folds
      simp only [returned, if_true, Option.map_some]
    next => cases folds
  | none =>
    rw [foldAll_eq] at folds
    split at folds
    next => cases folds
    next threw =>
      cases found : refused view message.throughSeq message.afterSeq message.carried with
      | none => simp [threw]
      | some gap =>
        have not_applied := refused_gap found
        cases gap <;> first | rfl | exact absurd rfl not_applied

/-- **A client folds what is tiled.** From a view that stands where the messages begin, every
message is applied, and the view ends as the fold of the scoped events of the stretch, unless one
of them throws. -/
theorem Tiles.follow (sorted : log.Pairwise (·.seq < ·.seq))
    (plain : ∀ event ∈ log, event.firstSeq = none) {view : View} (is_for : scope.IsFor view)
    {start last : Nat} {messages : List Message} (tiles : Tiles scope log start messages last)
    (stands : view.seq = start) :
    messages.foldlM Delivery.follow view =
      ((within scope log start last).foldlM View.fold view).map (View.withSeq last) := by
  induction tiles generalizing view with
  | nil seq =>
    have nothing : within scope log seq seq = [] := by
      rw [within, List.filter_eq_nil_iff]
      intro event _
      simp only [Bool.and_eq_true, decide_eq_true_eq]
      omega
    rw [nothing]
    subst stands
    cases view <;> rfl
  | @cons message rest last forward cut tiles ih =>
    rw [List.foldlM_cons, follow_eq sorted plain is_for stands.symm forward cut,
      ← within_append_within sorted forward.le tiles.le, List.foldlM_append, ← cut]
    cases folds : message.carried.foldlM View.fold view with
    | none => rfl
    | some folded =>
      have next := ih ((is_for.foldlM folds).withSeq message.throughSeq)
        (seq_withSeq message.throughSeq folded)
      simp only [Option.map_some, Option.bind_eq_bind, Option.bind_some]
      rw [next, foldlM_withSeq, Option.map_map]
      congr 1
      funext view
      simp

end Ace.Delivery
