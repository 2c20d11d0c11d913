import Ace.Properties.Tiling

/-!
# A subscription tiles the log

Whatever moves the cursor of a subscription sends the scoped events of what it moves over: a
replay reads them, a batch brings them, and progress passes only over events that are out of
scope. Between the registration of the listener and the end of the set-up batches are queued, and
what was published before then is below the head that the set-up starts from.

## Main result

`subscription_tiles`
-/

namespace Ace.Delivery

open Script

variable {scope : Scope} {log : List Event}

/-! ### Reading -/

theorem readWithin_append (eventBytes : Event → Nat) (byteLimit bytes : Nat)
    (events : List Event) :
    ∃ unread, readWithin eventBytes byteLimit bytes events ++ unread = events ∧
      (unread ≠ [] → byteLimit < bytes +
        ((readWithin eventBytes byteLimit bytes events).map eventBytes).sum) := by
  induction events generalizing bytes with
  | nil => exact ⟨[], rfl, fun unread => absurd rfl unread⟩
  | cons event events ih =>
    rw [readWithin]
    split
    next passes => exact ⟨events, rfl, fun _ => by simpa using passes⟩
    next =>
      obtain ⟨unread, whole, passes⟩ := ih (bytes + eventBytes event)
      refine ⟨unread, by rw [List.cons_append, whole], fun left => ?_⟩
      have more := passes left
      rw [List.map_cons, List.sum_cons]
      omega

theorem lt_of_mem_drop {events : List Event} (sorted : events.Pairwise (·.seq < ·.seq))
    {afterSeq : Nat} (past : ∀ event ∈ events, afterSeq < event.seq) {count : Nat} {event : Event}
    (member : event ∈ events.drop count) : afterSeq + count < event.seq := by
  induction events generalizing afterSeq count with
  | nil => simp at member
  | cons first events ih =>
    obtain ⟨later, sorted⟩ := List.pairwise_cons.mp sorted
    have past_first := past first (List.mem_cons_self ..)
    cases count with
    | zero => exact past event member
    | succ count =>
      have past_rest := ih sorted later member
      omega

theorem read_complete {eventBytes : Event → Nat} {byteLimit limit afterSeq head : Nat}
    {rows : List Event} (sorted : rows.Pairwise (·.seq < ·.seq))
    (past : ∀ event ∈ rows, afterSeq < event.seq) (few : head - afterSeq ≤ limit)
    (fits : (((readWithin eventBytes byteLimit 0 (rows.take limit)).filter
      (·.seq ≤ head)).map eventBytes).sum ≤ byteLimit) :
    (readWithin eventBytes byteLimit 0 (rows.take limit)).filter (·.seq ≤ head) =
      rows.filter (·.seq ≤ head) := by
  obtain ⟨unread, whole, passes⟩ := readWithin_append eventBytes byteLimit 0 (rows.take limit)
  generalize readWithin eventBytes byteLimit 0 (rows.take limit) = read at whole passes fits ⊢
  have all_rows : read ++ (unread ++ rows.drop limit) = rows := by
    rw [← List.append_assoc, whole, List.take_append_drop]
  have unread_past : ∀ event ∈ unread ++ rows.drop limit, head < event.seq := by
    intro event member
    rcases List.mem_append.mp member with cut | dropped
    · -- if it were not past the head, what was read would be too much
      by_contra inside
      have too_much := passes (List.ne_nil_of_mem cut)
      have all_inside : read.filter (·.seq ≤ head) = read := by
        rw [List.filter_eq_self]
        intro earlier member'
        rw [← all_rows] at sorted
        have before := (List.pairwise_append.mp sorted).2.2 earlier member' event member
        simp only [decide_eq_true_eq]
        omega
      rw [all_inside] at fits
      omega
    · have beyond := lt_of_mem_drop sorted past dropped
      omega
  have nothing : (unread ++ rows.drop limit).filter (·.seq ≤ head) = [] := by
    rw [List.filter_eq_nil_iff]
    intro event member
    have beyond := unread_past event member
    simp only [decide_eq_true_eq]
    omega
  conv_rhs => rw [← all_rows, List.filter_append, nothing, List.append_nil]

theorem replay_complete (host : Host) (request : Request) (store : Store) {afterSeq head : Nat}
    (few : head - afterSeq ≤ request.replayLimit)
    (fits : (replay host request store afterSeq head).2 = false) :
    ((replay host request store afterSeq head).1.filter fun event =>
      decide (afterSeq < event.seq) && decide (event.seq ≤ head) &&
        request.scope.includes event) = within request.scope store.log afterSeq head := by
  have light := (Bool.or_eq_false_iff.mp fits).1
  rw [decide_eq_false_iff_not, Nat.not_lt] at light
  have past : ∀ event ∈ store.log.filter (fun event =>
      decide (afterSeq < event.seq) && request.threadId.all (event.threadId == ·)),
      afterSeq < event.seq := by
    intro event member
    rw [List.mem_filter, Bool.and_eq_true, decide_eq_true_eq] at member
    exact member.2.1
  have complete := read_complete (store.sorted.filter _) past few light
  simp only [replay, readEvents]
  rw [complete, List.filter_filter, List.filter_filter, within]
  congr 1
  funext event
  have same_thread : request.scope.includes event = true →
      request.threadId.all (event.threadId == ·) = true := by
    cases is_scope : request.scope <;> simp [Request.threadId, is_scope, Scope.includes]
  rw [Bool.eq_iff_iff]
  simp only [Bool.and_eq_true, decide_eq_true_eq]
  tauto

/-! ### Moving the cursor -/

/-- A subscription sent messages that tile what its cursor moved over. -/
def Advances (scope : Scope) (log : List Event) (s s' : Subscription) : Prop :=
  ∃ messages : List Message, s'.sent = s.sent ++ messages.map .interval ∧
    Tiles scope log s.cursor messages s'.cursor

namespace Advances

theorem of_same {s s' : Subscription} (sent : s'.sent = s.sent) (cursor : s'.cursor = s.cursor) :
    Advances scope log s s' := by
  refine ⟨[], by simp [sent], ?_⟩
  rw [cursor]
  exact .nil _

theorem trans {s s' s'' : Subscription} (first : Advances scope log s s')
    (second : Advances scope log s' s'') : Advances scope log s s'' := by
  obtain ⟨messages, sent, tiles⟩ := first
  obtain ⟨messages', sent', tiles'⟩ := second
  exact ⟨messages ++ messages', by rw [sent', sent, List.map_append, List.append_assoc],
    tiles.append tiles'⟩

theorem le {s s' : Subscription} (advances : Advances scope log s s') : s.cursor ≤ s'.cursor :=
  advances.choose_spec.2.le

end Advances

namespace Subscription

/-- What a delivery leaves alone. -/
structure Kept (s s' : Subscription) : Prop where
  phase : s'.phase = s.phase
  queued : s'.queued = s.queued
  stopped : s.stopped = true → s'.stopped = true

theorem Kept.refl (s : Subscription) : Kept s s := ⟨rfl, rfl, id⟩

theorem Kept.trans {s s' s'' : Subscription} (first : Kept s s') (second : Kept s' s'') :
    Kept s s'' :=
  ⟨second.phase.trans first.phase, second.queued.trans first.queued,
    fun stopped => second.stopped (first.stopped stopped)⟩

theorem Kept.send (s : Subscription) (cursor : Nat) (message : ServerMessage) :
    Kept s ({ s with cursor }.send message) := ⟨rfl, rfl, id⟩

theorem stop_spec (s : Subscription) : Kept s s.stop ∧ s.stop.stopped = true ∧
    s.stop.sent = s.sent ∧ s.stop.cursor = s.cursor ∧ s.stop.progressHead = s.progressHead := by
  unfold stop
  split
  next stopped => exact ⟨.refl s, stopped, rfl, rfl, rfl⟩
  next => exact ⟨⟨rfl, rfl, fun _ => rfl⟩, rfl, rfl, rfl, rfl⟩

end Subscription

/-- What sending frames up to `head` does. -/
structure Sends (scope : Scope) (log : List Event) (head : Nat) (hangup : Option Nat)
    (s s' : Subscription) : Prop where
  advances : Advances scope log s s'
  kept : s.Kept s'
  progressHead : s'.progressHead = s.progressHead
  cursor_le : s'.cursor ≤ head
  reaches : s'.stopped = false → s'.cursor = head
  running : hangup = none → s'.stopped = false
  timer : s.progressTimer = false → s'.progressTimer = false

theorem stops_spec (hangup : Option Nat) (s : Subscription) (running : s.stopped = false) :
    let s' := if hangup = some 0 then s.stop else s
    s.Kept s' ∧ s'.sent = s.sent ∧ s'.cursor = s.cursor ∧ s'.progressHead = s.progressHead ∧
      (hangup = none → s'.stopped = false) ∧
      (s.progressTimer = false → s'.progressTimer = false) := by
  intro s'
  by_cases now : hangup = some 0
  · obtain ⟨kept, -, sent, cursor, progressHead⟩ := s.stop_spec
    have same : s' = s.stop := if_pos now
    rw [same, now]
    exact ⟨kept, sent, cursor, progressHead, nofun, fun _ => by simp [Subscription.stop, running]⟩
  · have same : s' = s := if_neg now
    rw [same]
    exact ⟨.refl s, rfl, rfl, rfl, fun _ => running, id⟩

theorem sendFrames_spec (sorted : log.Pairwise (·.seq < ·.seq)) {head : Nat}
    {frames : List (List Event)} (filled : ∀ frame ∈ frames, frame ≠ []) {hangup : Option Nat}
    {s : Subscription} (running : s.stopped = false) (some_left : frames ≠ [])
    (forward : s.cursor < head) (cut : frames.flatten = within scope log s.cursor head) :
    Sends scope log head hangup s (s.sendFrames head hangup frames) := by
  induction frames generalizing s hangup with
  | nil => exact absurd rfl some_left
  | cons frame frames ih =>
    rw [Subscription.sendFrames, if_neg (by simp [running])]
    cases frames with
    | nil =>
      -- the last frame goes up to the head
      rw [List.flatten_cons, List.flatten_nil, List.append_nil] at cut
      simp only [List.isEmpty_nil, if_true, Subscription.sendFrames]
      obtain ⟨kept, sent, cursor, progress, goes_on, timer⟩ := stops_spec hangup
        (Subscription.send { s with cursor := head } (.interval (.events s.cursor head frame)))
        running
      refine ⟨⟨[.events s.cursor head frame], sent, ?_⟩, .trans (.send ..) kept, progress,
        cursor.le, fun _ => cursor, goes_on, timer⟩
      rw [cursor]
      exact @Tiles.single scope log (.events s.cursor head frame) forward cut
    | cons next frames =>
      obtain ⟨before, event, rfl⟩ :=
        (List.eq_nil_or_concat' frame).resolve_left (filled frame (List.mem_cons_self ..))
      replace cut : before ++ event :: (next :: frames).flatten =
          within scope log s.cursor head := by
        simpa only [List.flatten_cons, List.append_assoc, List.cons_append, List.nil_append]
          using cut
      obtain ⟨above, -, is_frame, is_rest⟩ := within_cut sorted cut
      have left_over : event.seq < head := by
        obtain ⟨final, member⟩ := List.exists_mem_of_ne_nil next (filled next (by simp))
        have inside : final ∈ within scope log event.seq head := by
          rw [← is_rest]
          exact List.mem_append.mpr (.inl member)
        obtain ⟨-, -, after, through⟩ := mem_within.mp inside
        omega
      simp only [List.isEmpty_cons, Bool.false_eq_true, if_false, WireEncoder.lastSeq,
        List.getLast?_concat, Option.map_some, Option.getD_some]
      obtain ⟨kept, sent, cursor, progress, goes_on, timer⟩ := stops_spec hangup
        (Subscription.send { s with cursor := event.seq }
          (.interval (.events s.cursor event.seq (before ++ [event])))) running
      generalize (if hangup = some 0 then _ else _) = s' at kept sent cursor progress goes_on timer ⊢
      have advances : Advances scope log s s' := by
        refine ⟨[.events s.cursor event.seq (before ++ [event])], sent, ?_⟩
        rw [cursor]
        exact @Tiles.single scope log (.events s.cursor event.seq _) above is_frame
      have kept' : s.Kept s' := .trans (.send ..) kept
      cases running' : s'.stopped with
      | true =>
        rw [Subscription.sendFrames, if_pos running']
        refine ⟨advances, kept', progress, by rw [cursor]; exact left_over.le, ?_, ?_, timer⟩
        · exact fun goes => absurd running' (by simp [goes])
        · exact fun never => absurd running' (by simp [goes_on never])
      | false =>
        have rest := @ih (fun frame member => filled frame (List.mem_cons_of_mem _ member))
          (hangup.map (· - 1)) s' running' (by simp) (by rw [cursor]; exact left_over)
          (by rw [cursor]; exact is_rest)
        refine ⟨advances.trans rest.advances, kept'.trans rest.kept,
          rest.progressHead.trans progress, rest.cursor_le, rest.reaches, ?_, ?_⟩
        · rintro rfl
          exact rest.running rfl
        · exact fun off => rest.timer (timer off)

theorem replayFrames_spec (eventBytes : Event → Nat) {events : List Event} (some_left : events ≠ []) :
    (replayFrames eventBytes events).flatten = events ∧ replayFrames eventBytes events ≠ [] ∧
      ∀ frame ∈ replayFrames eventBytes events, frame ≠ [] := by
  have last := pack_last_ne_nil eventBytes replayFrameBytes 0 [] events 0 (by simpa using some_left)
  have whole := flatten_pack eventBytes replayFrameBytes 0 [] events 0
  have filled := pack_ne_nil eventBytes replayFrameBytes 0 [] events 0
  rw [replayFrames]
  generalize pack eventBytes replayFrameBytes 0 [] 0 events = packed at last whole filled ⊢
  have not_empty : ¬ packed.2.isEmpty = true := by simpa using last
  simp only [not_empty, Bool.false_eq_true, if_false]
  refine ⟨by simpa using whole, by simp, ?_⟩
  intro frame member
  rcases List.mem_append.mp member with closed | is_last
  · exact filled frame closed
  · rw [List.mem_singleton.mp is_last]
    exact last

/-- A cursor is below the progress, the progress below the head of the log, and nothing in scope
is between the cursor and the progress unless the subscription has stopped. -/
structure Current (scope : Scope) (log : List Event) (top : Nat) (s : Subscription) : Prop where
  le : s.cursor ≤ s.progressHead
  bounded : s.progressHead ≤ top
  quiet : s.stopped = false → ∀ event ∈ log, scope.includes event = true →
    s.cursor < event.seq → s.progressHead < event.seq

theorem flushProgress_spec {s : Subscription} {top : Nat} (current : Current scope log top s) :
    Advances scope log s s.flushProgress ∧ s.Kept s.flushProgress ∧
      Current scope log top s.flushProgress ∧ s.flushProgress.stopped = s.stopped ∧
      s.flushProgress.progressHead = s.progressHead ∧ s.flushProgress.progressTimer = false ∧
      (s.stopped = false → s.flushProgress.cursor = s.progressHead) := by
  unfold Subscription.flushProgress
  simp only
  split
  next idle =>
    refine ⟨.of_same rfl rfl, ⟨rfl, rfl, id⟩, ⟨current.le, current.bounded, current.quiet⟩, rfl, rfl,
      rfl, ?_⟩
    intro running
    have le := current.le
    simp only [running, Bool.false_or, decide_eq_true_eq] at idle
    exact Nat.le_antisymm le idle
  next moves =>
    simp only [Bool.or_eq_true, decide_eq_true_eq, not_or, Bool.not_eq_true, Nat.not_le] at moves
    obtain ⟨running, ahead⟩ := moves
    refine ⟨⟨[.progress s.cursor s.progressHead], rfl, ?_⟩, ⟨rfl, rfl, id⟩, ?_, rfl, rfl, rfl,
      fun _ => rfl⟩
    · refine @Tiles.single scope log (.progress s.cursor s.progressHead) ahead ?_
      -- progress passes over nothing in scope
      refine (List.filter_eq_nil_iff.mpr ?_).symm
      intro event member
      have past := current.quiet running event member
      simp only [Bool.and_eq_true, decide_eq_true_eq]
      rintro ⟨inside, after, through⟩
      exact absurd (past inside after) (by simpa [Message.throughSeq] using through)
    · exact ⟨le_rfl, current.bounded, fun _ event _ _ after => after⟩

/-- What a delivery does, of events that are all there is in scope between the cursor and `head`. -/
structure Delivered (scope : Scope) (log : List Event) (top head : Nat) (hangup : Option Nat)
    (s s' : Subscription) : Prop where
  advances : Advances scope log s s'
  kept : s.Kept s'
  current : Current scope log top s'
  covered : s'.stopped = false → ∀ event ∈ log, scope.includes event = true → event.seq ≤ head →
    event.seq ≤ s'.cursor
  running : s.stopped = false → hangup = none → s'.stopped = false

theorem deliver_spec (sorted : log.Pairwise (·.seq < ·.seq)) (eventBytes : Event → Nat)
    {s : Subscription} {top head : Nat} {events : List Event} {replay : Bool} {hangup : Option Nat}
    (current : Current scope log top s) (running : s.stopped = false) (le_top : head ≤ top)
    (complete : s.cursor < head → (events.filter fun event =>
      decide (s.cursor < event.seq) && decide (event.seq ≤ head) && scope.includes event) =
        within scope log s.cursor head) :
    Delivered scope log top head hangup s
      (s.deliver eventBytes scope events head replay hangup) := by
  rw [Subscription.deliver]
  split
  next behind =>
    exact ⟨.of_same rfl rfl, .refl s, current, fun _ _ _ _ le => le.trans behind, fun go _ => go⟩
  next ahead =>
    rw [Nat.not_le] at ahead
    simp only [complete ahead]
    have no_more : s.cursor ≤ max s.progressHead head := by omega
    split
    next some_selected =>
      have some_left : within scope log s.cursor head ≠ [] := by simpa using some_selected
      obtain ⟨whole, some_frames, filled⟩ := replayFrames_spec eventBytes some_left
      have sends := @sendFrames_spec scope log sorted head _ filled hangup
        (Subscription.cancelProgress { s with progressHead := max s.progressHead head }) running
        some_frames ahead whole
      generalize Subscription.sendFrames head hangup _ _ = s' at sends ⊢
      have is_progress : s'.progressHead = max s.progressHead head := sends.progressHead
      have le_top' : s'.progressHead ≤ top := by
        have old := current.bounded
        omega
      refine ⟨sends.advances, ⟨sends.kept.phase, sends.kept.queued, sends.kept.stopped⟩,
        ⟨?_, le_top', ?_⟩, ?_, fun _ => sends.running⟩
      · have le := sends.cursor_le
        omega
      · intro goes event member inside after
        have past := current.quiet running event member inside
        have reached := sends.reaches goes
        omega
      · intro goes event member inside le
        rw [sends.reaches goes]
        exact le
    next none_selected =>
      have nothing : within scope log s.cursor head = [] := by simpa using none_selected
      have passed : ∀ event ∈ log, scope.includes event = true → event.seq ≤ head →
          event.seq ≤ s.cursor := by
        intro event member inside le
        by_contra after
        have found : event ∈ within scope log s.cursor head :=
          mem_within.mpr ⟨member, inside, by omega, le⟩
        rw [nothing] at found
        simp at found
      have quiet : ∀ event ∈ log, scope.includes event = true → s.cursor < event.seq →
          max s.progressHead head < event.seq := by
        intro event member inside after
        have past := current.quiet running event member inside after
        have beyond : ¬ event.seq ≤ head := fun le => by
          have before := passed event member inside le
          omega
        omega
      have le_top' : max s.progressHead head ≤ top := by
        have old := current.bounded
        omega
      split
      next =>
        obtain ⟨advances, kept, current', same, -⟩ := @flushProgress_spec scope log
          (Subscription.cancelProgress { s with progressHead := max s.progressHead head }) top
          ⟨no_more, le_top', fun _ => quiet⟩
        refine ⟨advances, ⟨kept.phase, kept.queued, kept.stopped⟩, current', ?_,
          fun _ _ => same.trans running⟩
        exact fun _ event member inside le => (passed event member inside le).trans advances.le
      next =>
        exact ⟨.of_same rfl rfl, ⟨rfl, rfl, id⟩, ⟨no_more, le_top', fun _ => quiet⟩,
          fun _ => passed, fun go _ => go⟩

theorem deliver_replay (sorted : log.Pairwise (·.seq < ·.seq)) (eventBytes : Event → Nat)
    {s : Subscription} {head : Nat} {events : List Event} (running : s.stopped = false)
    (level : s.progressHead = s.cursor) (ahead : s.cursor < head)
    (complete : (events.filter fun event => decide (s.cursor < event.seq) &&
      decide (event.seq ≤ head) && scope.includes event) = within scope log s.cursor head) :
    let s' := s.deliver eventBytes scope events head true none
    s'.cursor = head ∧ s'.progressHead = head ∧ s'.progressTimer = false := by
  have up : max s.progressHead head = head := by omega
  rw [Subscription.deliver, if_neg (by omega)]
  simp only [complete, up]
  split
  next some_selected =>
    have some_left : within scope log s.cursor head ≠ [] := by simpa using some_selected
    obtain ⟨whole, some_frames, filled⟩ := replayFrames_spec eventBytes some_left
    have sends := @sendFrames_spec scope log sorted head _ filled none
      (Subscription.cancelProgress { s with progressHead := head }) running some_frames ahead whole
    exact ⟨sends.reaches (sends.running rfl), sends.progressHead, sends.timer rfl⟩
  next =>
    simp [Subscription.flushProgress, Subscription.cancelProgress, Subscription.send, running,
      Nat.not_le.mpr ahead]

/-! ### Runs -/

/-- The messages that carry state: all but the one that says that a set-up is over. -/
def deliveries (sent : List ServerMessage) : List ServerMessage :=
  sent.filter fun message => match message with
    | .ready _ => false
    | _ => true

/-- How a subscription opens, and the sequence from which it goes on: with nothing, from the
cursor that it was asked for, or with a snapshot. -/
inductive Opening (request : Request) : List ServerMessage → Nat → Prop where
  | resumed : Opening request [] (request.afterSeq.getD 0)
  | snapshot (seq : Nat) (view : View) (stands : view.seq = seq) :
      Opening request [.snapshot seq view] seq

/-- What was sent is an opening and messages that tile the log up to the cursor. -/
def Tiled (request : Request) (log : List Event) (s : Subscription) : Prop :=
  ∃ opening start messages, Opening request opening start ∧
    deliveries s.sent = opening ++ messages.map .interval ∧
    (request.afterSeq = none → opening = [] → messages = []) ∧
    Tiles request.scope log start messages s.cursor

section

variable {request : Request} {s s' : Subscription}

theorem deliveries_append (sent more : List ServerMessage) :
    deliveries (sent ++ more) = deliveries sent ++ deliveries more := by
  simp [deliveries]

theorem deliveries_intervals (messages : List Message) :
    deliveries (messages.map .interval) = messages.map .interval := by
  rw [deliveries, List.filter_eq_self]
  intro message member
  obtain ⟨_, -, rfl⟩ := List.mem_map.mp member
  rfl

theorem tiled_of_fresh (sent : s.sent = []) (cursor : s.cursor = request.afterSeq.getD 0) :
    Tiled request log s := by
  refine ⟨[], _, [], .resumed, by rw [sent]; rfl, fun _ _ => rfl, ?_⟩
  rw [cursor]
  exact .nil _

theorem Tiled.advance (tiled : Tiled request log s) (advances : Advances request.scope log s s')
    (begun : request.afterSeq = none → deliveries s.sent ≠ []) : Tiled request log s' := by
  obtain ⟨opening, start, messages, opens, sent, asked, tiles⟩ := tiled
  obtain ⟨more, sent', tiles'⟩ := advances
  refine ⟨opening, start, messages ++ more, opens, ?_, ?_, tiles.append tiles'⟩
  · rw [sent', deliveries_append, deliveries_intervals, sent, List.map_append, List.append_assoc]
  · intro unasked closed
    have none_sent := begun unasked
    rw [sent, asked unasked closed, closed] at none_sent
    exact absurd rfl none_sent

theorem Tiled.grow (tiled : Tiled request log s) {events : List Event}
    (past : ∀ event ∈ events, s.cursor < event.seq) : Tiled request (log ++ events) s := by
  obtain ⟨opening, start, messages, opens, sent, asked, tiles⟩ := tiled
  exact ⟨opening, start, messages, opens, sent, asked, tiles.grow past⟩

end

/-- Whatever is published and not queued is at most `seq`. -/
def Queues (store : Store) (s : Subscription) (seq : Nat) : Prop :=
  ∃ old, store.log.take store.published = old ++ s.queued ∧ ∀ event ∈ old, event.seq ≤ seq

/-- A subscription that has not sent anything. -/
structure Fresh (request : Request) (s : Subscription) : Prop where
  sent : s.sent = []
  cursor : s.cursor = request.afterSeq.getD 0
  level : s.progressHead = s.cursor
  idle : s.progressTimer = false
  running : s.stopped = false

structure Replayable (request : Request) (store : Store) (head : Nat) : Prop where
  le : head ≤ store.head
  asked : ∃ afterSeq, request.afterSeq = some afterSeq ∧ afterSeq ≤ head ∧
    head - afterSeq ≤ request.replayLimit

/-- A set-up that has sent its opening. -/
structure Opened (request : Request) (store : Store) (s : Subscription) : Prop where
  tiled : Tiled request store.log s
  begun : request.afterSeq = none → deliveries s.sent ≠ []
  le : s.cursor ≤ store.head
  level : s.progressHead = s.cursor
  idle : s.progressTimer = false
  running : s.stopped = false

/-- A subscription that gets what is published. -/
structure Live (request : Request) (store : Store) (s : Subscription) : Prop where
  tiled : Tiled request store.log s
  begun : request.afterSeq = none → deliveries s.sent ≠ []
  current : Current request.scope store.log store.head s
  covered : s.stopped = false → ∀ event ∈ store.log.take store.published,
    request.scope.includes event = true → event.seq ≤ s.cursor

/-- What holds of a store and a subscription, by the phase of the subscription. -/
def Sound (request : Request) (world : World) : Prop :=
  let store := world.store
  let s := world.subscription
  match s.phase with
  | .checking | .comparing _ | .snapshotting => Fresh request s ∧ Queues store s store.head
  | .replaying head | .overflowing head =>
    Fresh request s ∧ Queues store s head ∧ Replayable request store head
  | .finishing => Opened request store s ∧ Queues store s s.cursor
  | .live => Live request store s
  | .failed _ => s.sent = [] ∧ s.cursor = request.afterSeq.getD 0 ∧ s.progressTimer = false

theorem Sound.tiled {request : Request} {world : World} (sound : Sound request world) :
    Tiled request world.store.log world.subscription := by
  unfold Sound at sound
  simp only at sound
  split at sound
  · exact tiled_of_fresh sound.1.sent sound.1.cursor
  · exact tiled_of_fresh sound.1.sent sound.1.cursor
  · exact tiled_of_fresh sound.1.sent sound.1.cursor
  · exact tiled_of_fresh sound.1.sent sound.1.cursor
  · exact tiled_of_fresh sound.1.sent sound.1.cursor
  · exact sound.1.tiled
  · exact sound.tiled
  · exact tiled_of_fresh sound.1 sound.2.1

/-! ### One step -/

section

variable {request : Request} {store : Store} {s : Subscription}

theorem Queues.commit {seq seq' : Nat} (queues : Queues store s seq) (le : seq ≤ seq')
    {events : List Event} {head : Nat} (continues : store.Continues events head) :
    Queues (store.commit events head continues) s seq' := by
  obtain ⟨old, published, below⟩ := queues
  refine ⟨old, ?_, fun event member => (below event member).trans le⟩
  rw [← published]
  exact List.take_append_of_le_length store.published_le

theorem sound_commit (sound : Sound request ⟨store, s⟩) {events : List Event} {head : Nat}
    (continues : store.Continues events head) :
    Sound request ⟨store.commit events head continues, s⟩ := by
  have same_published : (store.log ++ events).take store.published =
      store.log.take store.published := List.take_append_of_le_length store.published_le
  unfold Sound at sound ⊢
  simp only at sound ⊢
  split at sound
  · exact ⟨sound.1, sound.2.commit continues.1 continues⟩
  · exact ⟨sound.1, sound.2.commit continues.1 continues⟩
  · exact ⟨sound.1, sound.2.commit continues.1 continues⟩
  · exact ⟨sound.1, sound.2.1.commit le_rfl continues, sound.2.2.le.trans continues.1,
      sound.2.2.asked⟩
  · exact ⟨sound.1, sound.2.1.commit le_rfl continues, sound.2.2.le.trans continues.1,
      sound.2.2.asked⟩
  · obtain ⟨opened, queues⟩ := sound
    refine ⟨⟨opened.tiled.grow ?_, opened.begun, opened.le.trans continues.1, opened.level,
      opened.idle, opened.running⟩, queues.commit le_rfl continues⟩
    intro event member
    exact opened.le.trans_lt (continues.2.2 event member).1
  · have bounds := sound.current
    refine ⟨sound.tiled.grow ?_, sound.begun,
      ⟨bounds.le, bounds.bounded.trans continues.1, ?_⟩, ?_⟩
    · intro event member
      exact (bounds.le.trans bounds.bounded).trans_lt (continues.2.2 event member).1
    · intro running event member inside after
      rcases List.mem_append.mp member with old | new
      · exact bounds.quiet running event old inside after
      · exact bounds.bounded.trans_lt (continues.2.2 event new).1
    · intro running event member
      exact sound.covered running event (same_published ▸ member)
  · exact sound

theorem published_append_batch (store : Store) (count : Nat) :
    (store.publish count).log.take (store.publish count).published =
      store.log.take store.published ++ store.batch count := by
  simp only [Store.publish, Store.batch]
  rw [← List.take_add]
  by_cases whole : store.published + count ≤ store.log.length
  · rw [Nat.min_eq_left whole]
  · rw [Nat.min_eq_right (by omega), List.take_of_length_le le_rfl,
      List.take_of_length_le (by omega)]

/-- A batch has what is in scope between a cursor and its last event, if what comes before it in
the log is behind the cursor. -/
theorem batch_complete {old batch rest : List Event} {scope : Scope} {cursor : Nat}
    (sorted : (old ++ batch ++ rest).Pairwise (·.seq < ·.seq))
    (behind : ∀ event ∈ old, scope.includes event = true → event.seq ≤ cursor)
    (ahead : cursor < WireEncoder.lastSeq batch cursor) :
    (batch.filter fun event => decide (cursor < event.seq) &&
      decide (event.seq ≤ WireEncoder.lastSeq batch cursor) && scope.includes event) =
      within scope (old ++ batch ++ rest) cursor (WireEncoder.lastSeq batch cursor) := by
  rcases List.eq_nil_or_concat' batch with rfl | ⟨before, last, rfl⟩
  · exact absurd ahead (Nat.lt_irrefl cursor)
  · rw [lastSeq_append]
    have none_old : within scope old cursor last.seq = [] := by
      rw [within, List.filter_eq_nil_iff]
      intro event member
      have passed := behind event member
      simp only [Bool.and_eq_true, decide_eq_true_eq]
      rintro ⟨inside, after, -⟩
      exact absurd (passed inside) (Nat.not_le.mpr after)
    have none_rest : within scope rest cursor last.seq = [] := by
      rw [within, List.filter_eq_nil_iff]
      intro event member
      have later := (List.pairwise_append.mp sorted).2.2 last (by simp) event member
      simp only [Bool.and_eq_true, decide_eq_true_eq]
      omega
    unfold within at none_old none_rest ⊢
    conv_rhs => rw [List.filter_append, List.filter_append, none_old, none_rest, List.nil_append,
      List.append_nil]
    apply List.filter_congr
    intro event _
    rw [Bool.eq_iff_iff]
    simp only [Bool.and_eq_true, decide_eq_true_eq]
    tauto

theorem le_lastSeq {batch : List Event} (sorted : batch.Pairwise (·.seq < ·.seq)) {event : Event}
    (member : event ∈ batch) (other : Nat) : event.seq ≤ WireEncoder.lastSeq batch other := by
  rcases List.eq_nil_or_concat' batch with rfl | ⟨before, last, rfl⟩
  · simp at member
  · rw [lastSeq_append]
    rcases List.mem_append.mp member with early | is_last
    · exact ((List.pairwise_append.mp sorted).2.2 event early last (by simp)).le
    · rw [List.mem_singleton.mp is_last]

theorem live_deliver (eventBytes : Event → Nat) {old batch : List Event}
    (tiled : Tiled request store.log s) (begun : request.afterSeq = none → deliveries s.sent ≠ [])
    (current : Current request.scope store.log store.head s) (running : s.stopped = false)
    (published : store.log.take store.published = old ++ batch)
    (behind : ∀ event ∈ old, request.scope.includes event = true → event.seq ≤ s.cursor)
    (hangup : Option Nat) :
    let s' := s.deliver eventBytes request.scope batch (WireEncoder.lastSeq batch s.cursor) false
      hangup
    Live request store s' ∧ s.Kept s' := by
  intro s'
  have whole : store.log = old ++ batch ++ store.log.drop store.published := by
    rw [← published, List.take_append_drop]
  have sorted := store.sorted
  rw [whole] at sorted
  have sorted_batch := (List.pairwise_append.mp (List.pairwise_append.mp sorted).1).2.1
  have le_top : WireEncoder.lastSeq batch s.cursor ≤ store.head := by
    rcases List.eq_nil_or_concat' batch with rfl | ⟨before, last, rfl⟩
    · exact current.le.trans current.bounded
    · rw [lastSeq_append]
      exact store.bounded last (by rw [whole]; simp)
  have delivered := @deliver_spec request.scope store.log store.sorted eventBytes s store.head
    (WireEncoder.lastSeq batch s.cursor) batch false hangup current running le_top (by
      intro ahead
      have complete := batch_complete sorted behind ahead
      rwa [← whole] at complete)
  have sent_more : request.afterSeq = none → deliveries s'.sent ≠ [] := by
    intro unasked
    obtain ⟨more, sent, -⟩ := delivered.advances
    rw [sent, deliveries_append]
    exact fun empty => begun unasked (List.append_eq_nil_iff.mp empty).1
  refine ⟨⟨tiled.advance delivered.advances begun, sent_more, delivered.current, ?_⟩,
    delivered.kept⟩
  intro goes event member inside
  rw [published] at member
  rcases List.mem_append.mp member with early | new
  · exact (behind event early inside).trans delivered.advances.le
  · refine delivered.covered goes event ?_ inside (le_lastSeq sorted_batch new _)
    rw [whole]
    simp [new]

theorem Queues.publish {seq : Nat} (queues : Queues store s seq) (count : Nat) :
    Queues (store.publish count) { s with queued := s.queued ++ store.batch count } seq := by
  obtain ⟨old, published, below⟩ := queues
  exact ⟨old, by rw [published_append_batch, published, List.append_assoc], below⟩

theorem receive_nil (eventBytes : Event → Nat) (scope : Scope) (hangup : Option Nat) :
    s.receive eventBytes scope [] hangup = s := by
  unfold Subscription.receive
  split
  · split
    · rfl
    · simp [Subscription.deliver, WireEncoder.lastSeq]
  · rfl
  · simp

theorem sound_publish (eventBytes : Event → Nat) (sound : Sound request ⟨store, s⟩) (count : Nat)
    (hangup : Option Nat) :
    Sound request ⟨store.publish count,
      s.receive eventBytes request.scope (store.batch count) hangup⟩ := by
  unfold Subscription.receive
  unfold Sound at sound
  simp only at sound
  cases is_phase : s.phase <;> simp only [is_phase] at sound ⊢
  case live =>
    cases running : s.stopped with
    | true =>
      simp only [if_true, Sound, is_phase]
      exact ⟨sound.tiled, sound.begun, sound.current, fun goes => by simp [running] at goes⟩
    | false =>
      simp only [Bool.false_eq_true, if_false]
      obtain ⟨live, kept⟩ := @live_deliver request (store.publish count) s eventBytes _ _
        sound.tiled sound.begun sound.current running (published_append_batch store count)
        (sound.covered running) hangup
      simp only [Sound, kept.phase, is_phase]
      exact live
  case failed => simpa only [Sound, is_phase] using sound
  all_goals simp only [Sound]
  case finishing =>
    obtain ⟨opened, queues⟩ := sound
    exact ⟨⟨opened.tiled, opened.begun, opened.le, opened.level, opened.idle, opened.running⟩,
      queues.publish count⟩
  case replaying | overflowing =>
    obtain ⟨fresh, queues, replayable⟩ := sound
    exact ⟨⟨fresh.sent, fresh.cursor, fresh.level, fresh.idle, fresh.running⟩,
      queues.publish count, ⟨replayable.le, replayable.asked⟩⟩
  all_goals
    obtain ⟨fresh, queues⟩ := sound
    exact ⟨⟨fresh.sent, fresh.cursor, fresh.level, fresh.idle, fresh.running⟩,
      queues.publish count⟩

theorem Fresh.in_phase (fresh : Fresh request s) (phase : Phase) :
    Fresh request { s with phase } :=
  ⟨fresh.sent, fresh.cursor, fresh.level, fresh.idle, fresh.running⟩

theorem sound_replay (eventBytes : Event → Nat) (fresh : Fresh request s) {head : Nat}
    (queues : Queues store s head) (le : head ≤ store.head) (asked : request.afterSeq ≠ none)
    (ahead : s.cursor < head) {events : List Event}
    (complete : (events.filter fun event => decide (s.cursor < event.seq) &&
      decide (event.seq ≤ head) && request.scope.includes event) =
        within request.scope store.log s.cursor head) :
    Sound request ⟨store, { s.deliver eventBytes request.scope events head true none with
      phase := .finishing }⟩ := by
  have current : Current request.scope store.log store.head s := by
    refine ⟨fresh.level.ge, ?_, ?_⟩
    · rw [fresh.level]
      omega
    · intro _ event _ _ after
      rwa [fresh.level]
  have delivered := @deliver_spec request.scope store.log store.sorted eventBytes s store.head head
    events true none current fresh.running le fun _ => complete
  obtain ⟨cursor, progressHead, idle⟩ := deliver_replay store.sorted eventBytes fresh.running
    fresh.level ahead complete
  have tiled : Tiled request store.log (s.deliver eventBytes request.scope events head true none) :=
    (tiled_of_fresh fresh.sent fresh.cursor).advance delivered.advances
      fun unasked => absurd unasked asked
  obtain ⟨old, published, below⟩ := queues
  refine ⟨⟨tiled, fun unasked => absurd unasked asked, ?_, progressHead.trans cursor.symm, idle,
    delivered.running fresh.running rfl⟩, old, ?_, ?_⟩
  · exact cursor.trans_le le
  · exact published.trans (congrArg (old ++ ·) delivered.kept.queued.symm)
  · exact fun event member => (below event member).trans cursor.ge

theorem sound_finish (eventBytes : Event → Nat) (opened : Opened request store s)
    (queues : Queues store s s.cursor) :
    let s' := if request.paced then s.send (.ready s.cursor) else s
    Sound request ⟨store, { { s' with queued := [] }.deliver eventBytes request.scope s'.queued
      (WireEncoder.lastSeq s'.queued s'.cursor) false none with phase := .live }⟩ := by
  intro s'
  have sent : deliveries s'.sent = deliveries s.sent := by
    simp only [s']
    split
    · rw [Subscription.send, deliveries_append]
      exact List.append_nil _
    · rfl
  have same : s'.cursor = s.cursor ∧ s'.queued = s.queued ∧ s'.progressHead = s.progressHead ∧
      s'.stopped = s.stopped := by
    simp only [s']
    split <;> exact ⟨rfl, rfl, rfl, rfl⟩
  obtain ⟨cursor, queued, progressHead, stopped⟩ := same
  obtain ⟨opening, start, messages, opens, is_sent, asked, tiles⟩ := opened.tiled
  obtain ⟨old, published, below⟩ := queues
  have level : s'.progressHead = s'.cursor := by rw [progressHead, cursor, opened.level]
  have current : Current request.scope store.log store.head { s' with queued := [] } :=
    ⟨level.ge, (level.trans cursor).trans_le opened.le, fun _ event _ _ after => level.trans_lt after⟩
  have tiled : Tiled request store.log { s' with queued := [] } :=
    ⟨opening, start, messages, opens, sent.trans is_sent, asked, cursor ▸ tiles⟩
  obtain ⟨live, -⟩ := live_deliver eventBytes tiled
    (fun unasked => sent ▸ opened.begun unasked) current (stopped.trans opened.running)
    (published.trans (congrArg (old ++ ·) queued.symm))
    (fun event member _ => (below event member).trans cursor.ge) none
  exact ⟨live.tiled, live.begun, ⟨live.current.le, live.current.bounded, live.current.quiet⟩,
    live.covered⟩

theorem sound_snapshot (fresh : Fresh request s) {seq : Nat} (queues : Queues store s seq)
    (le : seq ≤ store.head) (view : Except String View) :
    Sound request ⟨store, s.snapshot view seq⟩ := by
  cases view with
  | error error =>
    simp only [Sound, Subscription.snapshot, Subscription.fail, Subscription.stop, fresh.running]
    exact ⟨fresh.sent, fresh.cursor, rfl⟩
  | ok view =>
    have sent : (Subscription.snapshot s (.ok view) seq).sent =
        [.snapshot seq (view.withSeq seq)] := by
      simp [Subscription.snapshot, Subscription.send, fresh.sent]
    refine ⟨⟨⟨_, seq, [], .snapshot seq _ (seq_withSeq seq view), ?_, fun _ _ => rfl, .nil _⟩, ?_,
      le, rfl, fresh.idle, fresh.running⟩, queues⟩
    · rw [sent]
      rfl
    · rw [sent]
      exact fun _ => nofun

theorem sound_proceed (host : Host) (sound : Sound request ⟨store, s⟩) :
    Sound request ⟨store, proceed host request store s⟩ := by
  unfold Sound at sound
  simp only at sound
  unfold proceed
  cases is_phase : s.phase <;> simp only [is_phase] at sound ⊢
  case checking =>
    obtain ⟨fresh, queues⟩ := sound
    exact ⟨fresh.in_phase _, queues⟩
  case comparing replaySafe =>
    obtain ⟨fresh, queues⟩ := sound
    split
    next =>
      exact ⟨fresh.in_phase _, queues⟩
    next afterSeq asked =>
      split
      next =>
        exact ⟨fresh.in_phase _, queues⟩
      next allowed =>
        simp only [Bool.or_eq_true, decide_eq_true_eq, not_or, Nat.not_lt] at allowed
        exact ⟨fresh.in_phase _, queues, le_rfl, afterSeq, asked, allowed.1⟩
  case snapshotting => exact sound_snapshot sound.1 sound.2 le_rfl _
  case overflowing head => exact sound_snapshot sound.1 sound.2.1 sound.2.2.le _
  case replaying head =>
    obtain ⟨fresh, queues, le, afterSeq, asked, le_head, few⟩ := sound
    have at_asked : s.cursor = afterSeq := by rw [fresh.cursor, asked, Option.getD_some]
    have begun : request.afterSeq = none → deliveries s.sent ≠ [] := by simp [asked]
    split
    next =>
      simp only [Sound, Subscription.fail, Subscription.stop, fresh.running]
      exact ⟨fresh.sent, fresh.cursor, rfl⟩
    next =>
      simp only [asked, Option.getD_some]
      split
      next ahead =>
        split
        next => exact ⟨fresh.in_phase _, queues, le, afterSeq, asked, le_head, few⟩
        next fits =>
          rw [Bool.not_eq_true] at fits
          have complete := replay_complete host request store few fits
          rw [← at_asked] at complete ahead ⊢
          exact sound_replay host.eventBytes fresh queues le (by simp [asked]) ahead complete
      next behind =>
        have at_head : s.cursor = head := by omega
        refine ⟨⟨tiled_of_fresh fresh.sent fresh.cursor, begun, at_head.trans_le le, fresh.level,
          fresh.idle, fresh.running⟩, ?_⟩
        rw [← at_head] at queues
        exact queues
  case finishing => exact sound_finish host.eventBytes sound.1 sound.2
  case live => simpa only [Sound, is_phase] using sound
  case failed => simpa only [Sound, is_phase] using sound

theorem sound_fire (sound : Sound request ⟨store, s⟩) (set_ : s.progressTimer = true) :
    Sound request ⟨store, s.flushProgress⟩ := by
  unfold Sound at sound
  simp only at sound
  -- only a live subscription has a timer
  cases is_phase : s.phase <;> simp only [is_phase] at sound
  case live =>
    obtain ⟨advances, kept, current, same, -⟩ := flushProgress_spec sound.current
    simp only [Sound, kept.phase, is_phase]
    refine ⟨sound.tiled.advance advances sound.begun, ?_, current, ?_⟩
    · intro unasked
      obtain ⟨more, sent, -⟩ := advances
      rw [sent, deliveries_append]
      exact fun empty => sound.begun unasked (List.append_eq_nil_iff.mp empty).1
    · intro goes event member inside
      exact (sound.covered (same ▸ goes) event member inside).trans advances.le
  case failed => simp [sound.2.2] at set_
  case finishing => simp [sound.1.idle] at set_
  all_goals simp [sound.1.idle] at set_

theorem sound_stop (sound : Sound request ⟨store, s⟩) (live : s.phase = .live) :
    Sound request ⟨store, s.stop⟩ := by
  simp only [Sound, live] at sound
  obtain ⟨kept, stopped, sent, cursor, progressHead⟩ := s.stop_spec
  obtain ⟨opening, start, messages, opens, is_sent, asked, tiles⟩ := sound.tiled
  have bounds := sound.current
  simp only [Sound, kept.phase, live]
  refine ⟨⟨opening, start, messages, opens, by rw [sent, is_sent], asked, by rwa [cursor]⟩,
    by rw [sent]; exact sound.begun, ⟨?_, ?_, ?_⟩, ?_⟩
  · rw [cursor, progressHead]
    exact bounds.le
  · rw [progressHead]
    exact bounds.bounded
  · exact fun goes => by simp [stopped] at goes
  · exact fun goes => by simp [stopped] at goes

theorem sound_step (host : Host) {world world' : World} (sound : Sound request world)
    {action : Action} (steps : world.step host request action = some world') :
    Sound request world' := by
  cases action with
  | commit events head =>
    simp only [World.step] at steps
    split at steps
    next continues =>
      cases steps
      exact sound_commit sound continues
    next => cases steps
  | publish count hangup =>
    have published := sound_publish host.eventBytes sound count hangup
    simp only [World.step] at steps
    cases steps
    cases is_batch : world.store.batch count with
    | nil =>
      rw [is_batch, receive_nil] at published
      exact published
    | cons event events =>
      rw [is_batch] at published
      exact published
  | proceed =>
    cases steps
    exact sound_proceed host sound
  | fire =>
    simp only [World.step] at steps
    split at steps
    next set_ =>
      cases steps
      exact sound_fire sound set_
    next => cases steps
  | stop =>
    simp only [World.step] at steps
    split at steps
    next live =>
      cases steps
      exact sound_stop sound live
    next => cases steps

theorem sound_run (host : Host) {world world' : World} (sound : Sound request world)
    {actions : List Action} (runs : world.run host request actions = some world') :
    Sound request world' := by
  induction actions generalizing world with
  | nil =>
    cases runs
    exact sound
  | cons action actions ih =>
    rw [World.run, List.foldlM_cons] at runs
    obtain ⟨next, first, rest⟩ := Option.bind_eq_some_iff.mp runs
    exact ih (sound_step host sound first) rest

theorem sound_subscribe (request : Request) (store : Store) :
    Sound request (subscribe request store) := by
  refine ⟨⟨rfl, rfl, rfl, rfl, rfl⟩, store.log.take store.published, (List.append_nil _).symm, ?_⟩
  exact fun event member => store.bounded event (List.mem_of_mem_take member)

/-- **A subscription tiles the log.** Take any store, any request and any run: the store commits
and publishes while the subscription is set up and after, its timer fires, its receiver stops it.
What was sent is nothing or a snapshot, and then messages that tile the log from the cursor asked
for, or from the snapshot, up to the cursor of the subscription; they still do when each is cut
into frames for the wire. A client that stands at the beginning applies each of them and folds
exactly the scoped events up to the cursor, and a subscription that goes on has left nothing out
of what is published. -/
theorem subscription_tiles (host : Host) (request : Request) (store : Store)
    (actions : List Action) {world : World}
    (runs : (subscribe request store).run host request actions = some world)
    (envelope : Message → Nat) :
    let log := world.store.log
    let s := world.subscription
    (∃ opening start messages, Opening request opening start ∧
      deliveries s.sent = opening ++ messages.map .interval ∧
      (request.afterSeq = none → opening = [] → messages = []) ∧
      ∀ frames ∈ [messages, messages.flatMap (WireEncoder.split host.eventBytes envelope)],
        Tiles request.scope log start frames s.cursor ∧
        ∀ view, request.scope.IsFor view → view.seq = start →
          frames.foldlM follow view =
            ((within request.scope log start s.cursor).foldlM View.fold view).map
              (View.withSeq s.cursor)) ∧
    (s.phase = .live → s.stopped = false → ∀ event ∈ log.take world.store.published,
      request.scope.includes event = true → event.seq ≤ s.cursor) := by
  have sound := sound_run host (sound_subscribe request store) runs
  obtain ⟨opening, start, messages, opens, sent, asked, tiles⟩ := sound.tiled
  have sorted := world.store.sorted
  refine ⟨⟨opening, start, messages, opens, sent, asked, ?_⟩, ?_⟩
  · intro frames either
    have tiles' : Tiles request.scope world.store.log start frames world.subscription.cursor := by
      simp only [List.mem_cons, List.not_mem_nil, or_false] at either
      rcases either with rfl | rfl
      · exact tiles
      · exact tiles.split sorted host.eventBytes envelope
    exact ⟨tiles', fun view is_for stands => tiles'.follow sorted world.store.plain is_for stands⟩
  · intro live running
    simp only [Sound, live] at sound
    exact sound.covered running

end

/-! ### A run -/

def sampleEvent (seq : Nat) (threadId : String) : Event :=
  { seq, threadId, at_ := seq, payload := .threadUpdated (.obj [("title", .str "a")]) }

def sampleStore : Store where
  log := [sampleEvent 2 "t", sampleEvent 3 "u"]
  head := 3
  published := 2
  sorted := by decide
  bounded := by decide
  plain := by decide
  published_le := by decide

def sampleHost : Host where
  eventBytes _ := 600 * 1024
  replaySafe _ _ := .ok true
  getThread _ _ := true
  view _ _ := .error "Unknown thread"

def sampleRequest : Request :=
  { scope := .thread "t", afterSeq := some 0, replayLimit := 16, paced := true }

/-- Two events of the thread are committed and published while the subscription is set up, and one
of another thread after. -/
def sampleActions : List Action := [.proceed, .proceed,
  .commit [sampleEvent 5 "t", sampleEvent 6 "t"] 7, .publish 2 none, .proceed, .proceed,
  .commit [sampleEvent 8 "u"] 8, .publish 1 none, .fire, .stop]

theorem subscription_tiles_sample :
    ∃ world, (subscribe sampleRequest sampleStore).run sampleHost sampleRequest sampleActions =
        some world ∧
      world.subscription.sent = [.interval (.events 0 3 [sampleEvent 2 "t"]), .ready 3,
        .interval (.events 3 5 [sampleEvent 5 "t"]), .interval (.events 5 6 [sampleEvent 6 "t"]),
        .interval (.progress 6 8)] ∧
      ∃ opening start messages, Opening sampleRequest opening start ∧
        deliveries world.subscription.sent = opening ++ messages.map .interval ∧
        Tiles (.thread "t") world.store.log start messages 8 := by
  have reached : ((subscribe sampleRequest sampleStore).run sampleHost sampleRequest
      sampleActions).map (fun world => (world.subscription.cursor, world.subscription.sent)) =
      some (8, [.interval (.events 0 3 [sampleEvent 2 "t"]), .ready 3,
        .interval (.events 3 5 [sampleEvent 5 "t"]), .interval (.events 5 6 [sampleEvent 6 "t"]),
        .interval (.progress 6 8)]) := by
    decide +kernel
  obtain ⟨world, runs, ends⟩ := Option.map_eq_some_iff.mp reached
  obtain ⟨cursor, sent⟩ := Prod.mk.inj ends
  obtain ⟨⟨opening, start, messages, opens, is_sent, -, tiles⟩, -⟩ :=
    subscription_tiles sampleHost sampleRequest sampleStore sampleActions runs fun _ => 80
  refine ⟨world, runs, sent, opening, start, messages, opens, is_sent, ?_⟩
  rw [← cursor]
  exact (tiles messages (by simp)).1

end Ace.Delivery
