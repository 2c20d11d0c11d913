import Ace.Properties.PrefixDelivery
import Ace.Script.Packing

/-!
# Subscriptions

A client asks for a thread, or for the thread list, from the cursor it has. The host replays the
log from there or sends a snapshot, and from then on what is published. One cursor says how far
the messages of a subscription go: it advances with replayed events, with a snapshot, with
published events and, for what its scope leaves out, with delayed progress.

Setting up is one call, but the store that it reads may commit and publish meanwhile: a read
writes what was pending. So a set-up takes several steps here, and the store's own steps come
between them.
-/

namespace Ace.Delivery

open Script

/-! ### The log -/

/-- The events of a log, by rising sequence. Some of the latest are not published yet, and a
sequence may be taken without an event. -/
structure Store where
  log : List Event := []
  head : Nat := 0
  /-- How many events are published. -/
  published : Nat := 0
  sorted : log.Pairwise (·.seq < ·.seq) := by simp
  bounded : ∀ event ∈ log, event.seq ≤ head := by simp
  /-- An event of the log stands for itself only. -/
  plain : ∀ event ∈ log, event.firstSeq = none := by simp
  published_le : published ≤ log.length := by simp

namespace Store

/-- What can be committed: events with sequences past the head, none past the new one. -/
def Continues (store : Store) (events : List Event) (head : Nat) : Prop :=
  store.head ≤ head ∧ events.Pairwise (·.seq < ·.seq) ∧
    ∀ event ∈ events, store.head < event.seq ∧ event.seq ≤ head ∧ event.firstSeq = none

instance (store : Store) (events : List Event) (head : Nat) :
    Decidable (store.Continues events head) :=
  inferInstanceAs (Decidable (_ ∧ _ ∧ _))

def commit (store : Store) (events : List Event) (head : Nat)
    (continues : store.Continues events head) : Store where
  log := store.log ++ events
  head := head
  published := store.published
  sorted := by
    refine List.pairwise_append.mpr ⟨store.sorted, continues.2.1, ?_⟩
    intro old member new member'
    have below := store.bounded old member
    have above := (continues.2.2 new member').1
    omega
  bounded := by
    intro event member
    rcases List.mem_append.mp member with old | new
    · exact (store.bounded event old).trans continues.1
    · exact (continues.2.2 event new).2.1
  plain := by
    intro event member
    rcases List.mem_append.mp member with old | new
    · exact store.plain event old
    · exact (continues.2.2 event new).2.2
  published_le := by
    rw [List.length_append]
    exact store.published_le.trans (Nat.le_add_right ..)

/-- The next events to publish, at most `count` of them. -/
def batch (store : Store) (count : Nat) : List Event :=
  (store.log.drop store.published).take count

def publish (store : Store) (count : Nat) : Store :=
  { store with
    published := min (store.published + count) store.log.length
    published_le := Nat.min_le_right .. }

end Store

/-- What a subscription takes from the store besides the log, and the length of an event's text. -/
structure Host where
  eventBytes : Event → Nat
  /-- Whether a cursor may be replayed from. -/
  replaySafe : Store → Nat → Except String Bool
  /-- Whether there is such a thread. -/
  getThread : Store → String → Bool
  /-- The view of a snapshot. -/
  view : Store → Scope → Except String View

/-- Rows are read until their bytes pass a limit; the row that passes it is read too. -/
def readWithin (eventBytes : Event → Nat) (byteLimit : Nat) : Nat → List Event → List Event
  | _, [] => []
  | bytes, event :: events =>
    if byteLimit < bytes + eventBytes event then [event]
    else event :: readWithin eventBytes byteLimit (bytes + eventBytes event) events

def readEvents (eventBytes : Event → Nat) (log : List Event) (afterSeq : Nat)
    (threadId : Option String) (limit byteLimit : Nat) : List Event :=
  readWithin eventBytes byteLimit 0 ((log.filter fun event =>
    decide (afterSeq < event.seq) && threadId.all (event.threadId == ·)).take limit)

/-! ### Messages -/

inductive ServerMessage where
  | snapshot (seq : Nat) (view : View)
  | interval (message : Message)
  | ready (seq : Nat)
  deriving DecidableEq

def replayFrameBytes : Nat := 1024 * 1024

def replayFrames (eventBytes : Event → Nat) (events : List Event) : List (List Event) :=
  let (frames, frame) := pack eventBytes replayFrameBytes 0 [] 0 events
  if frame.isEmpty then frames else frames ++ [frame]

namespace WireEncoder

def eventFrameBytes : Nat := 1024 * 1024

def lastSeq (events : List Event) (other : Nat) : Nat := (events.getLast?.map (·.seq)).getD other

/-- The intervals of some closed frames, then of the one that is left. -/
def intervals (throughSeq : Nat) (last : List Event) : Nat → List (List Event) → List Message
  | afterSeq, [] => [.events afterSeq throughSeq last]
  | afterSeq, events :: frames =>
    .events afterSeq (lastSeq events afterSeq) events ::
      intervals throughSeq last (lastSeq events afterSeq) frames

/-- An events message in frames; `envelope` is the length of its text without events. -/
def split (eventBytes : Event → Nat) (envelope : Message → Nat) (message : Message) :
    List Message :=
  match message with
  | .progress .. => [message]
  | .events afterSeq throughSeq batch =>
    let bytes := envelope (.events afterSeq throughSeq []) + 64
    let (frames, last) := pack (eventBytes · + 1) eventFrameBytes bytes [] bytes batch
    intervals throughSeq last afterSeq frames

end WireEncoder

/-! ### A subscription -/

structure Request where
  scope : Scope
  afterSeq : Option Nat := none
  replayLimit : Nat
  paced : Bool := false
  deriving DecidableEq

/-- How far a set-up is. -/
inductive Phase where
  | checking
  | comparing (replaySafe : Bool)
  | snapshotting
  | replaying (head : Nat)
  | overflowing (head : Nat)
  | finishing
  | live
  | failed (error : String)
  deriving DecidableEq

structure Subscription where
  phase : Phase := .checking
  cursor : Nat
  progressHead : Nat := cursor
  progressTimer : Bool := false
  stopped : Bool := false
  queued : List Event := []
  /-- The messages so far. -/
  sent : List ServerMessage := []
  deriving DecidableEq

def Request.open_ (request : Request) : Subscription := { cursor := request.afterSeq.getD 0 }

namespace Subscription

def send (s : Subscription) (message : ServerMessage) : Subscription :=
  { s with sent := s.sent ++ [message] }

def cancelProgress (s : Subscription) : Subscription := { s with progressTimer := false }

def flushProgress (s : Subscription) : Subscription :=
  let s := { s with progressTimer := false }
  if s.stopped || decide (s.progressHead ≤ s.cursor) then s
  else { s with cursor := s.progressHead }.send
    (.interval (.progress s.cursor s.progressHead))

def stop (s : Subscription) : Subscription :=
  if s.stopped then s else { s with stopped := true, progressTimer := false }

/-- The loop over the frames of a delivery. The receiver may call `stop` on the frame that
`hangup` counts to. -/
def sendFrames (head : Nat) : Option Nat → Subscription → List (List Event) → Subscription
  | _, s, [] => s
  | hangup, s, frame :: frames =>
    if s.stopped then s
    else
      let cursor := if frames.isEmpty then head else WireEncoder.lastSeq frame head
      let s := { s with cursor }.send (.interval (.events s.cursor cursor frame))
      sendFrames head (hangup.map (· - 1)) (if hangup = some 0 then s.stop else s) frames

def deliver (eventBytes : Event → Nat) (scope : Scope) (s : Subscription) (events : List Event)
    (head : Nat) (replay : Bool) (hangup : Option Nat) : Subscription :=
  if head ≤ s.cursor then s
  else
    let selected := events.filter fun event =>
      decide (s.cursor < event.seq) && decide (event.seq ≤ head) && scope.includes event
    let s := { s with progressHead := max s.progressHead head }
    if !selected.isEmpty then
      sendFrames head hangup s.cancelProgress (replayFrames eventBytes selected)
    else if replay then s.cancelProgress.flushProgress
    else { s with progressTimer := true }

/-- The listener of the store. -/
def receive (eventBytes : Event → Nat) (scope : Scope) (s : Subscription) (events : List Event)
    (hangup : Option Nat) : Subscription :=
  match s.phase with
  | .live =>
    if s.stopped then s
    else s.deliver eventBytes scope events (WireEncoder.lastSeq events s.cursor) false hangup
  | .failed _ => s
  | _ => { s with queued := s.queued ++ events }

/-- The handler of an error: the subscription stops and the call throws. -/
def fail (s : Subscription) (error : String) : Subscription :=
  { s.stop with phase := .failed error }

/-- A snapshot as of `seq`. -/
def snapshot (s : Subscription) (view : Except String View) (seq : Nat) : Subscription :=
  match view with
  | .error error => s.fail error
  | .ok view => { s with phase := .finishing, cursor := seq, progressHead := seq }.send
      (.snapshot seq (view.withSeq seq))

end Subscription

def Request.threadId (request : Request) : Option String :=
  match request.scope with
  | .thread threadId => some threadId
  | .threads => none

section

variable (host : Host) (request : Request)

/-- Events to replay, and whether they are too much for it. -/
def replay (store : Store) (afterSeq head : Nat) : List Event × Bool :=
  let events := (readEvents host.eventBytes store.log afterSeq request.threadId
    request.replayLimit (replayFrameBytes * 2)).filter (·.seq ≤ head)
  let bytes := (events.map host.eventBytes).sum
  (events, decide (replayFrameBytes * 2 < bytes) ||
    events.any (replayFrameBytes < host.eventBytes ·))

/-- The next step of a set-up. -/
def proceed (store : Store) (s : Subscription) : Subscription :=
  match s.phase with
  | .checking =>
    { s with phase := .comparing (match request.afterSeq with
      | none => true
      -- a check that throws is no reason to fail: there is still the snapshot
      | some afterSeq => (host.replaySafe store afterSeq).toOption.getD false) }
  | .comparing replaySafe =>
    match request.afterSeq with
    | none => { s with phase := .snapshotting }
    | some afterSeq =>
      if store.head < afterSeq || decide (request.replayLimit < store.head - afterSeq) ||
          !replaySafe then { s with phase := .snapshotting }
      else { s with phase := .replaying store.head }
  | .snapshotting => s.snapshot (host.view store request.scope) store.head
  | .replaying head =>
    if request.threadId.any fun threadId => !host.getThread store threadId then
      s.fail "Unknown thread"
    else
      let afterSeq := request.afterSeq.getD 0
      if afterSeq < head then
        let (events, overflows) := replay host request store afterSeq head
        if overflows then { s with phase := .overflowing head }
        else { s.deliver host.eventBytes request.scope events head true none with
          phase := .finishing }
      else { s with phase := .finishing }
  | .overflowing head => s.snapshot (host.view store request.scope) head
  | .finishing =>
    let s := if request.paced then s.send (.ready s.cursor) else s
    let pending := s.queued
    { { s with queued := [] }.deliver host.eventBytes request.scope pending
        (WireEncoder.lastSeq pending s.cursor) false none with phase := .live }
  | .live | .failed _ => s

structure World where
  store : Store
  subscription : Subscription

inductive Action where
  /-- The store commits events. -/
  | commit (events : List Event) (head : Nat)
  /-- The store publishes its next events. -/
  | publish (count : Nat) (hangup : Option Nat)
  | proceed
  /-- The timer fires. -/
  | fire
  | stop
  deriving DecidableEq

/-- Only a call that has returned can be stopped, and only a timer that is set fires. -/
def World.step (world : World) : Action → Option World
  | .commit events head =>
    if continues : world.store.Continues events head then
      some { world with store := world.store.commit events head continues }
    else none
  | .publish count hangup => some {
      store := world.store.publish count
      subscription := match world.store.batch count with
        | [] => world.subscription
        | event :: events =>
          world.subscription.receive host.eventBytes request.scope (event :: events) hangup }
  | .proceed => some { world with
      subscription := Delivery.proceed host request world.store world.subscription }
  | .fire =>
    if world.subscription.progressTimer then
      some { world with subscription := world.subscription.flushProgress }
    else none
  | .stop =>
    if world.subscription.phase = .live then
      some { world with subscription := world.subscription.stop }
    else none

def World.run (world : World) (actions : List Action) : Option World :=
  actions.foldlM (World.step host request) world

/-- A subscription to a store, as it begins. -/
def subscribe (store : Store) : World := { store, subscription := request.open_ }

end

end Ace.Delivery
