import Ace.Properties.ChannelFragments
import Ace.Properties.FlowControl

/-!
# An encrypted channel delivers what it accepts

Each direction of a channel is one stream of fragments: those that the reader has taken, those
queued for it, those in flight and those still to be sent, in order. The reader never fails on the
stream of calls that fit, and the accounting of credit is that of two joined ends. What breaks a
channel is a text that is admitted deflated and is beyond the limit once it is inflated.

## Main result

`channel_delivers`: in every run whose admitted calls fit, neither end ends with an error, each
gives a prefix of what the other admitted, and all of it once nothing is left to do.
-/

namespace Ace.Channel

open SecureChannel

/-! ### The stream of a direction -/

def isCredit (plain : Bytes) : Bool := plain.head? = some (UInt8.ofNat creditFlag)

/-- A fragment, to the accounting of credit. -/
def toMessage (plain : Bytes) : Message :=
  if isCredit plain then .credit (plain.map UInt8.toNat) else .data (fragmentCost plain.length)

/-- An end, to the accounting of credit. -/
def peerOf (e : End) (inward : List Bytes) : Peer where
  flow := e.flow
  queue := e.plainQueue.map fun plain => fragmentCost plain.length
  inbound := inward.map toMessage

def remaining (task : Task) : List Bytes := fragments task.kind.flag (task.data.drop task.offset)

def callFragments (codec : Codec) (call : Call) : List Bytes :=
  match call.payload codec with
  | some (data, kind) => fragments kind.flag data
  | none => []

/-- A call that its end admits, and the other end accepts. -/
def Accepted (codec : Codec) (call : Call) : Prop :=
  Fits codec call ∧ ∃ data kind, call.payload codec = some (data, kind) ∧
    data.length ≤ logicalMessageLimit

/-- Data goes from `p` to `q`, with these fragments in flight. -/
structure Carries (codec : Codec) (p q : End) (plains : List Bytes) : Prop where
  sealed : Sealed codec (q.receive, q.receiveCount) plains q.inbound (p.send, p.sendCount)
  ready : Ready (p.send, p.sendCount)
  accepted : ∀ call ∈ p.admitted, Accepted codec call
  stream : ∃ taken, p.admitted.flatMap (callFragments codec) =
      taken ++ (q.plainQueue ++ (plains.filter (!isCredit ·) ++ p.tasks.flatMap remaining)) ∧
    readAll codec taken {} = .ok (q.reader, q.received)

/-- The same, as far as what an end sends is concerned. -/
structure SendsAs (p p' : End) : Prop where
  send : p'.send = p.send
  sendCount : p'.sendCount = p.sendCount
  tasks : p'.tasks = p.tasks
  admitted : p'.admitted = p.admitted

/-- The same, as far as what an end reads is concerned. -/
structure ReadsAs (q q' : End) : Prop where
  receive : q'.receive = q.receive
  receiveCount : q'.receiveCount = q.receiveCount
  inbound : q'.inbound = q.inbound
  plainQueue : q'.plainQueue = q.plainQueue
  reader : q'.reader = q.reader
  received : q'.received = q.received

theorem Carries.of_same {codec : Codec} {p q p' q' : End} {plains : List Bytes}
    (carries : Carries codec p q plains) (sends : SendsAs p p') (reads : ReadsAs q q') :
    Carries codec p' q' plains := by
  obtain ⟨send, sendCount, tasks, admitted⟩ := sends
  obtain ⟨receive, receiveCount, inbound, plainQueue, reader, received⟩ := reads
  constructor
  · rw [receive, receiveCount, inbound, send, sendCount]
    exact carries.sealed
  · rw [send, sendCount]
    exact carries.ready
  · rw [admitted]
    exact carries.accepted
  · rw [admitted, tasks, plainQueue, reader, received]
    exact carries.stream

/-- The invariant of two ends. -/
structure Between (codec : Codec) (p q : End) (outward inward : List Bytes) : Prop where
  near : p.ended = none
  far : q.ended = none
  out : Carries codec p q outward
  back : Carries codec q p inward
  linked : Linked (peerOf p inward) (peerOf q outward)
  waits : p.waiting = true → plainHighWater / 2 ≤ p.plainBytes
  waits' : q.waiting = true → plainHighWater / 2 ≤ q.plainBytes

theorem Between.symm {codec : Codec} {p q : End} {outward inward : List Bytes}
    (between : Between codec p q outward inward) : Between codec q p inward outward :=
  ⟨between.far, between.near, between.back, between.out, between.linked.symm, between.waits',
    between.waits⟩

/-! ### Fragments of data -/

/-- A fragment of data fits into a message, and is no credit. -/
structure IsData (plain : Bytes) : Prop where
  short : plain.length ≤ chunkSize + 1
  notCredit : isCredit plain = false

theorem isData_cons {flag : Nat} {chunk : Bytes} (small : flag ≤ 5)
    (short : chunk.length ≤ chunkSize) : IsData (UInt8.ofNat flag :: chunk) := by
  refine ⟨by simpa using short, ?_⟩
  have other : ∀ flag ≤ 5, UInt8.ofNat flag ≠ UInt8.ofNat creditFlag := by decide
  simp [isCredit, other flag small]

theorem isData_fragments (kind : FragmentKind) (data : Bytes) :
    ∀ plain ∈ fragments kind.flag data, IsData plain := by
  obtain ⟨-, -, small, -⟩ := flag_cases kind
  induction size : data.length using Nat.strong_induction_on generalizing data with
  | _ n ih =>
    intro plain member
    rw [fragments] at member
    split at member
    next => cases member
    next some_data =>
      split at member
      next short =>
        obtain rfl := List.mem_singleton.mp member
        exact isData_cons (by omega) short
      next long =>
        rcases List.mem_cons.mp member with rfl | member
        · exact isData_cons (by omega) (by simp)
        · have room : 0 < chunkSize := by decide
          exact ih (data.drop chunkSize).length (by rw [List.length_drop]; omega) _ rfl plain member

theorem isData_callFragments (codec : Codec) (call : Call) :
    ∀ plain ∈ callFragments codec call, IsData plain := by
  rw [callFragments]
  split
  · exact isData_fragments _ _
  · simp

theorem toMessage_of_isData {plain : Bytes} (isData : IsData plain) :
    toMessage plain = .data (fragmentCost plain.length) := by
  rw [toMessage, isData.notCredit]
  rfl

theorem admissible_of_isData {plain : Bytes} (isData : IsData plain) :
    Admissible (fragmentCost plain.length) := by
  apply admissible_fragmentCost
  have short := isData.short
  have size : chunkSize = 65518 := rfl
  omega

theorem remaining_cons {task : Task} (unsent : task.offset < task.data.length) :
    remaining task =
      (UInt8.ofNat (task.kind.flag +
        if task.offset + ((task.data.drop task.offset).take chunkSize).length = task.data.length
          then 1 else 0) :: (task.data.drop task.offset).take chunkSize) ::
      remaining { task with offset := task.offset + chunkSize } := by
  have some_data : task.data.drop task.offset ≠ [] := by
    simp only [ne_eq, List.drop_eq_nil_iff]
    omega
  have rest : task.data.drop (task.offset + chunkSize) =
      (task.data.drop task.offset).drop chunkSize := by
    rw [List.drop_drop]
  have size : (task.data.drop task.offset).length = task.data.length - task.offset :=
    List.length_drop
  rw [remaining, remaining, rest, fragments, if_neg some_data]
  split
  next short =>
    rw [List.take_of_length_le short, List.drop_of_length_le short, size, if_pos (by omega),
      fragments_nil]
  next long =>
    rw [List.length_take, size, if_neg (by omega)]
    rfl

/-! ### Calls that are read -/

theorem take_of_readAll {codec : Codec} {taken rest : List Bytes} {plain : Bytes}
    {part last : Partial} {first messages : List Received}
    (whole : readAll codec (taken ++ plain :: rest) {} = .ok (last, messages))
    (read : readAll codec taken {} = .ok (part, first)) :
    ∃ next message, part.take codec plain = .ok (next, message) ∧
      readAll codec (taken ++ [plain]) {} = .ok (next, first ++ message.toList) := by
  obtain ⟨middle, first', second, read', rest_read, -⟩ := readAll_prefix whole
  rw [read] at read'
  cases read'
  rw [readAll] at rest_read
  cases takes : part.take codec plain with
  | error error =>
    rw [takes] at rest_read
    cases rest_read
  | ok next =>
    refine ⟨next.1, next.2, rfl, ?_⟩
    rw [readAll_append, read]
    simp [readAll, bind, Except.bind, takes, pure, Except.pure]

theorem readAll_calls {codec : Codec} (lawful : codec.Lawful) {calls : List Call}
    (accepted : ∀ call ∈ calls, Accepted codec call) :
    readAll codec (calls.flatMap (callFragments codec)) {} = .ok ({}, calls.map (·.content)) := by
  induction calls with
  | nil => rfl
  | cons call calls ih =>
    obtain ⟨fits, data, kind, payload, small⟩ := accepted call List.mem_cons_self
    obtain ⟨some_data, binary, finished⟩ := finish_of_fits lawful fits payload
    have first : readAll codec (callFragments codec call) {} = .ok ({}, [call.content]) := by
      rw [callFragments, payload]
      exact readAll_fragments some_data (.inl rfl) small binary finished
    rw [List.flatMap_cons, readAll_append, first]
    simp only [bind, Except.bind]
    rw [ih fun call member => accepted call (List.mem_cons_of_mem _ member)]
    rfl

section

variable {codec : Codec} {p q : End} {plains : List Bytes}

theorem Carries.isData_queued (carries : Carries codec p q plains) :
    ∀ plain ∈ q.plainQueue, IsData plain := by
  intro plain queued
  obtain ⟨taken, stream, -⟩ := carries.stream
  have inside : plain ∈ p.admitted.flatMap (callFragments codec) := by
    rw [stream]
    exact List.mem_append_right _ (List.mem_append_left _ queued)
  obtain ⟨call, -, member⟩ := List.mem_flatMap.mp inside
  exact isData_callFragments codec call plain member

theorem Carries.isData_flying (carries : Carries codec p q plains) {plain : Bytes}
    (flying : plain ∈ plains) (data : isCredit plain = false) : IsData plain := by
  obtain ⟨taken, stream, -⟩ := carries.stream
  have inside : plain ∈ p.admitted.flatMap (callFragments codec) := by
    rw [stream]
    refine List.mem_append_right _ (List.mem_append_right _ (List.mem_append_left _ ?_))
    exact List.mem_filter.mpr ⟨flying, by simp [data]⟩
  obtain ⟨call, -, member⟩ := List.mem_flatMap.mp inside
  exact isData_callFragments codec call plain member

/-! ### Credits -/

def creditBytes (fragment : Fragment) : Bytes := fragment.map UInt8.ofNat

theorem toMessage_creditFragment (amount : Int) :
    toMessage (creditBytes (creditFragment amount)) = .credit (creditFragment amount) := by
  have small : ∀ n : Nat, (UInt8.ofNat (n % 256)).toNat = n % 256 := by
    intro n
    rw [UInt8.toNat_ofNat']
    omega
  simp only [creditBytes, creditFragment, List.map_cons, List.map_nil, toMessage, isCredit,
    List.head?_cons, decide_true, if_true, small]
  rfl

theorem isCredit_creditFragment (amount : Int) :
    isCredit (creditBytes (creditFragment amount)) = true := by
  simp [isCredit, creditBytes, creditFragment]

theorem Carries.sendCredit (carries : Carries codec p q plains) (open_p : p.ended = none)
    (room : p.sendCount < maxNonce) {credit : Option Fragment}
    (made : ∀ fragment, credit = some fragment → ∃ amount, fragment = creditFragment amount) :
    ∃ cipher count frames plains',
      p.sendCredit codec credit = .ok ({ p with send := cipher, sendCount := count }, frames) ∧
      Carries codec { p with send := cipher, sendCount := count }
        { q with inbound := q.inbound ++ frames } plains' ∧
      plains'.map toMessage = plains.map toMessage ++ (credit.map Message.credit).toList ∧
      frames.length = credit.toList.length := by
  cases credit with
  | none =>
    refine ⟨p.send, p.sendCount, [], plains, rfl, ?_, by simp, rfl⟩
    rw [List.append_nil]
    exact carries
  | some fragment =>
    obtain ⟨amount, rfl⟩ := made fragment rfl
    have short : (creditBytes (creditFragment amount)).length + 16 ≤ maxMessage := by
      simp [creditBytes, creditFragment, maxMessage]
    obtain ⟨frame, next, step, ready⟩ := sealStep_ok codec carries.ready room short
    refine ⟨next.1, next.2, [frame], plains ++ [creditBytes (creditFragment amount)], ?_, ?_, ?_,
      rfl⟩
    · simp only [End.sendCredit]
      rw [if_neg (by simp [open_p]), sealFragment_eq, show List.map UInt8.ofNat (creditFragment amount) =
        creditBytes (creditFragment amount) from rfl, step]
      rfl
    · refine ⟨carries.sealed.append step, ready, carries.accepted, ?_⟩
      obtain ⟨taken, stream, read⟩ := carries.stream
      refine ⟨taken, ?_, read⟩
      rw [stream, List.filter_append]
      simp [isCredit_creditFragment]
    · simp [toMessage_creditFragment]

theorem start_made (flow : FlowCredit) :
    ∀ fragment, flow.start.2 = some fragment → ∃ amount, fragment = creditFragment amount := by
  intro fragment started
  rw [FlowCredit.start] at started
  split at started <;> cases started
  exact ⟨0, rfl⟩

theorem credited_made (flow : FlowCredit) (amount : Int) :
    ∀ fragment, (flow.credited amount).2 = some fragment →
      ∃ amount, fragment = creditFragment amount := by
  intro fragment replied
  exact start_made _ fragment replied

theorem consumed_made (flow : FlowCredit) (cost : Int) :
    ∀ fragment, (flow.consumed cost).2 = some fragment →
      ∃ amount, fragment = creditFragment amount := by
  intro fragment credited
  simp only [FlowCredit.consumed] at credited
  split at credited
  · cases credited
  · split at credited
    · cases credited
    · split at credited <;> cases credited
      exact ⟨_, rfl⟩

end

theorem credited_work (flow : FlowCredit) (amount : Int) :
    (flow.credited amount).1.owed = flow.owed ∧ (flow.credited amount).1.limited = true ∧
      (flow.credited amount).2.toList.length = if flow.limited then 0 else 1 := by
  simp only [FlowCredit.credited]
  split <;> simp only [FlowCredit.start] <;> cases limited : flow.limited <;> simp [limited]

theorem consumed_work {flow : FlowCredit} {cost : Int} (admissible : Admissible cost)
    (owed : 0 ≤ flow.owed) :
    (flow.consumed cost).1.limited = flow.limited ∧
      3 * (flow.consumed cost).1.owed.toNat + 786432 * (flow.consumed cost).2.toList.length ≤
        3 * flow.owed.toNat + 196608 := by
  obtain ⟨low, high⟩ := admissible
  have quarter : creditStep = 262144 := rfl
  simp only [FlowCredit.consumed]
  split
  · simp
  · split
    · simp
    · split
      · refine ⟨rfl, ?_⟩
        simp only [Option.toList_none, List.length_nil]
        omega
      next enough =>
        refine ⟨rfl, ?_⟩
        rw [quarter, Int.not_lt] at enough
        simp only [Option.toList_some, List.length_singleton, Int.toNat_zero]
        have owes : 262144 ≤ flow.owed.toNat + 65536 := by omega
        omega

/-! ### What each action keeps -/

section

variable {codec : Codec} {p q p' : End} {outward inward frames : List Bytes}

/-- What is left to do at an end: fragments to send, frames to decrypt, fragments to read and a
start to answer with, against the credit that is owed for what was read. -/
def work (e : End) : Nat :=
  262144 * (4 * (e.tasks.flatMap remaining).length + 3 * e.inbound.length +
    2 * e.plainQueue.length + if e.flow.limited then 0 else 4) +
  3 * e.flow.owed.toNat + e.tasks.length + if e.waiting then 0 else 1

/-- Some of it is done, with what the frames cost the other end. -/
def Works (p p' : End) (frames : List Bytes) : Prop :=
  work p' + 262144 * (3 * frames.length) < work p

/-- The ends after an action of `p`. -/
def Kept (codec : Codec) (p' q : End) (frames : List Bytes) : Prop :=
  ∃ outward inward, Between codec p' { q with inbound := q.inbound ++ frames } outward inward

theorem Between.submit (between : Between codec p q outward inward) {call : Call}
    (fits : (p.submit codec call).isSome → Fits codec call)
    (step : p.submit codec call = some (p', frames)) : Kept codec p' q frames := by
  have fit := fits (by rw [step]; rfl)
  rw [End.submit] at step
  split at step
  · cases step
  · split at step
    · cases step
    next payload data kind paid =>
      split at step
      · cases step
      next small =>
        cases step
        rw [not_or, Nat.not_lt] at small
        refine ⟨outward, inward, between.near, between.far, ?_,
          between.back.of_same ⟨rfl, rfl, rfl, rfl⟩ ⟨rfl, rfl, rfl, rfl, rfl, rfl⟩, between.linked,
          between.waits, between.waits'⟩
        obtain ⟨taken, stream, read⟩ := between.out.stream
        refine ⟨by simpa using between.out.sealed, between.out.ready, ?_, taken, ?_, read⟩
        · intro admitted member
          rcases List.mem_append.mp member with member | member
          · exact between.out.accepted admitted member
          · obtain rfl := List.mem_singleton.mp member
            exact ⟨fit, data, kind, paid, small.1⟩
        · simp only [List.flatMap_append, stream, List.flatMap_singleton, callFragments, paid,
            remaining, List.drop_zero, List.append_assoc]

theorem Between.settle (between : Between codec p q outward inward)
    (step : p.settle = some (p', frames)) : Kept codec p' q frames ∧ Works p p' frames := by
  rw [End.settle] at step
  split at step
  · cases step
  · split at step
    · cases step
    next task tasks pending =>
      split at step
      next written =>
        cases step
        have nothing : remaining task = [] := by
          rw [remaining, List.drop_of_length_le written, fragments_nil]
        constructor
        · refine ⟨outward, inward, between.near, between.far, ?_,
            between.back.of_same ⟨rfl, rfl, rfl, rfl⟩ ⟨rfl, rfl, rfl, rfl, rfl, rfl⟩,
            between.linked, between.waits, between.waits'⟩
          obtain ⟨taken, stream, read⟩ := between.out.stream
          refine ⟨by simpa using between.out.sealed, between.out.ready, between.out.accepted, taken,
            ?_, read⟩
          rw [stream, pending, List.flatMap_cons, nothing, List.nil_append]
        · simp [Works, work, pending, nothing]
      next => cases step

theorem Between.pause (between : Between codec p q outward inward)
    (step : p.pause = some (p', frames)) : Kept codec p' q frames ∧ Works p p' frames := by
  rw [End.pause] at step
  split at step
  next waits =>
    cases step
    have full : plainHighWater ≤ p.plainBytes := by
      simp only [End.held, Bool.and_eq_true, decide_eq_true_eq] at waits
      exact waits.2.2
    have running : p.waiting = false := by
      simp only [Bool.and_eq_true, Bool.not_eq_true'] at waits
      exact waits.1
    constructor
    · exact ⟨outward, inward, between.near, between.far,
        between.out.of_same ⟨rfl, rfl, rfl, rfl⟩ ⟨rfl, rfl, by simp, rfl, rfl, rfl⟩,
        between.back.of_same ⟨rfl, rfl, rfl, rfl⟩ ⟨rfl, rfl, rfl, rfl, rfl, rfl⟩, between.linked,
        fun _ => (Nat.div_le_self _ _).trans full, between.waits'⟩
    · simp [Works, work, running]
  next => cases step

theorem Between.flowControl (between : Between codec p q outward inward)
    (room : p.sendCount < maxNonce) (step : p.flowControl codec = some (p', frames)) :
    Kept codec p' q frames := by
  have begun : Carries codec { p with flow := p.flow.start.1 } q outward :=
    between.out.of_same ⟨rfl, rfl, rfl, rfl⟩ ⟨rfl, rfl, rfl, rfl, rfl, rfl⟩
  obtain ⟨cipher, count, sent, outward', credit, carries, messages, -⟩ :=
    begun.sendCredit between.near room (start_made p.flow)
  simp only [End.flowControl, credit] at step
  cases step
  refine ⟨outward', inward, between.near, between.far, carries,
    between.back.of_same ⟨rfl, rfl, rfl, rfl⟩ ⟨rfl, rfl, rfl, rfl, rfl, rfl⟩, ?_, between.waits,
    between.waits'⟩
  have linked := between.linked.starts
  simp only [Peer.deliverTo, peerOf] at linked ⊢
  rw [messages]
  exact linked

theorem Between.transmit (between : Between codec p q outward inward)
    (room : p.sendCount < maxNonce) (step : p.transmit codec = some (p', frames)) :
    Kept codec p' q frames ∧ Works p p' frames := by
  rw [End.transmit] at step
  split at step
  · cases step
  · split at step
    · cases step
    next task tasks pending =>
      split at step
      · cases step
      next unsent =>
        have cut := remaining_cons (Nat.lt_of_not_le unsent)
        generalize plain_eq : (UInt8.ofNat (task.kind.flag +
          if task.offset + ((task.data.drop task.offset).take chunkSize).length = task.data.length
            then 1 else 0) :: (task.data.drop task.offset).take chunkSize) = plain at cut
        have isData : IsData plain := by
          apply isData_fragments task.kind (task.data.drop task.offset)
          rw [← remaining, cut]
          exact List.mem_cons_self
        have cost : fragmentCost (((task.data.drop task.offset).take chunkSize).length + 1) =
            fragmentCost plain.length := by
          rw [← plain_eq]
          simp
        have short : plain.length + 16 ≤ maxMessage := by
          have short := isData.short
          have size : chunkSize = maxMessage - 17 := rfl
          have whole : maxMessage = 65535 := rfl
          omega
        obtain ⟨frame, next, sealed, ready⟩ := sealStep_ok codec between.out.ready room short
        simp only [plain_eq, cost, sealFragment_eq, sealed, Except.map] at step
        split at step
        · cases step
        next allowed =>
          cases step
          have allows : p.flow.allows (fragmentCost plain.length) = true := by simpa using allowed
          refine ⟨⟨outward ++ [plain], inward, between.near, between.far, ?_,
            between.back.of_same ⟨rfl, rfl, rfl, rfl⟩ ⟨rfl, rfl, rfl, rfl, rfl, rfl⟩, ?_,
            between.waits, between.waits'⟩, ?_⟩
          · obtain ⟨taken, stream, read⟩ := between.out.stream
            refine ⟨between.out.sealed.append sealed, ready, between.out.accepted, taken, ?_, read⟩
            rw [stream, pending, List.flatMap_cons, cut, List.filter_append, List.flatMap_cons]
            simp [isData.notCredit]
          · have linked := between.linked.sends (admissible_of_isData isData) allows
            simp only [peerOf, List.map_append, List.map_cons, List.map_nil,
              toMessage_of_isData isData] at linked ⊢
            exact linked
          · have kept : (p.flow.spend (fragmentCost plain.length)).limited = p.flow.limited ∧
                (p.flow.spend (fragmentCost plain.length)).owed = p.flow.owed := by
              rw [FlowCredit.spend]
              split <;> exact ⟨rfl, rfl⟩
            simp only [Works, work, kept, pending, List.flatMap_cons, cut, List.length_append,
              List.length_cons, List.length_nil]
            omega

theorem Between.pump (lawful : codec.Lawful) (between : Between codec p q outward inward)
    (room : p.sendCount < maxNonce) (step : p.pump codec = some (p', frames)) :
    Kept codec p' q frames ∧ Works p p' frames := by
  rw [End.pump] at step
  split at step
  · cases step
  next running =>
    split at step
    · cases step
    next frame rest arrived =>
      have sealed := between.back.sealed
      rw [arrived] at sealed
      obtain ⟨plain, inward', next, rfl, opens, sealed'⟩ := sealed.head
      have opened := openStep_of_sealStep lawful opens
      simp only [openFrame_eq, opened, Except.map] at step
      have flying : (peerOf p (plain :: inward')).inbound = toMessage plain ::
          inward'.map toMessage := rfl
      split at step
      next head =>
        -- a credit
        have credit : isCredit plain = true := by simpa [isCredit] using head
        have message : toMessage plain = .credit (plain.map UInt8.toNat) := by
          rw [toMessage, if_pos credit]
        rw [message] at flying
        obtain ⟨amount, readable, -⟩ := between.linked.back.readable
          (.credit (plain.map UInt8.toNat)) (by rw [flying]; exact List.mem_cons_self)
        simp only [readable] at step
        have credited : Carries codec { p with
            inbound := rest
            receive := next.1
            receiveCount := next.2
            flow := (p.flow.credited amount).1 } q outward :=
          between.out.of_same ⟨rfl, rfl, rfl, rfl⟩ ⟨rfl, rfl, rfl, rfl, rfl, rfl⟩
        obtain ⟨cipher, count, sent, outward', reply, carries, messages, length⟩ :=
          credited.sendCredit between.near room (credited_made p.flow amount)
        simp only [reply] at step
        cases step
        refine ⟨⟨outward', inward', between.near, between.far, carries, ?_, ?_, ?_,
          between.waits'⟩, ?_⟩
        · obtain ⟨taken, stream, read⟩ := between.back.stream
          refine ⟨sealed', between.back.ready, between.back.accepted, taken, ?_, read⟩
          rw [stream, List.filter_cons_of_neg (by simp [credit])]
        · have linked := between.linked.takes_credit flying readable
          simp only [Peer.deliverTo, peerOf] at linked ⊢
          rw [messages]
          exact linked
        · intro waiting
          simp only at waiting
          simp [waiting] at running
        · obtain ⟨owed, limited, replies⟩ := credited_work p.flow amount
          rw [replies] at length
          simp only [Works, work, owed, limited, length, arrived, List.length_cons]
          cases p.flow.limited <;> simp only [Bool.false_eq_true, if_true, if_false] <;> omega
      next head =>
        -- a fragment of data
        have data : isCredit plain = false := by simpa [isCredit] using head
        have isData := between.back.isData_flying List.mem_cons_self data
        rw [toMessage_of_isData isData] at flying
        have within := between.linked.symm.safe.accepts _ _ flying
        simp only [peerOf] at within
        simp only [within, if_true] at step
        cases step
        refine ⟨⟨outward, inward', between.near, between.far,
          between.out.of_same ⟨rfl, rfl, rfl, rfl⟩ ⟨rfl, rfl, by simp, rfl, rfl, rfl⟩, ?_, ?_, ?_,
          between.waits'⟩, ?_⟩
        · obtain ⟨taken, stream, read⟩ := between.back.stream
          refine ⟨sealed', between.back.ready, between.back.accepted, taken, ?_, read⟩
          rw [stream, List.filter_cons_of_pos (by simp [data])]
          simp
        · have linked := between.linked.takes_data flying
          simpa [peerOf] using linked
        · intro waiting
          simp only at waiting
          simp [waiting] at running
        · have kept : (p.flow.received (fragmentCost plain.length)).1.limited = p.flow.limited ∧
              (p.flow.received (fragmentCost plain.length)).1.owed = p.flow.owed := by
            rw [FlowCredit.received]
            split <;> exact ⟨rfl, rfl⟩
          simp only [Works, work, kept, arrived, List.length_append, List.length_cons,
            List.length_nil]
          omega

theorem Between.take (lawful : codec.Lawful) (between : Between codec p q outward inward)
    (room : p.sendCount < maxNonce) (step : p.take codec = some (p', frames)) :
    Kept codec p' q frames ∧ Works p p' frames := by
  rw [End.take] at step
  split at step
  · cases step
  · split at step
    · cases step
    next plain rest queued =>
      obtain ⟨taken, stream, read⟩ := between.back.stream
      -- the reader does not fail on a prefix of the stream
      have whole := readAll_calls lawful between.back.accepted
      rw [stream, queued, List.cons_append] at whole
      obtain ⟨part, message, takes, reads⟩ := take_of_readAll whole read
      generalize waits_eq : (if (rest.map List.length).sum < plainHighWater / 2 then false
        else p.waiting) = waiting at step
      have resumed : (if ({ p with plainQueue := rest } : End).plainBytes < plainHighWater / 2 then
          { p with plainQueue := rest, waiting := false } else { p with plainQueue := rest }) =
          { p with plainQueue := rest, waiting := waiting } := by
        rw [← waits_eq, End.plainBytes]
        split <;> rfl
      have credited : Carries codec { p with
          plainQueue := rest
          waiting := waiting
          flow := (p.flow.consumed (fragmentCost plain.length)).1 } q outward :=
        between.out.of_same ⟨rfl, rfl, rfl, rfl⟩ ⟨rfl, rfl, rfl, rfl, rfl, rfl⟩
      obtain ⟨cipher, count, sent, outward', credit, carries, messages, length⟩ :=
        credited.sendCredit between.near room (consumed_made p.flow (fragmentCost plain.length))
      simp only [resumed, credit, takes] at step
      cases step
      refine ⟨⟨outward', inward, between.near, between.far,
        carries.of_same ⟨rfl, rfl, rfl, rfl⟩ ⟨rfl, rfl, rfl, rfl, rfl, rfl⟩, ?_, ?_, ?_,
        between.waits'⟩, ?_⟩
      · refine ⟨between.back.sealed, between.back.ready, between.back.accepted, taken ++ [plain],
          ?_, reads⟩
        rw [stream, queued]
        simp
      · have linked := between.linked.consumes (show (peerOf p inward).queue =
          fragmentCost plain.length :: rest.map fun plain => fragmentCost plain.length by
            simp [peerOf, queued])
        simp only [Peer.deliverTo, peerOf] at linked ⊢
        rw [messages]
        exact linked
      · intro stays
        simp only at stays
        rw [← waits_eq] at stays
        split at stays
        · cases stays
        next full => exact Nat.le_of_not_lt full
      · have isData : IsData plain :=
          between.back.isData_queued plain (by rw [queued]; exact List.mem_cons_self)
        have owed : 0 ≤ p.flow.owed := by
          cases counting : p.flow.counting with
          | true => exact (between.linked.back.counted counting).2.2.2.1
          | false => exact (between.linked.back.idle counting).2.2.1.ge
        obtain ⟨limited, credits⟩ := consumed_work (admissible_of_isData isData) owed
        simp only [Works, work, limited, length, queued, List.length_cons]
        split <;> split <;> omega

/-- A call that is admitted fits, and a nonce is left for the next frame. -/
def Allowed (codec : Codec) (e : End) (action : Action) : Prop :=
  e.sendCount < maxNonce ∧
    ∀ call, action = .submit call → (e.submit codec call).isSome → Fits codec call

theorem Between.act (lawful : codec.Lawful) (between : Between codec p q outward inward)
    {action : Action} (allowed : Allowed codec p action)
    (step : p.act codec action = some (p', frames)) : Kept codec p' q frames := by
  cases action with
  | submit call => exact between.submit (allowed.2 call rfl) step
  | flowControl => exact between.flowControl allowed.1 step
  | transmit => exact (between.transmit allowed.1 step).1
  | settle => exact (between.settle step).1
  | pause => exact (between.pause step).1
  | pump => exact (between.pump lawful allowed.1 step).1
  | take => exact (between.take lawful allowed.1 step).1

/-- What an end does by itself, without its application asking for more. -/
def Action.internal : Action → Bool
  | .submit _ | .flowControl => false
  | _ => true

theorem Between.works (lawful : codec.Lawful) (between : Between codec p q outward inward)
    {action : Action} (allowed : Allowed codec p action) (internal : action.internal = true)
    (step : p.act codec action = some (p', frames)) : Works p p' frames := by
  cases action with
  | submit call => cases internal
  | flowControl => cases internal
  | transmit => exact (between.transmit allowed.1 step).2
  | settle => exact (between.settle step).2
  | pause => exact (between.pause step).2
  | pump => exact (between.pump lawful allowed.1 step).2
  | take => exact (between.take lawful allowed.1 step).2

/-! ### At rest -/

theorem take_isSome (codec : Codec) (open_p : p.ended = none) (queued : p.plainQueue ≠ []) :
    (p.take codec).isSome := by
  rw [End.take, if_neg (by simp [open_p])]
  split
  next none => exact absurd none queued
  next =>
    simp only
    split
    · rfl
    · split <;> rfl

theorem pump_isSome (codec : Codec) (open_p : p.ended = none) (running : p.waiting = false)
    (free : p.held = false) (arrived : p.inbound ≠ []) : (p.pump codec).isSome := by
  rw [End.pump, if_neg (by simp [open_p, running, free])]
  split
  next none => exact absurd none arrived
  next =>
    simp only
    split
    · rfl
    · split
      · split
        · rfl
        · split <;> rfl
      · split <;> rfl

theorem Between.drained (between : Between codec p q outward inward)
    (idle : ∀ action : Action, action.internal = true → p.act codec action = none) :
    p.plainQueue = [] ∧ inward = [] := by
  have queue : p.plainQueue = [] := by
    by_contra queued
    have takes := take_isSome codec between.near queued
    rw [show p.take codec = none from idle .take rfl] at takes
    cases takes
  have bytes : p.plainBytes = 0 := by simp [End.plainBytes, queue]
  have running : p.waiting = false := by
    by_contra waiting
    have full := between.waits (by simpa using waiting)
    rw [bytes] at full
    exact absurd full (by decide)
  have free : p.held = false := by
    simp [End.held, bytes, plainHighWater]
  have arrived : p.inbound = [] := by
    by_contra some_frame
    have pumps := pump_isSome codec between.near running free some_frame
    rw [show p.pump codec = none from idle .pump rfl] at pumps
    cases pumps
  have nothing : ∀ {direction last : Direction} {plains frames : List Bytes},
      Sealed codec direction plains frames last → frames = [] → plains = [] := by
    intro direction last plains frames sealed none
    cases sealed with
    | none => rfl
    | next => cases none
  exact ⟨queue, nothing between.back.sealed arrived⟩

theorem Between.sent (between : Between codec p q [] []) (queue : p.plainQueue = [])
    (queue' : q.plainQueue = [])
    (idle : ∀ action : Action, action.internal = true → p.act codec action = none) :
    p.tasks = [] := by
  -- with nothing in flight or queued, credit allows any fragment
  have allows : ∀ cost, Admissible cost → p.flow.allows cost = true :=
    between.linked.safe.flows rfl rfl (by simp [peerOf, queue]) (by simp [peerOf, queue'])
  by_contra some_task
  obtain ⟨task, tasks, pending⟩ := List.exists_cons_of_ne_nil some_task
  by_cases written : task.data.length ≤ task.offset
  · have settles : p.settle = none := idle .settle rfl
    rw [End.settle, if_neg (by simp [between.near]), pending] at settles
    simp [written] at settles
  · have cost : Admissible (fragmentCost
        (((task.data.drop task.offset).take chunkSize).length + 1)) := by
      apply admissible_fragmentCost
      have short := List.length_take_le chunkSize (task.data.drop task.offset)
      have size : chunkSize = 65518 := rfl
      omega
    have transmits : p.transmit codec = none := idle .transmit rfl
    rw [End.transmit, if_neg (by simp [between.near]), pending] at transmits
    simp only [written, if_false, allows _ cost, Bool.not_true, Bool.false_eq_true] at transmits
    split at transmits <;> cases transmits

theorem Carries.received_prefix (lawful : codec.Lawful) (carries : Carries codec p q outward) :
    q.received <+: p.admitted.map (·.content) := by
  obtain ⟨taken, stream, read⟩ := carries.stream
  have whole := readAll_calls lawful carries.accepted
  rw [stream] at whole
  obtain ⟨middle, first, second, read', -, all⟩ := readAll_prefix whole
  rw [read] at read'
  cases read'
  exact ⟨second, all.symm⟩

theorem Carries.received_all (lawful : codec.Lawful) (carries : Carries codec p q [])
    (queue : q.plainQueue = []) (tasks : p.tasks = []) :
    q.received = p.admitted.map (·.content) := by
  obtain ⟨taken, stream, read⟩ := carries.stream
  have whole := readAll_calls lawful carries.accepted
  simp only [queue, tasks, List.filter_nil, List.flatMap_nil, List.append_nil] at stream
  rw [stream, read, Except.ok.injEq, Prod.mk.injEq] at whole
  exact whole.2

end

/-! ### Runs -/

/-- Every step of a run is allowed. -/
def Meets (codec : Codec) : Joint → List (Side × Action) → Prop
  | _, [] => True
  | joint, (side, action) :: actions => Allowed codec (joint.side side) action ∧
    Meets codec ((joint.step codec side action).getD joint) actions

/-- Two ends in the invariant, whatever is in flight. -/
def Sound (codec : Codec) (joint : Joint) : Prop :=
  ∃ outward inward, Between codec joint.left joint.right outward inward

variable {codec : Codec} {joint joint' : Joint}

theorem Sound.step (lawful : codec.Lawful) (sound : Sound codec joint) {side : Side}
    {action : Action} (allowed : Allowed codec (joint.side side) action)
    (step : joint.step codec side action = some joint') : Sound codec joint' := by
  obtain ⟨outward, inward, between⟩ := sound
  cases side with
  | left =>
    simp only [Joint.step, Option.map_eq_some_iff] at step
    obtain ⟨⟨e, frames⟩, acts, rfl⟩ := step
    exact between.act lawful allowed acts
  | right =>
    simp only [Joint.step, Option.map_eq_some_iff] at step
    obtain ⟨⟨e, frames⟩, acts, rfl⟩ := step
    obtain ⟨outward', inward', between'⟩ := between.symm.act lawful allowed acts
    exact ⟨inward', outward', between'.symm⟩

theorem Sound.run (lawful : codec.Lawful) (sound : Sound codec joint)
    {actions : List (Side × Action)} (meets : Meets codec joint actions) :
    Sound codec (joint.run codec actions) := by
  induction actions generalizing joint with
  | nil => exact sound
  | cons first actions ih =>
    obtain ⟨side, action⟩ := first
    obtain ⟨allowed, rest⟩ := meets
    rw [Joint.run, List.foldl_cons, ← Joint.run]
    apply ih _ rest
    cases step : joint.step codec side action with
    | none => exact sound
    | some next => exact sound.step lawful allowed step

theorem sound_opened (codec : Codec) (out back : Bytes) : Sound codec (Joint.opened out back) := by
  have carries : ∀ (p q : End) (key : Bytes), p.send = { key := some key } → p.sendCount = 0 →
      q.receive = { key := some key } → q.receiveCount = 0 → q.inbound = [] → p.admitted = [] →
      p.tasks = [] → q.plainQueue = [] → q.reader = {} → q.received = [] →
      Carries codec p q [] := by
    intro p q key send sendCount receive receiveCount inbound admitted tasks queue reader received
    constructor
    · rw [send, sendCount, receive, receiveCount, inbound]
      exact .none _
    · rw [send, sendCount]
      exact ⟨rfl, rfl, rfl⟩
    · simp [admitted]
    · exact ⟨[], by simp [admitted, queue, tasks], by rw [reader, received]; rfl⟩
  refine ⟨[], [], rfl, rfl, ?_, ?_, ?_, nofun, nofun⟩
  · exact carries _ _ out rfl rfl rfl rfl rfl rfl rfl rfl rfl rfl
  · exact carries _ _ back rfl rfl rfl rfl rfl rfl rfl rfl rfl rfl
  · exact linked_of_joined .opened

/-- Steps that the ends take by themselves, one after another. -/
def Proceeds (codec : Codec) : Joint → List (Side × Action) → Prop
  | _, [] => True
  | joint, (side, action) :: actions => action.internal = true ∧
    ∃ next, joint.step codec side action = some next ∧ Proceeds codec next actions

/-- Nothing can happen but what an application asks for. -/
def AtRest (codec : Codec) (joint : Joint) : Prop :=
  ∀ side action, action.internal = true → joint.step codec side action = none

theorem work_receiving (e : End) (frames : List Bytes) :
    work { e with inbound := e.inbound ++ frames } = work e + 262144 * (3 * frames.length) := by
  simp only [work, List.length_append]
  omega

theorem Sound.work_step (lawful : codec.Lawful) (sound : Sound codec joint) {side : Side}
    {action : Action} (allowed : Allowed codec (joint.side side) action)
    (internal : action.internal = true) (step : joint.step codec side action = some joint') :
    work joint'.left + work joint'.right < work joint.left + work joint.right := by
  obtain ⟨outward, inward, between⟩ := sound
  cases side with
  | left =>
    simp only [Joint.step, Option.map_eq_some_iff] at step
    obtain ⟨⟨e, frames⟩, acts, rfl⟩ := step
    have works := between.works lawful allowed internal acts
    rw [Works] at works
    simp only [work_receiving]
    omega
  | right =>
    simp only [Joint.step, Option.map_eq_some_iff] at step
    obtain ⟨⟨e, frames⟩, acts, rfl⟩ := step
    have works := between.symm.works lawful allowed internal acts
    rw [Works] at works
    simp only [work_receiving]
    omega

theorem Sound.bounded (lawful : codec.Lawful) (sound : Sound codec joint)
    {later : List (Side × Action)} (meets : Meets codec joint later)
    (proceeds : Proceeds codec joint later) :
    later.length ≤ work joint.left + work joint.right := by
  induction later generalizing joint with
  | nil => exact Nat.zero_le _
  | cons first later ih =>
    obtain ⟨side, action⟩ := first
    obtain ⟨allowed, rest⟩ := meets
    obtain ⟨internal, next, step, proceeds⟩ := proceeds
    rw [step, Option.getD_some] at rest
    have less := sound.work_step lawful allowed internal step
    have all := ih (sound.step lawful allowed step) rest proceeds
    rw [List.length_cons]
    omega

/-- What the two ends may rely on. -/
structure Delivers (codec : Codec) (joint : Joint) : Prop where
  left_open : joint.left.ended = none
  right_open : joint.right.ended = none
  to_right : joint.right.received <+: joint.left.admitted.map (·.content)
  to_left : joint.left.received <+: joint.right.admitted.map (·.content)
  /-- The ends come to rest by themselves. -/
  bounded : ∀ later, Meets codec joint later → Proceeds codec joint later →
    later.length ≤ work joint.left + work joint.right
  /-- At rest all that was admitted is received. -/
  complete : AtRest codec joint →
    joint.right.received = joint.left.admitted.map (·.content) ∧
      joint.left.received = joint.right.admitted.map (·.content)

theorem Sound.delivers (lawful : codec.Lawful) (sound : Sound codec joint) :
    Delivers codec joint := by
  have bounded : ∀ later, Meets codec joint later → Proceeds codec joint later →
      later.length ≤ work joint.left + work joint.right := fun _ => sound.bounded lawful
  obtain ⟨outward, inward, between⟩ := sound
  refine ⟨between.near, between.far, between.out.received_prefix lawful,
    between.back.received_prefix lawful, bounded, ?_⟩
  intro rest
  have idle : ∀ action : Action, action.internal = true → joint.left.act codec action = none := by
    intro action internal
    simpa [Joint.step] using rest .left action internal
  have idle' : ∀ action : Action, action.internal = true →
      joint.right.act codec action = none := by
    intro action internal
    simpa [Joint.step] using rest .right action internal
  obtain ⟨queue, rfl⟩ := between.drained idle
  obtain ⟨queue', rfl⟩ := between.symm.drained idle'
  exact ⟨between.out.received_all lawful queue' (between.sent queue queue' idle),
    between.back.received_all lawful queue (between.symm.sent queue' queue idle')⟩

/-- A channel delivers what it accepts, in every run whose admitted calls fit. -/
theorem channel_delivers (codec : Codec) (lawful : codec.Lawful) (out back : Bytes)
    (actions : List (Side × Action)) (meets : Meets codec (Joint.opened out back) actions) :
    Delivers codec ((Joint.opened out back).run codec actions) :=
  ((sound_opened codec out back).run lawful meets).delivers lawful

/-! ### Samples -/

/-- A cipher that only adds room for a tag, and a deflate that shrinks what is beyond the limit. -/
def plainCodec : Codec where
  crypto := {
    publicKey := id
    sharedSecret := fun _ _ => none
    sha256 := id
    hkdf := fun _ _ => []
    encrypt := fun _ _ _ plain => List.replicate 16 0 ++ plain
    decrypt := fun _ _ _ frame => some (frame.drop 16) }
  deflateRaw := fun bytes => if logicalMessageLimit < bytes.length then [1] else 0 :: bytes
  inflateRaw := fun limit deflated =>
    match deflated with
    | 0 :: bytes => if bytes.length ≤ limit then some bytes else none
    | _ => none

theorem plainCodec_lawful : plainCodec.Lawful := by
  constructor
  · intro key nonce ad plain
    simp [plainCodec]
  · intro key nonce ad plain
    simp only [plainCodec, List.length_append, List.length_replicate, Nat.add_comm]
  · intro bytes
    simp only [plainCodec]
    split <;> simp
  · intro bytes short
    simp [plainCodec, Nat.not_lt.mpr short, short]

theorem channel_delivers_sample :
    Delivers plainCodec ((Joint.opened [] []).run plainCodec
      [(.left, .flowControl), (.left, .submit (.text "{}" false)), (.left, .transmit),
        (.right, .pump), (.right, .pump), (.right, .take)]) := by
  apply channel_delivers plainCodec plainCodec_lawful
  refine ⟨⟨by decide, nofun⟩, ⟨by decide, ?_⟩, ⟨by decide, nofun⟩, ⟨by decide, nofun⟩,
    ⟨by decide, nofun⟩, ⟨by decide, nofun⟩, trivial⟩
  rintro call ⟨⟩ -
  refine ⟨by decide, ?_, nofun⟩
  rintro c rest starts
  obtain ⟨rfl, rfl⟩ := List.cons.inj (show ['{', '}'] = c :: rest from starts)
  decide

def longText : String := String.ofList ('"' :: List.replicate logicalMessageLimit 'a' ++ ['"'])

theorem encodeText_ofList (l : List Char) :
    encodeText (String.ofList l) = l.flatMap String.utf8EncodeChar := by
  rw [encodeText, String.toByteArray_ofList, List.utf8Encode, List.data_toByteArray]

theorem length_encodeText (l : List Char) :
    l.length ≤ (encodeText (String.ofList l)).length := by
  rw [encodeText_ofList]
  induction l with
  | nil => exact Nat.le_refl _
  | cons c l ih =>
    have one := Char.utf8Size_pos c
    simp only [List.flatMap_cons, List.length_append, List.length_cons,
      String.length_utf8EncodeChar]
    omega

theorem payload_of_shrinks (codec : Codec) (source : String)
    (worth : deflateThreshold ≤ (encodeText source).length)
    (shrinks : (codec.deflateRaw (encodeText source)).length < (encodeText source).length) :
    (Call.text source true).payload codec =
      some (codec.deflateRaw (encodeText source), .deflated) := by
  simp only [Call.payload, if_true, deflateMessage, if_neg (Nat.not_lt.mpr worth), if_pos shrinks]

theorem plainCodec_deflateRaw (json : Bytes) (long : logicalMessageLimit < json.length) :
    plainCodec.deflateRaw json = [1] := by
  simp only [plainCodec, if_pos long]

theorem longText_long : logicalMessageLimit < (encodeText longText).length := by
  have shape : longText.toList.length = logicalMessageLimit + 2 := by
    rw [longText, String.toList_ofList, List.length_append, List.length_cons,
      List.length_replicate, List.length_singleton]
  have bytes := length_encodeText longText.toList
  rw [String.ofList_toList, shape] at bytes
  exact Nat.lt_of_lt_of_le (Nat.lt_add_of_pos_right Nat.zero_lt_two) bytes

theorem longText_payload :
    (Call.text longText true).payload plainCodec = some ([1], .deflated) := by
  have one : plainCodec.deflateRaw (encodeText longText) = [1] :=
    plainCodec_deflateRaw _ longText_long
  have worth : deflateThreshold ≤ (encodeText longText).length :=
    Nat.le_trans (by decide) (Nat.le_of_lt longText_long)
  have shrinks : (plainCodec.deflateRaw (encodeText longText)).length <
      (encodeText longText).length := by
    rw [one]
    exact Nat.lt_trans (by decide) longText_long
  rw [payload_of_shrinks plainCodec longText worth shrinks, one]

/-- A long text is admitted, and ends the channel. -/
theorem channel_long_text :
    ((Joint.opened [] []).run plainCodec [(.left, .submit (.text longText true)),
      (.left, .transmit), (.right, .pump), (.right, .take)]).right.ended ≠ none := by
  have admitted : (Joint.opened [] []).step plainCodec .left (.submit (.text longText true)) =
      some { Joint.opened [] [] with
        left := { (Joint.opened [] []).left with
          tasks := [{ data := [1], kind := .deflated }]
          admitted := [.text longText true] } } := by
    simp only [Joint.step, End.act, End.submit, longText_payload]
    rfl
  rw [Joint.run, List.foldl_cons]
  simp only [admitted, Option.getD_some]
  intro none
  exact Option.some_ne_none "Cannot create a Buffer larger than the limit" none

end Ace.Channel
