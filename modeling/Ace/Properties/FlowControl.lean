import Ace.SecureChannel.FlowCredit
import Mathlib.Algebra.Order.BigOperators.Group.List

/-!
# Credit flow control over two channels

Two ends with a `FlowCredit` each, joined by a FIFO channel in either direction. An end may
send data its window allows, start its limit, take the next message that arrived, or let its
reader take the next queued fragment; whatever fragment an operation returns is sent. The
invariant of one direction says where the sender's window is: still with it, in flight as
data or as credit, or with the receiver.
-/

namespace Ace

/-- What travels on a channel: data, by its cost, or a credit fragment. -/
inductive Message where
  | data (cost : Int)
  | credit (fragment : Fragment)
  deriving DecidableEq, Repr

/-- One end: its accounting, the costs of the fragments queued for its reader, oldest first,
and what is in flight towards it. -/
structure Peer where
  flow : FlowCredit := {}
  queue : List Int := []
  inbound : List Message := []
  deriving DecidableEq, Repr

def Admissible (cost : Int) : Prop := 4096 ≤ cost ∧ cost ≤ 65536

instance (cost : Int) : Decidable (Admissible cost) :=
  inferInstanceAs (Decidable (4096 ≤ cost ∧ cost ≤ 65536))

theorem admissible_fragmentCost {plainLength : Int} (le : plainLength ≤ 65536) :
    Admissible (fragmentCost plainLength) := by
  unfold Admissible fragmentCost minCost
  omega

/-- Send what an operation returned. -/
def Peer.deliverTo (peer : Peer) (reply : Option Fragment) : Peer :=
  { peer with inbound := peer.inbound ++ (reply.map Message.credit).toList }

/-- One end acts: `Acts p q p' q'` is a step of `p`, whose peer is `q`. -/
inductive Acts : Peer → Peer → Peer → Peer → Prop where
  | send (p q : Peer) (cost : Int) (admissible : Admissible cost)
      (allowed : p.flow.allows cost = true) :
      Acts p q { p with flow := p.flow.spend cost }
        { q with inbound := q.inbound ++ [.data cost] }
  | start (p q : Peer) :
      Acts p q { p with flow := p.flow.start.1 } (q.deliverTo p.flow.start.2)
  | receiveData (p q : Peer) (cost : Int) (rest : List Message)
      (arrived : p.inbound = .data cost :: rest) :
      Acts p q
        { flow := (p.flow.received cost).1, queue := p.queue ++ [cost], inbound := rest } q
  | receiveCredit (p q : Peer) (fragment : Fragment) (amount : Int) (rest : List Message)
      (arrived : p.inbound = .credit fragment :: rest) (read : readCredit fragment = some amount) :
      Acts p q { p with flow := (p.flow.credited amount).1, inbound := rest }
        (q.deliverTo (p.flow.credited amount).2)
  | consume (p q : Peer) (cost : Int) (rest : List Int) (next : p.queue = cost :: rest) :
      Acts p q { p with flow := (p.flow.consumed cost).1, queue := rest }
        (q.deliverTo (p.flow.consumed cost).2)

/-- Two ends, in any interleaving of their steps. -/
inductive Joined : Peer → Peer → Prop where
  | opened : Joined {} {}
  | left {p q p' q' : Peer} (before : Joined p q) (step : Acts p q p' q') : Joined p' q'
  | right {p q p' q' : Peer} (before : Joined p q) (step : Acts q p q' p') : Joined p' q'

/-! ### What is in flight -/

def dataCost : Message → Int
  | .data cost => cost
  | .credit _ => 0

def creditAmount : Message → Int
  | .data _ => 0
  | .credit fragment => (readCredit fragment).getD 0

def dataOn (channel : List Message) : Int := (channel.map dataCost).sum

def creditOn (channel : List Message) : Int := (channel.map creditAmount).sum

/-- What follows the first credit on a channel. -/
def afterStart : List Message → List Message
  | [] => []
  | .data _ :: rest => afterStart rest
  | .credit _ :: rest => rest

/-- The data in flight towards `q` that its sender's window paid for. -/
def countedOn (q : Peer) : Int :=
  dataOn (if q.flow.counting then q.inbound else afterStart q.inbound)

def Message.isData : Message → Bool
  | .data _ => true
  | .credit _ => false

/-- A credit that its receiver accepts. -/
def Readable : Message → Prop
  | .data cost => Admissible cost
  | .credit fragment => ∃ amount, readCredit fragment = some amount ∧ 0 ≤ amount

section

variable (xs ys : List Message) (m : Message)

@[simp] theorem dataOn_nil : dataOn [] = 0 := rfl

@[simp] theorem creditOn_nil : creditOn [] = 0 := rfl

@[simp] theorem dataOn_cons : dataOn (m :: xs) = dataCost m + dataOn xs := by simp [dataOn]

@[simp] theorem creditOn_cons : creditOn (m :: xs) = creditAmount m + creditOn xs := by
  simp [creditOn]

@[simp] theorem dataOn_append : dataOn (xs ++ ys) = dataOn xs + dataOn ys := by simp [dataOn]

@[simp] theorem creditOn_append : creditOn (xs ++ ys) = creditOn xs + creditOn ys := by
  simp [creditOn]

end

theorem dataOn_nonneg {xs : List Message} (readable : ∀ m ∈ xs, Readable m) : 0 ≤ dataOn xs := by
  induction xs with
  | nil => simp
  | cons m xs ih =>
    have rest := ih fun n member => readable n (List.mem_cons_of_mem _ member)
    have head := readable m (List.mem_cons_self ..)
    rw [dataOn_cons]
    cases m with
    | data cost =>
      obtain ⟨low, _⟩ := head
      simp only [dataCost]
      omega
    | credit fragment =>
      simp only [dataCost]
      omega

theorem creditOn_nonneg {xs : List Message} (readable : ∀ m ∈ xs, Readable m) :
    0 ≤ creditOn xs := by
  induction xs with
  | nil => simp
  | cons m xs ih =>
    have rest := ih fun n member => readable n (List.mem_cons_of_mem _ member)
    have head := readable m (List.mem_cons_self ..)
    rw [creditOn_cons]
    cases m with
    | data cost =>
      simp only [creditAmount]
      omega
    | credit fragment =>
      obtain ⟨amount, read, nonneg⟩ := head
      simp only [creditAmount, read, Option.getD_some]
      omega

theorem readCredit_creditFragment {amount : Int} (nonneg : 0 ≤ amount)
    (le : amount ≤ flowWindow) : readCredit (creditFragment amount) = some amount := by
  have bound : amount ≤ 1048576 := le
  obtain ⟨count, rfl⟩ := Int.eq_ofNat_of_zero_le nonneg
  have small : ((count : Int) % 2 ^ 32).toNat = count := by omega
  unfold creditFragment readCredit
  simp only [small]
  have exact_sum : ((count / 2 ^ 24 % 256 : Nat) : Int) * 2 ^ 24 +
      ((count / 2 ^ 16 % 256 : Nat) : Int) * 2 ^ 16 + ((count / 2 ^ 8 % 256 : Nat) : Int) * 2 ^ 8 +
      ((count % 256 : Nat) : Int) = (count : Int) := by omega
  rw [exact_sum, if_neg]
  simp only [not_or, ne_eq, not_true_eq_false, not_false_eq_true, true_and, not_lt]
  exact le

theorem afterStart_append_plain {xs : List Message} (plain : ∀ m ∈ xs, m.isData = true)
    (ys : List Message) : afterStart (xs ++ ys) = afterStart ys := by
  induction xs with
  | nil => rfl
  | cons m xs ih =>
    have rest := ih fun n member => plain n (List.mem_cons_of_mem _ member)
    cases m with
    | data cost => exact rest
    | credit fragment => simpa [Message.isData] using plain (.credit fragment) (by simp)

theorem afterStart_append_started {xs : List Message} (started : ∃ m ∈ xs, m.isData = false)
    (ys : List Message) : afterStart (xs ++ ys) = afterStart xs ++ ys := by
  induction xs with
  | nil => simp at started
  | cons m xs ih =>
    cases m with
    | data cost =>
      obtain ⟨n, member, credit⟩ := started
      rcases List.mem_cons.mp member with rfl | later
      · simp [Message.isData] at credit
      · exact ih ⟨n, later, credit⟩
    | credit fragment => rfl

theorem afterStart_subset (xs : List Message) : ∀ m ∈ afterStart xs, m ∈ xs := by
  induction xs with
  | nil => simp [afterStart]
  | cons n xs ih =>
    intro m member
    cases n with
    | data cost => exact List.mem_cons_of_mem _ (ih m member)
    | credit fragment => exact List.mem_cons_of_mem _ member

/-! ### The invariant of one direction -/

/-- Data flows from `p` to `q`, and credit back. -/
structure Lane (p q : Peer) : Prop where
  readable : ∀ m ∈ q.inbound, Readable m
  costs : ∀ cost ∈ q.queue, Admissible cost
  queued : q.flow.queued = q.queue.length
  /-- Before the start no credit is on the way, and nothing is counted. -/
  plain : p.flow.limited = false →
    (∀ m ∈ q.inbound, m.isData = true) ∧ q.flow.counting = false
  idle : q.flow.counting = false →
    q.flow.uncounted = 0 ∧ q.flow.unacked = 0 ∧ q.flow.owed = 0 ∧ creditOn p.inbound = 0
  /-- A start that is not counted yet is on its way. -/
  started : p.flow.limited = true → q.flow.counting = false → ∃ m ∈ q.inbound, m.isData = false
  window : p.flow.limited = true → 0 ≤ p.flow.window
  counted : q.flow.counting = true → 0 ≤ q.flow.uncounted ∧
    q.flow.uncounted ≤ q.queue.length ∧
    q.flow.unacked = (q.queue.drop q.flow.uncounted.toNat).sum + q.flow.owed ∧
    0 ≤ q.flow.owed ∧ q.flow.owed < creditStep
  conserved : p.flow.limited = true →
    p.flow.window + countedOn q + q.flow.unacked + creditOn p.inbound = flowWindow

theorem lane_opened : Lane {} {} := by
  constructor <;> simp [countedOn, afterStart]

section

variable {p q : Peer}

theorem Lane.limited (lane : Lane p q) (counting : q.flow.counting = true) :
    p.flow.limited = true := by
  by_contra unlimited
  simp only [Bool.not_eq_true] at unlimited
  have uncounted := (lane.plain unlimited).2
  simp [counting] at uncounted

theorem Lane.countedOn_nonneg (lane : Lane p q) : 0 ≤ countedOn q := by
  apply dataOn_nonneg
  intro m member
  split at member
  · exact lane.readable m member
  · exact lane.readable m (afterStart_subset _ m member)

/-! ### Parts of a state that a direction does not read -/

structure SameSender (p p' : Peer) : Prop where
  limited : p'.flow.limited = p.flow.limited
  window : p'.flow.window = p.flow.window
  credit : creditOn p'.inbound = creditOn p.inbound

/-- `q'` counts and reads as `q` does. -/
structure SameReader (q q' : Peer) : Prop where
  inbound : q'.inbound = q.inbound
  queue : q'.queue = q.queue
  counting : q'.flow.counting = q.flow.counting
  queued : q'.flow.queued = q.flow.queued
  uncounted : q'.flow.uncounted = q.flow.uncounted
  unacked : q'.flow.unacked = q.flow.unacked
  owed : q'.flow.owed = q.flow.owed

theorem SameReader.refl (q : Peer) : SameReader q q := ⟨rfl, rfl, rfl, rfl, rfl, rfl, rfl⟩

theorem Lane.of_same {p' q' : Peer} (lane : Lane p q) (sender : SameSender p p')
    (reader : SameReader q q') : Lane p' q' := by
  have counted : countedOn q' = countedOn q := by
    unfold countedOn
    rw [reader.counting, reader.inbound]
  constructor
  case readable => rw [reader.inbound]; exact lane.readable
  case costs => rw [reader.queue]; exact lane.costs
  case queued => rw [reader.queued, reader.queue]; exact lane.queued
  case plain => rw [sender.limited, reader.inbound, reader.counting]; exact lane.plain
  case idle =>
    rw [reader.counting, reader.uncounted, reader.unacked, reader.owed, sender.credit]
    exact lane.idle
  case started => rw [sender.limited, reader.counting, reader.inbound]; exact lane.started
  case window => rw [sender.limited, sender.window]; exact lane.window
  case counted =>
    rw [reader.counting, reader.uncounted, reader.queue, reader.unacked, reader.owed]
    exact lane.counted
  case conserved =>
    rw [sender.limited, sender.window, counted, reader.unacked, sender.credit]
    exact lane.conserved

theorem Lane.with_inbound (lane : Lane p q) (message : Message) (readable : Readable message)
    (limited : p.flow.limited = true) :
    Lane { p with flow := { p.flow with window := p.flow.window - dataCost message } }
      { q with inbound := q.inbound ++ [message] } ∨
    p.flow.window < dataCost message := by
  by_cases room : dataCost message ≤ p.flow.window
  · left
    have paid : countedOn { q with inbound := q.inbound ++ [message] } =
        countedOn q + dataCost message := by
      unfold countedOn
      by_cases counts : q.flow.counting = true
      · simp [counts]
      · have started := lane.started limited (by simpa using counts)
        simp [counts, afterStart_append_started started]
    constructor
    case readable =>
      intro m member
      rcases List.mem_append.mp member with old | new
      · exact lane.readable m old
      · rw [List.mem_singleton] at new
        exact new ▸ readable
    case costs => exact lane.costs
    case queued => exact lane.queued
    case plain =>
      intro unlimited
      simp [limited] at unlimited
    case idle => exact lane.idle
    case started =>
      intro _ uncounting
      obtain ⟨m, member, credit⟩ := lane.started limited uncounting
      exact ⟨m, List.mem_append_left _ member, credit⟩
    case window =>
      intro _
      show 0 ≤ p.flow.window - dataCost message
      omega
    case counted => exact lane.counted
    case conserved =>
      intro _
      have total := lane.conserved limited
      rw [paid]
      show p.flow.window - dataCost message + (countedOn q + dataCost message) +
        q.flow.unacked + creditOn p.inbound = flowWindow
      omega
  · exact .inr (by omega)

theorem Lane.credit_sent (lane : Lane p q) {fragment : Fragment}
    (readable : Readable (.credit fragment)) (limited : p.flow.limited = true) :
    Lane p { q with inbound := q.inbound ++ [.credit fragment] } := by
  rcases lane.with_inbound (.credit fragment) readable limited with next | isOver
  · exact next.of_same ⟨rfl, by simp [dataCost], rfl⟩ (.refl _)
  · have room := lane.window limited
    simp only [dataCost] at isOver
    omega

theorem Lane.data_sent (lane : Lane p q) {cost : Int} (admissible : Admissible cost)
    (unlimited : p.flow.limited = false) :
    Lane p { q with inbound := q.inbound ++ [.data cost] } := by
  obtain ⟨plain, uncounting⟩ := lane.plain unlimited
  have all_plain : ∀ m ∈ q.inbound ++ [.data cost], m.isData = true := by
    intro m member
    rcases List.mem_append.mp member with old | new
    · exact plain m old
    · rw [List.mem_singleton] at new
      exact new ▸ rfl
  constructor
  case readable =>
    intro m member
    rcases List.mem_append.mp member with old | new
    · exact lane.readable m old
    · rw [List.mem_singleton] at new
      exact new ▸ admissible
  case costs => exact lane.costs
  case queued => exact lane.queued
  case plain => exact fun _ => ⟨all_plain, uncounting⟩
  case idle => exact lane.idle
  case started => simp [unlimited]
  case window => simp [unlimited]
  case counted => exact lane.counted
  case conserved => simp [unlimited]

theorem Lane.sends (lane : Lane p q) {cost : Int} (admissible : Admissible cost)
    (allowed : p.flow.allows cost = true) :
    Lane { p with flow := p.flow.spend cost }
      { q with inbound := q.inbound ++ [.data cost] } := by
  by_cases limited : p.flow.limited = true
  · have room : cost ≤ p.flow.window := by simpa [FlowCredit.allows, limited] using allowed
    rcases lane.with_inbound (.data cost) admissible limited with next | isOver
    · have same : SameSender
          { p with flow := { p.flow with window := p.flow.window - dataCost (.data cost) } }
          { p with flow := p.flow.spend cost } := by
        constructor <;> simp [FlowCredit.spend, limited, dataCost]
      exact next.of_same same (.refl _)
    · simp only [dataCost] at isOver
      omega
  · have unlimited : p.flow.limited = false := by simpa using limited
    exact (lane.data_sent admissible unlimited).of_same
      ⟨by simp [FlowCredit.spend, unlimited], by simp [FlowCredit.spend, unlimited], rfl⟩ (.refl _)

theorem Lane.starts (lane : Lane p q) (unlimited : p.flow.limited = false) :
    Lane { p with flow := { p.flow with limited := true, window := flowWindow } }
      { q with inbound := q.inbound ++ [.credit (creditFragment 0)] } := by
  obtain ⟨plain, uncounting⟩ := lane.plain unlimited
  obtain ⟨_, unacked, _, none_back⟩ := lane.idle uncounting
  have read : readCredit (creditFragment 0) = some 0 :=
    readCredit_creditFragment le_rfl (by decide)
  constructor
  case readable =>
    intro m member
    rcases List.mem_append.mp member with old | new
    · exact lane.readable m old
    · rw [List.mem_singleton] at new
      exact new ▸ ⟨0, read, le_rfl⟩
  case costs => exact lane.costs
  case queued => exact lane.queued
  case plain => simp
  case idle => exact lane.idle
  case started => exact fun _ _ => ⟨_, List.mem_append_right _ (List.mem_singleton_self _), rfl⟩
  case window =>
    intro _
    show 0 ≤ flowWindow
    decide
  case counted => exact lane.counted
  case conserved =>
    intro _
    have nothing :
        countedOn { q with inbound := q.inbound ++ [.credit (creditFragment 0)] } = 0 := by
      unfold countedOn
      simp [uncounting, afterStart_append_plain plain, afterStart]
    rw [nothing]
    show flowWindow + 0 + q.flow.unacked + creditOn p.inbound = flowWindow
    omega

/-! ### Arrivals -/

theorem FlowCredit.credited_eq (flow : FlowCredit) (amount : Int) :
    flow.credited amount =
      ({ flow with
          limited := true
          window := (if flow.limited then flow.window else flowWindow) + amount
          counting := true
          uncounted := if flow.counting then flow.uncounted else flow.queued },
        if flow.limited then none else some (creditFragment 0)) := by
  obtain ⟨limited, window, counting⟩ := flow
  cases limited <;> cases counting <;> rfl

theorem Lane.takes_data (lane : Lane p q) {cost : Int} {rest : List Message}
    (arrived : q.inbound = .data cost :: rest) :
    Lane p { flow := (q.flow.received cost).1, queue := q.queue ++ [cost], inbound := rest } := by
  have head : Admissible cost := lane.readable (.data cost) (by simp [arrived])
  have later : ∀ m ∈ rest, m ∈ q.inbound := by
    intro m member
    rw [arrived]
    exact List.mem_cons_of_mem _ member
  have costs : ∀ c ∈ q.queue ++ [cost], Admissible c := by
    intro c member
    rcases List.mem_append.mp member with old | new
    · exact lane.costs c old
    · rw [List.mem_singleton] at new
      exact new ▸ head
  by_cases counts : q.flow.counting = true
  · obtain ⟨low, high, unacked, owed, step⟩ := lane.counted counts
    have limited := lane.limited counts
    constructor
    case readable => exact fun m member => lane.readable m (later m member)
    case costs => exact costs
    case queued => simp [FlowCredit.received, counts, lane.queued]
    case plain => simp [limited]
    case idle => simp [FlowCredit.received, counts]
    case started => simp [FlowCredit.received, counts]
    case window => exact lane.window
    case counted =>
      intro _
      have inside : q.flow.uncounted.toNat ≤ q.queue.length := by omega
      simp only [FlowCredit.received, counts, List.length_append, List.length_singleton,
        List.drop_append_of_le_length inside, List.sum_append, List.sum_singleton,
        Bool.not_true, Bool.false_eq_true, if_false]
      push_cast
      refine ⟨low, ?_, ?_, owed, step⟩ <;> omega
    case conserved =>
      intro _
      have total := lane.conserved limited
      simp only [countedOn, counts, arrived, dataOn_cons, dataCost, if_true] at total
      simp only [countedOn, FlowCredit.received, counts, Bool.not_true, Bool.false_eq_true,
        if_true, if_false]
      omega
  · -- data from before the start is queued and nothing else
    have uncounting : q.flow.counting = false := by simpa using counts
    constructor
    case readable => exact fun m member => lane.readable m (later m member)
    case costs => exact costs
    case queued => simp [FlowCredit.received, uncounting, lane.queued]
    case plain =>
      intro unlimited
      obtain ⟨plain, _⟩ := lane.plain unlimited
      exact ⟨fun m member => plain m (later m member), by
        simp [FlowCredit.received, uncounting]⟩
    case idle => simpa [FlowCredit.received, uncounting] using lane.idle uncounting
    case started =>
      intro limited _
      obtain ⟨m, member, credit⟩ := lane.started limited uncounting
      rw [arrived] at member
      rcases List.mem_cons.mp member with rfl | behind
      · simp [Message.isData] at credit
      · exact ⟨m, behind, credit⟩
    case window => exact lane.window
    case counted => simp [FlowCredit.received, uncounting]
    case conserved =>
      intro limited
      have total := lane.conserved limited
      simpa [countedOn, FlowCredit.received, uncounting, arrived, afterStart] using total

theorem Lane.takes_credit (lane : Lane p q) {fragment : Fragment} {amount : Int}
    {rest : List Message} (arrived : q.inbound = .credit fragment :: rest) :
    Lane p { q with flow := (q.flow.credited amount).1, inbound := rest } := by
  have limited : p.flow.limited = true := by
    by_contra unlimited
    obtain ⟨plain, _⟩ := lane.plain (by simpa using unlimited)
    simpa [Message.isData] using plain (.credit fragment) (by simp [arrived])
  have later : ∀ m ∈ rest, Readable m := by
    intro m member
    apply lane.readable
    rw [arrived]
    exact List.mem_cons_of_mem _ member
  simp only [FlowCredit.credited_eq]
  constructor
  case readable => exact later
  case costs => exact lane.costs
  case queued => exact lane.queued
  case plain => simp [limited]
  case idle => simp
  case started => simp
  case window => exact lane.window
  case counted =>
    intro _
    by_cases counts : q.flow.counting = true
    · simpa [counts] using lane.counted counts
    · -- everything in the queue came before the start
      obtain ⟨_, none_unacked, none_owed, _⟩ := lane.idle (by simpa using counts)
      have size := lane.queued
      simp only [counts, Bool.false_eq_true, if_false, size, none_unacked, none_owed,
        Int.toNat_natCast, List.drop_length, List.sum_nil]
      exact ⟨by omega, le_rfl, rfl, le_rfl, by decide⟩
  case conserved =>
    intro _
    have total := lane.conserved limited
    simp only [countedOn, if_true]
    by_cases counts : q.flow.counting = true
    · simpa [countedOn, counts, arrived, dataCost] using total
    · simpa [countedOn, counts, arrived, afterStart] using total

theorem Lane.gains (lane : Lane p q) {amount : Int} {back : Message} {rest : List Message}
    (limited : p.flow.limited = true) (arrived : p.inbound = back :: rest)
    (amount_eq : creditAmount back = amount) (nonneg : 0 ≤ amount)
    (rest_nonneg : 0 ≤ creditOn rest) :
    Lane { p with flow := { p.flow with window := p.flow.window + amount }, inbound := rest } q := by
  have on_channel : creditOn p.inbound = amount + creditOn rest := by
    rw [arrived, creditOn_cons, amount_eq]
  constructor
  case readable => exact lane.readable
  case costs => exact lane.costs
  case queued => exact lane.queued
  case plain => simp [limited]
  case idle =>
    intro uncounting
    obtain ⟨uncounted, unacked, owed, none_back⟩ := lane.idle uncounting
    refine ⟨uncounted, unacked, owed, ?_⟩
    show creditOn rest = 0
    omega
  case started => exact lane.started
  case window =>
    intro _
    have room := lane.window limited
    show 0 ≤ p.flow.window + amount
    omega
  case counted => exact lane.counted
  case conserved =>
    intro _
    have total := lane.conserved limited
    show p.flow.window + amount + countedOn q + q.flow.unacked + creditOn rest = flowWindow
    omega

/-! ### Consumption -/

theorem Lane.consumed_cases (lane : Lane p q) (cost : Int) :
    (q.flow.counting = true ∧ 0 < q.flow.uncounted ∧ q.flow.consumed cost =
      ({ q.flow with queued := q.flow.queued - 1, uncounted := q.flow.uncounted - 1 }, none)) ∨
    (q.flow.counting = false ∧
      q.flow.consumed cost = ({ q.flow with queued := q.flow.queued - 1 }, none)) ∨
    (q.flow.counting = true ∧ q.flow.uncounted = 0 ∧ q.flow.owed + cost < creditStep ∧
      q.flow.consumed cost =
        ({ q.flow with queued := q.flow.queued - 1, owed := q.flow.owed + cost }, none)) ∨
    (q.flow.counting = true ∧ q.flow.uncounted = 0 ∧ ¬q.flow.owed + cost < creditStep ∧
      q.flow.consumed cost =
        ({ q.flow with
            queued := q.flow.queued - 1
            unacked := q.flow.unacked - (q.flow.owed + cost)
            owed := 0 },
          some (creditFragment (q.flow.owed + cost)))) := by
  by_cases counts : q.flow.counting = true
  · obtain ⟨low, _⟩ := lane.counted counts
    by_cases before : 0 < q.flow.uncounted
    · exact .inl ⟨counts, before, by simp [FlowCredit.consumed, before]⟩
    · have zero : q.flow.uncounted = 0 := by omega
      by_cases little : q.flow.owed + cost < creditStep
      · exact .inr (.inr (.inl ⟨counts, zero, little, by
          simp [FlowCredit.consumed, counts, zero, little]⟩))
      · exact .inr (.inr (.inr ⟨counts, zero, little, by
          simp [FlowCredit.consumed, counts, zero, little]⟩))
  · have uncounting : q.flow.counting = false := by simpa using counts
    obtain ⟨zero, _⟩ := lane.idle uncounting
    exact .inr (.inl ⟨uncounting, by simp [FlowCredit.consumed, uncounting, zero]⟩)

theorem Lane.owed_le (lane : Lane p q) {cost : Int} {rest : List Int}
    (next : q.queue = cost :: rest) (counts : q.flow.counting = true)
    (zero : q.flow.uncounted = 0) (back : 0 ≤ creditOn p.inbound) :
    q.flow.owed + cost ≤ flowWindow := by
  obtain ⟨_, _, unacked, owed, _⟩ := lane.counted counts
  have limited := lane.limited counts
  have total := lane.conserved limited
  have room := lane.window limited
  have flying := lane.countedOn_nonneg
  have queue : 0 ≤ rest.sum := by
    apply List.sum_nonneg
    intro c member
    obtain ⟨low, _⟩ := lane.costs c (by rw [next]; exact List.mem_cons_of_mem _ member)
    omega
  simp only [zero, next, Int.toNat_zero, List.drop_zero, List.sum_cons] at unacked
  omega

theorem Lane.reply_readable (lane : Lane p q) {cost : Int} {rest : List Int} {fragment : Fragment}
    (next : q.queue = cost :: rest) (back : 0 ≤ creditOn p.inbound)
    (reply : (q.flow.consumed cost).2 = some fragment) :
    q.flow.counting = true ∧ Readable (.credit fragment) := by
  rcases lane.consumed_cases cost with ⟨_, _, eq⟩ | ⟨_, eq⟩ | ⟨_, _, _, eq⟩ | ⟨counts, zero, _, eq⟩
  · simp [eq] at reply
  · simp [eq] at reply
  · simp [eq] at reply
  · have le := lane.owed_le next counts zero back
    obtain ⟨_, _, _, owed, _⟩ := lane.counted counts
    obtain ⟨low, _⟩ := lane.costs cost (by simp [next])
    simp only [eq, Option.some.injEq] at reply
    subst reply
    exact ⟨counts, _, readCredit_creditFragment (by omega) le, by omega⟩

theorem Lane.consumes (lane : Lane p q) {cost : Int} {rest : List Int}
    (next : q.queue = cost :: rest) (back : 0 ≤ creditOn p.inbound) :
    Lane (p.deliverTo (q.flow.consumed cost).2)
      { q with flow := (q.flow.consumed cost).1, queue := rest } := by
  have costs : ∀ c ∈ rest, Admissible c := by
    intro c member
    apply lane.costs
    rw [next]
    exact List.mem_cons_of_mem _ member
  have size : q.flow.queued - 1 = rest.length := by
    rw [lane.queued, next, List.length_cons]
    push_cast
    omega
  rcases lane.consumed_cases cost with
    ⟨counts, before, eq⟩ | ⟨uncounting, eq⟩ | ⟨counts, zero, little, eq⟩ | ⟨counts, zero, much, eq⟩
  · obtain ⟨low, high, unacked, owed, step⟩ := lane.counted counts
    have limited := lane.limited counts
    obtain ⟨n, uncounted⟩ : ∃ n : Nat, q.flow.uncounted = n + 1 :=
      ⟨(q.flow.uncounted - 1).toNat, by omega⟩
    have dropped : q.queue.drop q.flow.uncounted.toNat = rest.drop n := by
      rw [next, uncounted]
      rfl
    rw [eq]
    constructor
    case readable => exact lane.readable
    case costs => exact costs
    case queued => exact size
    case plain => simp [Peer.deliverTo, limited]
    case idle => simp [counts]
    case started => simp [counts]
    case window => exact lane.window
    case counted =>
      intro _
      rw [next, List.length_cons] at high
      push_cast at high
      rw [dropped] at unacked
      simp only [uncounted, add_sub_cancel_right, Int.toNat_natCast]
      exact ⟨by omega, by omega, unacked, owed, step⟩
    case conserved => simpa [Peer.deliverTo, countedOn] using lane.conserved
  · rw [eq]
    constructor
    case readable => exact lane.readable
    case costs => exact costs
    case queued => exact size
    case plain => exact lane.plain
    case idle => simpa [Peer.deliverTo] using lane.idle
    case started => exact lane.started
    case window => exact lane.window
    case counted => simp [uncounting]
    case conserved => simpa [Peer.deliverTo, countedOn] using lane.conserved
  · obtain ⟨_, _, unacked, owed, _⟩ := lane.counted counts
    have limited := lane.limited counts
    obtain ⟨low, _⟩ := lane.costs cost (by simp [next])
    rw [eq]
    constructor
    case readable => exact lane.readable
    case costs => exact costs
    case queued => exact size
    case plain => simp [Peer.deliverTo, limited]
    case idle => simp [counts]
    case started => simp [counts]
    case window => exact lane.window
    case counted =>
      intro _
      simp only [zero, next, Int.toNat_zero, List.drop_zero, List.sum_cons] at unacked
      simp only [zero, Int.toNat_zero, List.drop_zero]
      exact ⟨le_rfl, by omega, by omega, by omega, little⟩
    case conserved => simpa [Peer.deliverTo, countedOn] using lane.conserved
  · -- a quarter window is owed: it leaves the reader as credit
    obtain ⟨_, _, unacked, owed, _⟩ := lane.counted counts
    have limited := lane.limited counts
    obtain ⟨low, _⟩ := lane.costs cost (by simp [next])
    have le := lane.owed_le next counts zero back
    have read := readCredit_creditFragment (by omega) le
    rw [eq]
    constructor
    case readable => exact lane.readable
    case costs => exact costs
    case queued => exact size
    case plain => simp [Peer.deliverTo, limited]
    case idle => simp [counts]
    case started => simp [counts]
    case window => exact lane.window
    case counted =>
      intro _
      simp only [zero, next, Int.toNat_zero, List.drop_zero, List.sum_cons] at unacked
      simp only [zero, Int.toNat_zero, List.drop_zero]
      exact ⟨le_rfl, by omega, by omega, le_rfl, by decide⟩
    case conserved =>
      intro _
      have total := lane.conserved limited
      simp only [Peer.deliverTo, Option.map_some, Option.toList_some, creditOn_append,
        creditOn_cons, creditOn_nil, creditAmount, read, Option.getD_some]
      simp only [countedOn] at total ⊢
      omega

end

/-! ### Both directions -/

/-- The invariant of the connection. A side that counts its peer's data has limited its own. -/
structure Linked (p q : Peer) : Prop where
  out : Lane p q
  back : Lane q p
  near : p.flow.counting = true → p.flow.limited = true
  far : q.flow.counting = true → q.flow.limited = true

theorem Linked.symm {p q : Peer} (linked : Linked p q) : Linked q p :=
  ⟨linked.back, linked.out, linked.far, linked.near⟩

section

variable {p q : Peer}

theorem Linked.sends (linked : Linked p q) {cost : Int} (admissible : Admissible cost)
    (allowed : p.flow.allows cost = true) :
    Linked { p with flow := p.flow.spend cost }
      { q with inbound := q.inbound ++ [.data cost] } := by
  have kept : p.flow.spend cost =
      { p.flow with window := (p.flow.spend cost).window } := by
    unfold FlowCredit.spend
    split <;> rfl
  constructor
  case out => exact linked.out.sends admissible allowed
  case back =>
    apply linked.back.of_same
    · exact ⟨rfl, rfl, by simp [creditAmount]⟩
    · rw [kept]
      exact ⟨rfl, rfl, rfl, rfl, rfl, rfl, rfl⟩
  case near =>
    rw [kept]
    exact linked.near
  case far => exact linked.far

theorem creditAmount_start : creditAmount (.credit (creditFragment 0)) = 0 := by decide

theorem Linked.starts (linked : Linked p q) :
    Linked { p with flow := p.flow.start.1 } (q.deliverTo p.flow.start.2) := by
  by_cases limited : p.flow.limited = true
  · simpa [FlowCredit.start, limited, Peer.deliverTo] using linked
  · have unlimited : p.flow.limited = false := by simpa using limited
    simp only [FlowCredit.start, unlimited, Peer.deliverTo, Bool.false_eq_true, if_false,
      Option.map_some, Option.toList_some]
    constructor
    case out => exact linked.out.starts unlimited
    case back =>
      apply linked.back.of_same
      · exact ⟨rfl, rfl, by simp [creditAmount_start]⟩
      · exact ⟨rfl, rfl, rfl, rfl, rfl, rfl, rfl⟩
    case near => exact fun _ => rfl
    case far => exact linked.far

theorem Linked.takes_data (linked : Linked p q) {cost : Int} {rest : List Message}
    (arrived : p.inbound = .data cost :: rest) :
    Linked { flow := (p.flow.received cost).1, queue := p.queue ++ [cost], inbound := rest } q := by
  have kept : (p.flow.received cost).1.limited = p.flow.limited ∧
      (p.flow.received cost).1.window = p.flow.window ∧
      (p.flow.received cost).1.counting = p.flow.counting := by
    simp only [FlowCredit.received]
    split <;> exact ⟨rfl, rfl, rfl⟩
  obtain ⟨limited, window, counting⟩ := kept
  constructor
  case out =>
    apply linked.out.of_same
    · exact ⟨limited, window, by simp [arrived, creditAmount]⟩
    · exact .refl q
  case back => exact linked.back.takes_data arrived
  case near =>
    rw [limited, counting]
    exact linked.near
  case far => exact linked.far

theorem Linked.takes_credit (linked : Linked p q) {fragment : Fragment} {amount : Int}
    {rest : List Message} (arrived : p.inbound = .credit fragment :: rest)
    (read : readCredit fragment = some amount) :
    Linked { p with flow := (p.flow.credited amount).1, inbound := rest }
      (q.deliverTo (p.flow.credited amount).2) := by
  have readable := linked.back.readable
  rw [arrived] at readable
  have nonneg : 0 ≤ amount := by
    obtain ⟨sent, read', nonneg⟩ := readable (.credit fragment) (by simp)
    rw [read] at read'
    exact Option.some.inj read' ▸ nonneg
  have rest_nonneg : 0 ≤ creditOn rest :=
    creditOn_nonneg fun m member => readable m (List.mem_cons_of_mem _ member)
  have amount_eq : creditAmount (.credit fragment) = amount := by simp [creditAmount, read]
  have counted : Lane q { p with flow := (p.flow.credited amount).1, inbound := rest } :=
    linked.back.takes_credit arrived
  constructor
  case out =>
    by_cases limited : p.flow.limited = true
    · have gained := linked.out.gains limited arrived amount_eq nonneg rest_nonneg
      apply gained.of_same
      · exact ⟨by simp [FlowCredit.credited_eq, limited],
          by simp [FlowCredit.credited_eq, limited], rfl⟩
      · simpa [FlowCredit.credited_eq, limited, Peer.deliverTo] using SameReader.refl q
    · -- the peer began first: it has nothing to credit yet, and this side answers
      have unlimited : p.flow.limited = false := by simpa using limited
      obtain ⟨_, uncounting⟩ := linked.out.plain unlimited
      obtain ⟨_, _, _, none_back⟩ := linked.out.idle uncounting
      rw [arrived, creditOn_cons, amount_eq] at none_back
      have popped : Lane { p with inbound := rest } q := by
        apply linked.out.of_same
        · refine ⟨rfl, rfl, ?_⟩
          rw [arrived, creditOn_cons, amount_eq]
          show creditOn rest = amount + creditOn rest
          omega
        · exact .refl q
      have begun := popped.starts unlimited
      have zero : amount = 0 := by omega
      apply begun.of_same
      · exact ⟨by simp [FlowCredit.credited_eq],
          by simp [FlowCredit.credited_eq, unlimited, zero], rfl⟩
      · simpa [FlowCredit.credited_eq, unlimited, Peer.deliverTo] using
          SameReader.refl { q with inbound := q.inbound ++ [.credit (creditFragment 0)] }
  case back =>
    apply counted.of_same
    · refine ⟨rfl, rfl, ?_⟩
      by_cases limited : p.flow.limited = true
      · simp [FlowCredit.credited_eq, limited, Peer.deliverTo]
      · simp [FlowCredit.credited_eq, limited, Peer.deliverTo, creditAmount_start]
    · exact .refl _
  case near =>
    intro _
    simp [FlowCredit.credited_eq]
  case far => exact linked.far

theorem Linked.consumes (linked : Linked p q) {cost : Int} {rest : List Int}
    (next : p.queue = cost :: rest) :
    Linked { p with flow := (p.flow.consumed cost).1, queue := rest }
      (q.deliverTo (p.flow.consumed cost).2) := by
  have nonneg : 0 ≤ creditOn q.inbound := creditOn_nonneg linked.out.readable
  have kept : (p.flow.consumed cost).1.limited = p.flow.limited ∧
      (p.flow.consumed cost).1.window = p.flow.window ∧
      (p.flow.consumed cost).1.counting = p.flow.counting := by
    rcases linked.back.consumed_cases cost with
      ⟨_, _, eq⟩ | ⟨_, eq⟩ | ⟨_, _, _, eq⟩ | ⟨_, _, _, eq⟩ <;> rw [eq] <;> exact ⟨rfl, rfl, rfl⟩
  obtain ⟨limited, window, counting⟩ := kept
  constructor
  case out =>
    have same : SameSender p { p with flow := (p.flow.consumed cost).1, queue := rest } :=
      ⟨limited, window, rfl⟩
    cases reply : (p.flow.consumed cost).2 with
    | none => simpa [Peer.deliverTo] using linked.out.of_same same (.refl q)
    | some fragment =>
      obtain ⟨counts, readable⟩ := linked.back.reply_readable next nonneg reply
      exact (linked.out.credit_sent readable (linked.near counts)).of_same same (.refl _)
  case back => exact linked.back.consumes next nonneg
  case near =>
    rw [limited, counting]
    exact linked.near
  case far => exact linked.far

end

theorem Linked.step {p q p' q' : Peer} (linked : Linked p q) (step : Acts p q p' q') :
    Linked p' q' := by
  cases step with
  | send cost admissible allowed => exact linked.sends admissible allowed
  | start => exact linked.starts
  | receiveData cost rest arrived => exact linked.takes_data arrived
  | receiveCredit fragment amount rest arrived read => exact linked.takes_credit arrived read
  | consume cost rest next => exact linked.consumes next

theorem linked_of_joined {p q : Peer} (joined : Joined p q) : Linked p q := by
  induction joined with
  | opened =>
    have reset : ({} : FlowCredit).counting = true → ({} : FlowCredit).limited = true := by decide
    exact ⟨lane_opened, lane_opened, reset, reset⟩
  | left _ step ih => exact ih.step step
  | right _ step ih => exact (ih.symm.step step).symm

/-! ### Safety and progress -/

section

variable {p q : Peer}

theorem Lane.received_within (lane : Lane p q) {cost : Int} {rest : List Message}
    (arrived : q.inbound = .data cost :: rest) (back : 0 ≤ creditOn p.inbound) :
    (q.flow.received cost).2 = true := by
  by_cases counts : q.flow.counting = true
  · have limited := lane.limited counts
    have total := lane.conserved limited
    have room := lane.window limited
    have flying : 0 ≤ dataOn rest := by
      apply dataOn_nonneg
      intro m member
      apply lane.readable
      rw [arrived]
      exact List.mem_cons_of_mem _ member
    simp only [countedOn, counts, arrived, dataOn_cons, dataCost, if_true] at total
    have fits : q.flow.unacked + cost ≤ flowWindow := by omega
    simp [FlowCredit.received, counts, fits]
  · simp [FlowCredit.received, counts]

theorem Lane.allows_at_rest (lane : Lane p q) (none_in : q.inbound = [])
    (none_back : p.inbound = []) (drained : q.queue = []) {cost : Int}
    (admissible : Admissible cost) : p.flow.allows cost = true := by
  by_cases limited : p.flow.limited = true
  · have total := lane.conserved limited
    have counts : q.flow.counting = true := by
      by_contra uncounting
      obtain ⟨m, member, _⟩ := lane.started limited (by simpa using uncounting)
      simp [none_in] at member
    obtain ⟨_, _, unacked, _, step⟩ := lane.counted counts
    simp only [drained, List.drop_nil, List.sum_nil] at unacked
    simp only [countedOn, counts, none_in, none_back, if_true, dataOn_nil, creditOn_nil] at total
    have window : flowWindow = 1048576 := rfl
    have quarter : creditStep = 262144 := rfl
    obtain ⟨_, high⟩ := admissible
    have room : cost ≤ p.flow.window := by omega
    simp [FlowCredit.allows, room]
  · simp [FlowCredit.allows, limited]

end

/-- What one end may rely on, whatever both have done so far. -/
structure FlowSafe (p q : Peer) : Prop where
  /-- The next data fragment for `q` is within the window it gave. -/
  accepts : ∀ cost rest, q.inbound = .data cost :: rest → (q.flow.received cost).2 = true
  window : p.flow.limited = true → 0 ≤ p.flow.window
  /-- Once the start is delivered, the window is accounted for. -/
  conserved : q.flow.counting = true →
    p.flow.window + dataOn q.inbound + q.flow.unacked + creditOn p.inbound = flowWindow
  /-- Every credit in flight is one that `readCredit` accepts. -/
  reads : ∀ fragment, .credit fragment ∈ q.inbound → ∃ amount, readCredit fragment = some amount
  /-- With nothing in flight or queued, every fragment may be sent. -/
  flows : p.inbound = [] → q.inbound = [] → p.queue = [] → q.queue = [] →
    ∀ cost, Admissible cost → p.flow.allows cost = true

theorem Linked.safe {p q : Peer} (linked : Linked p q) : FlowSafe p q := by
  have back : 0 ≤ creditOn p.inbound := creditOn_nonneg linked.back.readable
  constructor
  case accepts => exact fun cost rest arrived => linked.out.received_within arrived back
  case window => exact linked.out.window
  case conserved =>
    intro counts
    have total := linked.out.conserved (linked.out.limited counts)
    simpa only [countedOn, counts, if_true] using total
  case reads =>
    intro fragment member
    obtain ⟨amount, read, _⟩ := linked.out.readable _ member
    exact ⟨amount, read⟩
  case flows =>
    intro none_back none_in _ drained cost admissible
    exact linked.out.allows_at_rest none_in none_back drained admissible

/-- Flow control is safe and does not stall, for any interleaving of both sides. -/
theorem flow_of_joined {p q : Peer} (joined : Joined p q) : FlowSafe p q ∧ FlowSafe q p :=
  ⟨(linked_of_joined joined).safe, (linked_of_joined joined).symm.safe⟩

theorem joined_sample :
    Joined
      { flow := { limited := true, window := 983040 }
        inbound := [.credit (creditFragment 0)] }
      { flow := { limited := true, window := flowWindow, queued := 1 }
        queue := [4096]
        inbound := [.credit (creditFragment 0), .data 65536] } := by
  have sent := Joined.left .opened (.send {} {} 4096 (by decide) (by decide))
  have begun := Joined.left sent (.start _ _)
  have answered := Joined.right begun (.start _ _)
  have arrived := Joined.right answered (.receiveData _ _ 4096 _ rfl)
  have more := Joined.left arrived (.send _ _ 65536 (by decide) (by decide))
  exact more

theorem flow_of_joined_sample :
    FlowSafe
      { flow := { limited := true, window := 983040 }
        inbound := [.credit (creditFragment 0)] }
      { flow := { limited := true, window := flowWindow, queued := 1 }
        queue := [4096]
        inbound := [.credit (creditFragment 0), .data 65536] } :=
  (flow_of_joined joined_sample).1

end Ace
