import Ace.Script.Registry
import Mathlib.Algebra.Order.Field.Rat
import Mathlib.Data.Rat.Floor

/-!
# Budgets of peers

What the relay admits from one address: so many connections at a time, and messages from a bucket
of tokens that fills with time. Addresses without a connection stay known for a while, the one that
has been idle longest first to go. A key stands for the addresses that share a budget, and times are
milliseconds.
-/

namespace Ace.Relay

open Script

/-- What the budgets read of the limits, which are all positive. -/
structure Limits where
  maxConnectionsPerIp : Nat := 256
  messagesPerSecond : Nat := 1000
  messageBurst : Nat := 2000
  maxIpEntries : Nat := 4096
  connections_pos : 0 < maxConnectionsPerIp := by decide
  rate_pos : 0 < messagesPerSecond := by decide
  burst_pos : 0 < messageBurst := by decide
  entries_pos : 0 < maxIpEntries := by decide

namespace IpBudget

structure Entry where
  connections : Nat
  tokens : ℚ
  updated : ℚ
  seen : ℚ
  deriving DecidableEq

/-- The entries, and the keys of those without a connection, the longest idle first. -/
structure Budget where
  entries : Registry Entry := .empty
  idle : List String := []

/-- Makes room for a new entry, if one is needed: `none` when nothing is idle. -/
def makeRoom (limits : Limits) (b : Budget) : Option Budget :=
  if limits.maxIpEntries ≤ b.entries.size then
    match b.idle with
    | [] => none
    | oldest :: _ => some { entries := b.entries.delete oldest, idle := removeFrom b.idle oldest }
  else some b

/-- One more connection for a key whose entry is given. -/
def admitPeer (limits : Limits) (b : Budget) (key : String) (entry : Entry) (now : ℚ) : Bool × Budget :=
  if limits.maxConnectionsPerIp ≤ entry.connections then (false, b)
  else
    (true,
      { entries := b.entries.set key { entry with connections := entry.connections + 1, seen := now }
        idle := removeFrom b.idle key })

def acquire (limits : Limits) (b : Budget) (key : String) (now : ℚ) : Bool × Budget :=
  match b.entries.get? key with
  | some entry => admitPeer limits b key entry now
  | none =>
    match makeRoom limits b with
    | none => (false, b)
    | some b =>
      let entry := { connections := 0, tokens := limits.messageBurst, updated := now, seen := now }
      admitPeer limits { b with entries := b.entries.set key entry } key entry now

/-- The key becomes the one that is idle most recently. -/
def idleNow (idle : List String) (key : String) : List String := removeFrom idle key ++ [key]

def release (b : Budget) (key : String) (now : ℚ) : Budget :=
  match b.entries.get? key with
  | none => b
  | some e =>
    let connections := e.connections - 1
    if connections = 0 then
      { entries := b.entries.set key { e with connections, seen := now }, idle := idleNow b.idle key }
    else { b with entries := b.entries.set key { e with connections } }

def refill (limits : Limits) (e : Entry) (now : ℚ) : ℚ :=
  min limits.messageBurst (e.tokens + max 0 (now - e.updated) * limits.messagesPerSecond / 1000)

/-- Zero after consuming a token, otherwise the delay until one is available; `none` throws. -/
def take (limits : Limits) (b : Budget) (key : String) (now : ℚ) : Option (ℤ × Budget) :=
  match b.entries.get? key with
  | none => none
  | some e =>
    let tokens := refill limits e now
    let idle := if e.connections = 0 then idleNow b.idle key else b.idle
    if tokens < 1 then
      some (⌈(1 - tokens) * 1000 / limits.messagesPerSecond⌉,
        { entries := b.entries.set key { e with tokens, updated := now }, idle })
    else
      some (0, { entries := b.entries.set key { e with tokens := tokens - 1, updated := now }, idle })

/-- The idle keys, from the longest idle on, until one has been seen lately. -/
def sweepFrom (b : Budget) (now : ℚ) : List String → Budget
  | [] => b
  | key :: keys =>
    match b.entries.get? key with
    | none => b
    | some e =>
      if now - e.seen ≤ 60000 then b
      else
        sweepFrom { entries := b.entries.delete key, idle := removeFrom b.idle key } now keys

def sweep (b : Budget) (now : ℚ) : Budget := sweepFrom b now b.idle

/-! ### Runs -/

inductive Call where
  | acquire (key : String)
  | release (key : String)
  | take (key : String)
  | sweep
  deriving DecidableEq

inductive Answer where
  | admitted (granted : Bool)
  | done
  | delay (milliseconds : ℤ)
  deriving DecidableEq

def step (limits : Limits) (b : Budget) (call : Call) (now : ℚ) : Option (Answer × Budget) :=
  match call with
  | .acquire key =>
    let (granted, b) := acquire limits b key now
    some (.admitted granted, b)
  | .release key => some (.done, release b key now)
  | .take key => (take limits b key now).map fun (milliseconds, b) => (.delay milliseconds, b)
  | .sweep => some (.done, sweep b now)

def connections (b : Budget) (key : String) : Nat :=
  match b.entries.get? key with
  | some e => e.connections
  | none => 0

/-- Only a key that holds a connection takes and releases. -/
def Allowed (b : Budget) : Call → Prop
  | .release key | .take key => 0 < connections b key
  | _ => True

structure Event where
  call : Call
  now : ℚ
  answer : Answer

inductive Runs (limits : Limits) : Budget → List Event → Budget → Prop
  | done (b : Budget) : Runs limits b [] b
  | step {b b' b'' : Budget} {event : Event} {events : List Event}
      (allowed : Allowed b event.call)
      (steps : step limits b event.call event.now = some (event.answer, b'))
      (later : Runs limits b' events b'') : Runs limits b (event :: events) b''

def Ordered (events : List Event) : Prop := (events.map Event.now).Pairwise (· ≤ ·)

end IpBudget

end Ace.Relay
