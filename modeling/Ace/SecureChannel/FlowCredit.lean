import Mathlib.Data.Int.Notation
import Mathlib.Algebra.BigOperators.Group.List.Basic
import Mathlib.Tactic.Linarith

/-!
# Credit-based flow control

Each end of a relayed stream sends at most `flowWindow` cost units that its peer has not yet
consumed. A credit is one fragment, the flag and a four-byte big-endian count. A side's first
credit also says that its data from there on is counted. Counters are script numbers, here
exact integers.
-/

namespace Ace

def creditFlag : Nat := 7

/-- Unconsumed cost units a side may have in flight towards its peer. -/
def flowWindow : Int := 1024 * 1024

def minCost : Int := 4096

/-- Credit is returned once a quarter window is consumed. -/
def creditStep : Int := flowWindow / 4

def fragmentCost (plainLength : Int) : Int := max plainLength minCost

/-- Bytes of a fragment. -/
abbrev Fragment := List Nat

/-- `setUint32` takes the count modulo 2^32. -/
def creditFragment (amount : Int) : Fragment :=
  let count := (amount % 2 ^ 32).toNat
  [creditFlag, count / 2 ^ 24 % 256, count / 2 ^ 16 % 256, count / 2 ^ 8 % 256, count % 256]

/-- The amount a credit fragment returns; a malformed one throws. -/
def readCredit (plain : Fragment) : Option Int :=
  match plain with
  | [flag, a, b, c, d] =>
    let amount : Int := a * 2 ^ 24 + b * 2 ^ 16 + c * 2 ^ 8 + d
    if flag ≠ creditFlag ∨ flowWindow < amount then none else some amount
  | _ => none

structure FlowCredit where
  limited : Bool := false
  window : Int := 0
  counting : Bool := false
  /-- Data fragments queued for the reader, and how many of those predate the peer's start. -/
  queued : Int := 0
  uncounted : Int := 0
  /-- Counted cost received and not yet credited back (queued, or consumed and owed). -/
  unacked : Int := 0
  owed : Int := 0
  deriving DecidableEq, Repr

namespace FlowCredit

/-- Limit this side's sends from now on. The start fragment to send, the first time only. -/
def start (flow : FlowCredit) : FlowCredit × Option Fragment :=
  if flow.limited then (flow, none)
  else ({ flow with limited := true, window := flowWindow }, some (creditFragment 0))

/-- The peer returned `amount`. Its first credit starts counting what follows and turns this
side's limit on too. -/
def credited (flow : FlowCredit) (amount : Int) : FlowCredit × Option Fragment :=
  let flow := if flow.counting then flow
    else { flow with counting := true, uncounted := flow.queued }
  let (flow, reply) := flow.start
  ({ flow with window := flow.window + amount }, reply)

/-- Whether a fragment of `cost` may be written now. -/
def allows (flow : FlowCredit) (cost : Int) : Bool := !flow.limited || decide (cost ≤ flow.window)

def spend (flow : FlowCredit) (cost : Int) : FlowCredit :=
  if flow.limited then { flow with window := flow.window - cost } else flow

/-- A data fragment arrived. False when the peer overran the window it was given. -/
def received (flow : FlowCredit) (cost : Int) : FlowCredit × Bool :=
  let flow := { flow with queued := flow.queued + 1 }
  if !flow.counting then (flow, true)
  else
    let flow := { flow with unacked := flow.unacked + cost }
    (flow, decide (flow.unacked ≤ flowWindow))

/-- The reader took a data fragment. A credit fragment to send, once enough is owed. -/
def consumed (flow : FlowCredit) (cost : Int) : FlowCredit × Option Fragment :=
  let flow := { flow with queued := flow.queued - 1 }
  if 0 < flow.uncounted then ({ flow with uncounted := flow.uncounted - 1 }, none)
  else if !flow.counting then (flow, none)
  else
    let flow := { flow with owed := flow.owed + cost }
    if flow.owed < creditStep then (flow, none)
    else ({ flow with unacked := flow.unacked - flow.owed, owed := 0 },
      some (creditFragment flow.owed))

end FlowCredit

end Ace
