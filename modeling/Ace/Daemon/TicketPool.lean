import Ace.Core.ExpiryMap
import Mathlib.Algebra.Order.Field.Rat

/-!
# Login tickets

`apps/daemon/src/ticket-pool.ts`. A ticket lives for a minute and is used once. A device may have so
many pending, and may be issued so many in a minute, which is counted in a window that opens with
the first of them. Times are milliseconds.
-/

namespace Ace

open Script

/-- The server accepts only positive whole numbers here. -/
structure TicketLimits where
  global : Nat
  perDevice : Nat
  perMinute : Nat

def defaultTicketLimits : TicketLimits where
  global := 10000
  perDevice := 32
  perMinute := 120

namespace TicketPool

structure Ticket where
  deviceId : String
  generation : String
  expiresAt : ℚ
  deriving DecidableEq

structure Rate where
  count : Nat
  resetsAt : ℚ

/-- What `issue` gives. -/
inductive Issued where
  | ticket (expiresAt : ℚ)
  | refused (error : String)
  deriving DecidableEq

/-- What `consume` gives for a ticket. -/
structure Holder where
  deviceId : String
  generation : String
  deriving DecidableEq

end TicketPool

open TicketPool

/-- Pure allocation policy. Its owner supplies time, identity and hashed ticket keys. -/
structure TicketPool where
  tickets : ExpiryMap Ticket ℚ := {}
  /-- the keys of every device, in sets -/
  owned : Registry (List String) := .empty
  rates : ExpiryMap Rate ℚ := {}
  limits : TicketLimits

namespace TicketPool

/-- `disown`, on the index. -/
def disown (owned : Registry (List String)) (deviceId key : String) : Registry (List String) :=
  match owned.get? deviceId with
  | none => owned
  | some keys =>
    -- the set is changed in place, and given up once it is empty
    let keys := removeFrom keys key
    if keys.length = 0 then owned.delete deviceId else owned.set deviceId keys

/-- Both generators run until they are done, for which one more pull than there are entries is
enough. -/
def evict (pool : TicketPool) (now : ℚ) : Except String TicketPool := do
  let (expired, tickets) ← pool.tickets.expire now (pool.tickets.size + 1)
  let owned := expired.foldl (fun owned e => disown owned e.value.deviceId e.key) pool.owned
  let (_, rates) ← pool.rates.expire now (pool.rates.size + 1)
  return { pool with tickets, owned, rates }

def issue (pool : TicketPool) (key deviceId generation : String) (now : ℚ) :
    Except String (Issued × TicketPool) := do
  let pool ← pool.evict now
  if pool.limits.global ≤ pool.tickets.size then
    return (.refused "Too many pending tickets", pool)
  if pool.limits.perDevice ≤ ((pool.owned.get? deviceId).getD []).length then
    return (.refused "Device ticket quota exceeded", pool)
  let known ← pool.rates.get deviceId
  let rate := known.getD { count := 0, resetsAt := now + 60000 }
  if pool.limits.perMinute ≤ rate.count ∨ known.isNone ∧ pool.limits.global ≤ pool.rates.size then
    return (.refused "Device ticket rate limit exceeded", pool)
  let rate := { rate with count := rate.count + 1 }
  let rates ← pool.rates.set deviceId rate rate.resetsAt
  let expiresAt := now + 60000
  let tickets ← pool.tickets.set key { deviceId, generation, expiresAt } expiresAt
  let keys := (pool.owned.get? deviceId).getD []
  let owned := pool.owned.set deviceId (addTo keys key)
  return (.ticket expiresAt, { pool with tickets, owned, rates })

/-- The device a ticket was issued to, and the credential generation that asked for it. -/
def consume (pool : TicketPool) (key : String) (now : ℚ) :
    Except String (Option Holder × TicketPool) := do
  let pool ← pool.evict now
  let (entry, tickets) ← pool.tickets.delete key
  match entry with
  | none => return (none, { pool with tickets })
  | some entry =>
    let owned := disown pool.owned entry.deviceId key
    return (some { deviceId := entry.deviceId, generation := entry.generation },
      { pool with tickets, owned })

/-- Deletes the tickets of these keys. -/
def deleteAll (tickets : ExpiryMap Ticket ℚ) : List String → Except String (ExpiryMap Ticket ℚ)
  | [] => return tickets
  | key :: keys => do
    let (_, tickets) ← tickets.delete key
    deleteAll tickets keys

def revoke (pool : TicketPool) (deviceId : String) : Except String TicketPool := do
  let tickets ← deleteAll pool.tickets ((pool.owned.get? deviceId).getD [])
  let owned := pool.owned.delete deviceId
  let (_, rates) ← pool.rates.delete deviceId
  return { pool with tickets, owned, rates }

/-! ### Runs -/

inductive Call where
  | issue (key deviceId generation : String) (now : ℚ)
  | consume (key : String) (now : ℚ)
  | revoke (deviceId : String)
  deriving DecidableEq

inductive Answer where
  | issued (answer : Issued)
  | consumed (holder : Option Holder)
  | revoked
  deriving DecidableEq

def step (pool : TicketPool) : Call → Except String (Answer × TicketPool)
  | .issue key deviceId generation now => do
    let (answer, pool) ← pool.issue key deviceId generation now
    return (.issued answer, pool)
  | .consume key now => do
    let (holder, pool) ← pool.consume key now
    return (.consumed holder, pool)
  | .revoke deviceId => do
    let pool ← pool.revoke deviceId
    return (.revoked, pool)

def run (pool : TicketPool) : List Call → Except String (List Answer × TicketPool)
  | [] => return ([], pool)
  | call :: calls => do
    let (answer, pool) ← pool.step call
    let (answers, pool) ← pool.run calls
    return (answer :: answers, pool)

end TicketPool

end Ace
