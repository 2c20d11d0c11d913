import Ace.Script.Registry

/-!
# Routes of the relay

`apps/relay/src/routes.ts`. The relay knows which control socket stands for a host id, offers that
socket a ticket for each client that asks for the host, and pairs the client with the socket that
joins with the ticket. `RelayRoutes` has no sockets, randomness or timers: ids and times are
arguments, and what is to be done is returned as a list of actions.
-/

namespace Ace.Relay

open Script

inductive RouteAction where
  | close (socket : String) (code : Nat) (reason : String)
  | registered (socket hostId : String)
  | offer (socket ticket : String)
  | pair (client host : String)
  deriving Repr, DecidableEq

structure Pending where
  client : String
  owner : String
  expires : Int
  deriving Repr, DecidableEq

/-- A client that waits, as it was recorded outside the routes. -/
structure PendingTicket extends Pending where
  ticket : String
  deriving Repr, DecidableEq

structure HostRecord where
  socket : String
  hostId : String
  deriving Repr, DecidableEq

inductive RouteError where
  /-- `HostId.parse` -/
  | invalidHostId
  /-- `Ticket.parse` -/
  | invalidTicket
  /-- `Routes already in use` -/
  | alreadyInUse
  /-- `Ticket collision` -/
  | ticketCollision
  deriving Repr, DecidableEq

/-- `/^[A-Z2-7]{52}$/` -/
def isHostId (id : String) : Bool :=
  id.length == 52 && id.toList.all fun c => ('A' ≤ c && c ≤ 'Z') || ('2' ≤ c && c ≤ '7')

/-- `/^[a-f0-9]{64}$/` -/
def isTicket (ticket : String) : Bool :=
  ticket.length == 64 &&
    ticket.toList.all fun c => ('a' ≤ c && c ≤ 'f') || ('0' ≤ c && c ≤ '9')

structure RouteOptions where
  allowedHostIds : Option (List String) := none
  ticketTimeoutMs : Int
  deriving Repr, DecidableEq

def RouteOptions.allows (o : RouteOptions) (hostId : String) : Bool :=
  o.allowedHostIds.all (·.contains hostId)

structure RelayRoutes where
  hosts : Registry String := .empty
  pending : Registry Pending := .empty
  waiting : List String := []
  deriving DecidableEq

/-- A call returns actions or throws; what it changed before it threw stays. -/
abbrev Returned := RelayRoutes × Except RouteError (List RouteAction)

namespace RelayRoutes

/-- A ticket is no longer pending, and its client no longer waits. -/
def forget (s : RelayRoutes) (ticket client : String) : RelayRoutes :=
  { s with pending := s.pending.delete ticket, waiting := removeFrom s.waiting client }

/-- A ticket is pending, and its client waits. -/
def await (s : RelayRoutes) (ticket : String) (entry : Pending) : RelayRoutes :=
  { s with pending := s.pending.set ticket entry, waiting := addTo s.waiting entry.client }

/-- The loop of `close` and `sweep` over the pending tickets: those that are `gone` are forgotten.
Deleting the entry at hand does not disturb the iteration. -/
def forgetAll (gone : Pending → Bool) (notice : Pending → List RouteAction) :
    List (String × Pending) → RelayRoutes → RelayRoutes × List RouteAction
  | [], s => (s, [])
  | (ticket, entry) :: rest, s =>
    if gone entry then
      let (s, actions) := forgetAll gone notice rest (s.forget ticket entry.client)
      (s, notice entry ++ actions)
    else forgetAll gone notice rest s

def close (s : RelayRoutes) (socket : String) : RelayRoutes × List RouteAction :=
  let hosts := s.hosts.entries.foldl (fun hosts (id, owner) =>
    if owner = socket then hosts.delete id else hosts) s.hosts
  let s := { s with hosts, waiting := removeFrom s.waiting socket }
  forgetAll (fun entry => entry.client = socket || entry.owner = socket)
    (fun entry => if entry.client ≠ socket then [.close entry.client 1008 "Host disconnected"]
      else [])
    s.pending.entries s

def sweep (s : RelayRoutes) (now : Int) : RelayRoutes × List RouteAction :=
  forgetAll (fun entry => entry.expires ≤ now)
    (fun entry => [.close entry.client 1008 "Ticket expired"]) s.pending.entries s

/-- The hosts of `restore`, up to the first that is malformed. -/
def restoreHosts (o : RouteOptions) : List HostRecord → Registry String →
    Registry String × Except RouteError Unit
  | [], hosts => (hosts, .ok ())
  | host :: rest, hosts =>
    if isHostId host.hostId then
      restoreHosts o rest (if o.allows host.hostId then hosts.set host.hostId host.socket else hosts)
    else (hosts, .error .invalidHostId)

/-- The tickets of `restore`, up to the first that is malformed. -/
def restorePending (owners : List String) : List PendingTicket → RelayRoutes → Returned
  | [], s => (s, .ok [])
  | entry :: rest, s =>
    if !isTicket entry.ticket then (s, .error .invalidTicket)
    else if !owners.contains entry.owner || (s.pending.get? entry.ticket).isSome then
      let (s, actions) := restorePending owners rest s
      (s, actions.map (.close entry.client 1008 "Host disconnected" :: ·))
    else restorePending owners rest (s.await entry.ticket entry.toPending)

def restore (o : RouteOptions) (s : RelayRoutes) (hosts : List HostRecord)
    (pending : List PendingTicket) : Returned :=
  if s.hosts.size ≠ 0 || s.pending.size ≠ 0 then (s, .error .alreadyInUse)
  else
    match restoreHosts o hosts s.hosts with
    | (hosts, .error error) => ({ s with hosts }, .error error)
    | (hosts, .ok ()) => restorePending hosts.values pending { s with hosts }

def register (o : RouteOptions) (s : RelayRoutes) (socket hostId : String) : Returned :=
  if !isHostId hostId then (s, .error .invalidHostId)
  else if !o.allows hostId then (s, .ok [.close socket 1008 "Host not allowed"])
  else
    let previous := s.hosts.get? hostId
    let s := { s with hosts := s.hosts.set hostId socket }
    -- an empty string is no previous socket
    match previous.filter (fun previous => previous ≠ "" && previous ≠ socket) with
    | some previous =>
      let (s, actions) := s.close previous
      (s, .ok (actions ++ [.close previous 4001 "Registration replaced",
        .registered socket hostId]))
    | none => (s, .ok [.registered socket hostId])

def request (o : RouteOptions) (s : RelayRoutes) (socket hostId ticket : String) (now : Int) :
    Returned :=
  if !isTicket ticket then (s, .error .invalidTicket)
  else match (s.hosts.get? hostId).filter (· ≠ "") with
    | none => (s, .ok [.close socket 1008 "Host unavailable"])
    | some owner =>
      if (s.pending.get? ticket).isSome then (s, .error .ticketCollision)
      else (s.await ticket { client := socket, owner, expires := now + o.ticketTimeoutMs },
        .ok [.offer owner ticket])

def join (s : RelayRoutes) (socket ticket : String) (now : Int) :
    RelayRoutes × List RouteAction :=
  match s.pending.get? ticket with
  | none => (s, [.close socket 1008 "Invalid ticket"])
  | some entry =>
    (s.forget ticket entry.client,
      if entry.expires ≤ now then
        [.close entry.client 1008 "Ticket expired", .close socket 1008 "Invalid ticket"]
      else [.pair entry.client socket])

def reject (s : RelayRoutes) (owner ticket : String) : RelayRoutes × List RouteAction :=
  match s.pending.get? ticket with
  | none => (s, [])
  | some entry =>
    if entry.owner ≠ owner then (s, [])
    else (s.forget ticket entry.client, [.close entry.client 1013 "Host busy"])

def premature (s : RelayRoutes) (socket : String) : List RouteAction :=
  if s.waiting.contains socket then [.close socket 1008 "Stream not paired"] else []

end RelayRoutes

/-! ### Runs -/

inductive Call where
  | restore (hosts : List HostRecord) (pending : List PendingTicket)
  | register (socket hostId : String)
  | request (socket hostId ticket : String) (now : Int)
  | join (socket ticket : String) (now : Int)
  | reject (owner ticket : String)
  | close (socket : String)
  | sweep (now : Int)
  deriving Repr, DecidableEq

def RelayRoutes.call (o : RouteOptions) (s : RelayRoutes) : Call → Returned
  | .restore hosts pending => s.restore o hosts pending
  | .register socket hostId => s.register o socket hostId
  | .request socket hostId ticket now => s.request o socket hostId ticket now
  | .join socket ticket now => (s.join socket ticket now).map id .ok
  | .reject owner ticket => (s.reject owner ticket).map id .ok
  | .close socket => (s.close socket).map id .ok
  | .sweep now => (s.sweep now).map id .ok

/-- What a call was, and what it returned. -/
structure Exchange where
  call : Call
  returned : Except RouteError (List RouteAction)
  deriving DecidableEq

/-- The actions of a call that returns. -/
def Exchange.actions (exchange : Exchange) : List RouteAction := exchange.returned.toOption.getD []

/-- Routes, and what has happened to them. -/
structure History where
  s : RelayRoutes := {}
  exchanges : List Exchange := []
  deriving DecidableEq

def History.advance (o : RouteOptions) (history : History) (call : Call) : History :=
  let (s, returned) := history.s.call o call
  { s, exchanges := history.exchanges ++ [{ call, returned }] }

def History.run (o : RouteOptions) (calls : List Call) : History :=
  calls.foldl (·.advance o) {}

end Ace.Relay
