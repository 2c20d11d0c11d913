import Mathlib.Data.List.Basic

/-!
# One attempt over every path at once

The first path starts at once and each next one when its stagger is over, or as soon as the one
before it fails; the first to open its transport carries the attempt.

The code calls out while it runs: to make, open and close a transport, and to tell the connection
what happened. What it calls may call back before it returns, so the calls that have not returned
yet are part of the state, each with what follows it.
-/

namespace Ace.PathRace

/-! ### Close codes -/

/-- A close code and its reason. -/
structure Refusal where
  code : Nat
  reason : String
  deriving DecidableEq, Repr

inductive Disconnect where
  | fatal | offline | reconnecting
  deriving DecidableEq

def CredentialReplacedClose : Refusal := ⟨4001, "Credential replaced"⟩

def DeviceRevokedClose : Refusal := ⟨4003, "Device revoked"⟩

def disconnectDecision (active online : Bool) (code : Nat) (reason : String) : Disconnect :=
  let replaced := (⟨code, reason⟩ : Refusal) = CredentialReplacedClose
  if (code = 4001 ∧ ¬replaced) ∨ code = 4003 ∨ code = 4002 ∨ code = 4011 ∨ code = 4403 then .fatal
  else if active && online then .reconnecting
  else .offline

/-- A refusal another attempt can't change, on that path at least. -/
def final (code : Nat) : Bool := disconnectDecision true true code "" = .fatal

/-- The owner revoked this device: true on every path. -/
def isRevocation (refusal : Refusal) : Bool := refusal = DeviceRevokedClose

/-! ### The state of an attempt -/

inductive Payload where
  | text (text : String)
  | binary (bytes : List UInt8)
  deriving DecidableEq

/-- What an attempt does, newest first in its history. Routes are named by their place in the
options, and paths by their place in `started`. -/
inductive Effect where
  /-- `route.transport()` -/
  | creates (route : Nat)
  /-- `transport.open(...)` -/
  | opens (path : Nat)
  /-- `transport.close()` -/
  | closes (path : Nat)
  /-- `winner = transport` -/
  | wins (path : Nat)
  /-- `options.won(route)` -/
  | won (route : Nat)
  /-- `options.failed(route)`, with the close that the path failed by if it was one. -/
  | failed (route : Nat) (cause : Option Refusal)
  /-- `events.open()` -/
  | open
  /-- `events.message(text)` and `events.binary(bytes)`, from the path it came by. -/
  | message (path : Nat) (payload : Payload)
  /-- `events.close(code, reason, refused)` -/
  | close (code : Nat) (reason : Option String) (refused : Option Refusal)
  /-- `close()` was called. -/
  | shut
  deriving DecidableEq

/-- A call that has not returned, by what is done after it. -/
inductive Call where
  /-- `transport = route.transport()` -/
  | creating (route : Nat)
  /-- `options.failed(route)` of a route whose transport could not be made. -/
  | failingCreation
  /-- `transport.open(...)` -/
  | opening
  /-- `entry.transport.close()` in `closeAll(keep)`; the loop is at the next entry then. -/
  | closing (keep : Option Nat) (next : Nat)
  /-- `options.won(route)` -/
  | winning
  /-- `options.failed(route)` of a path. -/
  | failing
  /-- A call that nothing follows. -/
  | last
  deriving DecidableEq

structure Path where
  route : Nat
  failed : Bool
  deriving DecidableEq

/-- The variables of `racingTransport` and of its `open`. -/
structure Race where
  winner : Option Nat := none
  closed : Bool := false
  started : List Path := []
  /-- `cancelNext` is defined: the stagger of the next route is running. -/
  armed : Bool := false
  next : Nat := 0
  refusal : Option Refusal := none
  dropped : Bool := false
  /-- `open` was called. -/
  asked : Bool := false
  effects : List Effect := []
  calls : List Call := []
  deriving DecidableEq

namespace Race

variable (race : Race)

def routeOf (path : Nat) : Option Nat := race.started[path]?.map (·.route)

def hasFailed (path : Nat) : Bool := (race.started[path]?.map (·.failed)).getD false

/-- Calls out: the effect, and what is left to do after it. -/
def call (effect : Effect) (rest : Call) : Race :=
  { race with effects := effect :: race.effects, calls := rest :: race.calls }

@[simp] theorem call_winner {effect : Effect} {rest : Call} :
    (race.call effect rest).winner = race.winner := rfl

@[simp] theorem call_closed {effect : Effect} {rest : Call} :
    (race.call effect rest).closed = race.closed := rfl

@[simp] theorem call_started {effect : Effect} {rest : Call} :
    (race.call effect rest).started = race.started := rfl

@[simp] theorem call_armed {effect : Effect} {rest : Call} :
    (race.call effect rest).armed = race.armed := rfl

@[simp] theorem call_next {effect : Effect} {rest : Call} :
    (race.call effect rest).next = race.next := rfl

@[simp] theorem call_refusal {effect : Effect} {rest : Call} :
    (race.call effect rest).refusal = race.refusal := rfl

@[simp] theorem call_dropped {effect : Effect} {rest : Call} :
    (race.call effect rest).dropped = race.dropped := rfl

@[simp] theorem call_asked {effect : Effect} {rest : Call} :
    (race.call effect rest).asked = race.asked := rfl

@[simp] theorem call_effects {effect : Effect} {rest : Call} :
    (race.call effect rest).effects = effect :: race.effects := rfl

@[simp] theorem call_calls {effect : Effect} {rest : Call} :
    (race.call effect rest).calls = rest :: race.calls := rfl

/-! ### What the code does -/

/-- `refused(code, reason)` -/
def refused (refusal : Refusal) : Option Refusal :=
  match race.refusal with
  | some held =>
    if isRevocation held || (final held.code && !final refusal.code) then some held
    else some refusal
  | none => some refusal

def exhausted (routes : Nat) : Bool :=
  race.winner.isNone && decide (routes ≤ race.next) && race.started.all (·.failed)

/-- What the attempt closes with when every path failed. -/
def lostClose : Effect :=
  match race.refusal with
  | some refusal =>
    if !race.dropped || isRevocation refusal then .close refusal.code (some refusal.reason) none
    else
      let reason := if refusal.reason = "" then "No path answered" else refusal.reason
      .close 1006 (some reason) (some refusal)
  | none => .close 1006 (some "No path answered") none

def lost (routes : Nat) : Race :=
  if !race.closed && race.exhausted routes then
    { race with closed := true }.call race.lostClose .last
  else race

def start (routes : Nat) : Race :=
  let race := { race with armed := false }
  if race.winner.isSome || race.closed then race
  else
    let route := race.next
    let race := { race with next := race.next + 1 }
    if route < routes then race.call (.creates route) (.creating route) else race.lost routes

/-- `fail(code, reason)` of a path. -/
def fail (path : Nat) (code : Nat) (reason : Option String) : Race :=
  match race.started[path]? with
  | none => race
  | some entry =>
    if entry.failed || race.winner = some path then race
    else
      let refusal : Refusal := ⟨code, reason.getD ""⟩
      let race :=
        if 4000 ≤ code then { race with refusal := race.refused refusal }
        else { race with dropped := true }
      { race with started := race.started.set path { entry with failed := true } }.call
        (.failed entry.route (some refusal)) .failing

/-- The loop of `closeAll(keep)` from an entry on, and what follows it. -/
def closeFrom (keep : Option Nat) (index : Nat) : Race :=
  let index := if keep = some index then index + 1 else index
  if index < race.started.length then race.call (.closes index) (.closing keep (index + 1))
  else
    match keep with
    | none => race
    | some path => race.call (.won ((race.routeOf path).getD 0)) .winning

/-- The `open` callback of a path. -/
def pathOpens (path : Nat) : Race :=
  if race.winner.isSome || race.closed then
    if race.winner = some path then race else race.call (.closes path) .last
  else
    { race with
      winner := some path, armed := false, effects := .wins path :: race.effects }.closeFrom
        (some path) 0

/-- The `message` and `binary` callbacks of a path. -/
def pathSays (path : Nat) (payload : Payload) : Race :=
  if race.winner = some path then race.call (.message path payload) .last else race

/-- The `close` callback of a path. -/
def pathCloses (path : Nat) (code : Nat) (reason : Option String) : Race :=
  if race.winner = some path then race.call (.close code reason none) .last
  else race.fail path code reason

/-- `open(events)` -/
def openAll (routes : Nat) : Race :=
  let race := { race with asked := true }
  if routes = 0 then
    { race with closed := true }.call (.close 1006 (some "No path to this machine") none) .last
  else race.start routes

/-- `close()` -/
def shutDown : Race :=
  { race with closed := true, armed := false, effects := .shut :: race.effects }.closeFrom none 0

/-- What follows a call when it returns. -/
def resume (routes : Nat) : Call → Race
  | .creating route =>
    let entry : Path := { route, failed := false }
    { race with started := race.started ++ [entry] }.call (.opens race.started.length) .opening
  | .failingCreation => race.start routes
  | .opening =>
    if race.winner.isNone && decide (race.next < routes) then { race with armed := true }
    else race
  | .closing keep next => race.closeFrom keep next
  | .winning => race.call .open .last
  | .failing => if race.winner.isNone && race.armed then race.start routes else race.lost routes
  | .last => race

/-- A transport that could not be made. -/
def creationFails (route : Nat) : Race :=
  { race with dropped := true }.call (.failed route none) .failingCreation

end Race

/-! ### What can happen -/

inductive Action where
  /-- The connection opens the attempt. -/
  | open
  /-- The connection closes it. -/
  | close
  /-- The stagger is over. -/
  | fires
  | pathOpens (path : Nat)
  | pathSays (path : Nat) (payload : Payload)
  | pathCloses (path : Nat) (code : Nat) (reason : Option String)
  /-- The newest call returns. -/
  | returns
  /-- The newest call, which makes a transport, throws. -/
  | throws

/-- One step; `none` where the action cannot happen. A path calls back once it was opened. -/
def step (routes : Nat) (race : Race) : Action → Option Race
  | .open => if race.asked then none else some (race.openAll routes)
  | .close => some race.shutDown
  | .fires => if race.armed then some (race.start routes) else none
  | .pathOpens path => if path < race.started.length then some (race.pathOpens path) else none
  | .pathSays path payload =>
    if path < race.started.length then some (race.pathSays path payload) else none
  | .pathCloses path code reason =>
    if path < race.started.length then some (race.pathCloses path code reason) else none
  | .returns =>
    match race.calls with
    | [] => none
    | call :: calls => some ({ race with calls }.resume routes call)
  | .throws =>
    match race.calls with
    | .creating route :: calls => some ({ race with calls }.creationFails route)
    | _ => none

/-- An attempt from its beginning. -/
def run (routes : Nat) (actions : List Action) : Option Race := actions.foldlM (step routes) {}

end Ace.PathRace
