import Ace.Script.Registry

/-!
# Operations in line

`packages/git/src/lock.ts`. Calls for one checkout form a line: each waits for the `next` promise of
the call before it, and gives up its own when it is done. A call whose signal fires while it waits
rejects at once but keeps its place. Acquiring the mutation lease comes between a call's turn and its
operation, and may fail.
-/

namespace Ace.Git.SerialLock

open Script

/-- Where a call stands. -/
inductive Phase where
  /-- in `waitTurn` -/
  | waiting
  /-- `waitTurn` has resolved -/
  | turn
  /-- in `withMutationLease`, before its operation -/
  | leasing
  | running
  /-- the operation has ended, its lease not yet -/
  | ending
  | settled (ok : Bool)
  /-- `waitTurn` has rejected -/
  | cancelled
  /-- the call has rejected, and waits for the one ahead to end -/
  | passing
  | gone
  deriving DecidableEq

def Phase.released : Phase → Bool
  | .settled _ | .gone => true
  | _ => false

structure Call where
  key : String
  /-- The call whose `next` is waited for; none is a promise that has resolved. -/
  previous : Option Nat
  signal : Bool
  phase : Phase
  deriving DecidableEq

/-- The calls in the order in which they were made, and the map of the last call in each line. -/
structure Locks where
  calls : List Call := []
  pending : Registry Nat := .empty

inductive Act where
  /-- `serial` is called, with a signal that may have fired. -/
  | call (key : String) (signal aborted : Bool)
  | abort (i : Nat)
  /-- The one ahead has ended. -/
  | arrive (i : Nat)
  | enter (i : Nat)
  | start (i : Nat)
  /-- There is no lease. -/
  | refuse (i : Nat)
  | finish (i : Nat)
  | settle (i : Nat) (ok : Bool)
  | reject (i : Nat)
  | pass (i : Nat)
  deriving DecidableEq

def ended (s : Locks) : Option Nat → Bool
  | none => true
  | some p => (s.calls[p]?).any fun call => call.phase.released

def setPhase (s : Locks) (i : Nat) (call : Call) (phase : Phase) : Locks :=
  { s with calls := s.calls.set i { call with phase } }

/-- `release()`, and the line is empty if no call came after. -/
def release (s : Locks) (i : Nat) (call : Call) (phase : Phase) : Locks :=
  let s := setPhase s i call phase
  if s.pending.get? call.key = some i then { s with pending := s.pending.delete call.key } else s

/-- What happens to a call that is there. -/
def act (s : Locks) (i : Nat) (call : Call) : Act → Option Locks
  | .call .. => none
  | .abort _ =>
    if call.signal then
      some (if call.phase = .waiting then setPhase s i call .cancelled else s)
    else none
  | .arrive _ =>
    if call.phase = .waiting ∧ ended s call.previous then some (setPhase s i call .turn) else none
  | .enter _ => if call.phase = .turn then some (setPhase s i call .leasing) else none
  | .start _ => if call.phase = .leasing then some (setPhase s i call .running) else none
  | .refuse _ => if call.phase = .leasing then some (release s i call (.settled false)) else none
  | .finish _ => if call.phase = .running then some (setPhase s i call .ending) else none
  | .settle _ ok => if call.phase = .ending then some (release s i call (.settled ok)) else none
  | .reject _ => if call.phase = .cancelled then some (setPhase s i call .passing) else none
  | .pass _ =>
    if call.phase = .passing ∧ ended s call.previous then some (release s i call .gone) else none

/-- The call that something happens to. -/
def Act.of : Act → Option Nat
  | .call .. => none
  | .abort i | .arrive i | .enter i | .start i | .refuse i | .finish i | .settle i _ | .reject i
  | .pass i => some i

def step (s : Locks) : Act → Option Locks
  | .call key signal aborted =>
    some
      { calls := s.calls ++
          [{ key, previous := s.pending.get? key, signal
             phase := if signal && aborted then .cancelled else .waiting }]
        pending := s.pending.set key s.calls.length }
  | a => do
    let i ← a.of
    let call ← s.calls[i]?
    act s i call a

inductive Runs : Locks → List Act → Locks → Prop
  | done (s : Locks) : Runs s [] s
  | step {s s' s'' : Locks} {a : Act} {acts : List Act} (steps : step s a = some s')
      (later : Runs s' acts s'') : Runs s (a :: acts) s''

/-- What happens without anything from outside. -/
def Act.isOwn : Act → Bool
  | .arrive _ | .enter _ | .reject _ | .pass _ => true
  | _ => false

/-- Nothing is left to happen by itself. -/
def AtRest (s : Locks) : Prop := ∀ a, a.isOwn → step s a = none

end Ace.Git.SerialLock
