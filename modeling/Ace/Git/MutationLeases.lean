import Mathlib.Data.List.Basic

/-!
# Mutation leases

`packages/git/src/mutation-leases.ts`, `mutation-state.ts` and the admission of
`lease-admission.ts`, for daemons that share the journal of one repository. A daemon that wants to
mutate a checkout surveys the published leases, asks their owners whether they still run, stages
its own lease under a name that readers skip, publishes it by a rename, runs its operation and
removes the lease.

Nobody crashes and no process is killed, so that no lease is quarantined, orphaned or retired.
-/

namespace Ace.Git

/-- A resolved absolute path, as its components. -/
abbrev Root := List String

def within (parent path : Root) : Bool := parent.isPrefixOf path

inductive RootKind where
  | gone
  | unregistered
  | linked
  | other
  deriving DecidableEq, Repr

inductive LeaseOwnerState where
  | running
  | held
  | orphaned
  | active
  | quarantined
  | unknown
  | gone
  deriving DecidableEq, Repr

structure MutationLease where
  id : String
  root : Root
  roots : List Root
  /-- The process whose endpoint is recorded. -/
  owner : Nat
  deriving DecidableEq, Repr

structure LeaseFacts where
  record : MutationLease
  owner : LeaseOwnerState
  /-- One kind for each root of the record. -/
  roots : List RootKind
  deriving DecidableEq, Repr

/-- A live owner will finish. There is no evidence of other processes here. -/
def clearsOnItsOwn (facts : LeaseFacts) : Bool :=
  facts.owner = .active || facts.owner = .quarantined

def repositoryWide (facts : LeaseFacts) : Bool := facts.roots.any (· = .other)

/-- A mutation in a linked worktree reaches only what is inside it. -/
def overlaps (root : Root) (kind : Option RootKind) (path : Root) : Bool :=
  if kind = some .linked then within root path else within root path || within path root

def fences (facts : LeaseFacts) (path : Root) : Bool :=
  if facts.owner = .running then false
  else
    let touched := facts.record.roots.zipIdx.any fun (root, index) =>
      overlaps root facts.roots[index]? path
    if facts.owner = .active then touched else touched || repositoryWide facts

/-! ### Daemons -/

/-- Where a call of `withMutationLease` stands. -/
inductive LeasePhase where
  | admitting
  | admitted
  | staged
  | published
  | running
  | done
  | refused
  deriving DecidableEq, Repr

/-- The call has its lease in the registry of its process. -/
def LeasePhase.isLive : LeasePhase → Bool
  | .staged | .published | .running => true
  | _ => false

structure LeaseCall where
  process : Nat
  id : String
  root : Root
  phase : LeasePhase := .admitting
  deriving DecidableEq, Repr

def LeaseCall.record (call : LeaseCall) : MutationLease where
  id := call.id
  root := call.root
  roots := [call.root]
  owner := call.process

structure Daemons where
  /-- The published leases. -/
  journal : List MutationLease := []
  /-- The names of staged ones. -/
  staged : List String := []
  calls : List LeaseCall := []
  deriving DecidableEq, Repr

namespace Daemons

/-- `owned(id)` of a process. -/
def owns (s : Daemons) (process : Nat) (id : String) : Bool :=
  s.calls.any fun call => call.process = process && call.id = id && call.phase.isLive

/-- What a process knows about a lease. The owner answers its probe, or not in time. -/
def assess (kind : Root → RootKind) (s : Daemons) (process : Nat) (answers : Bool)
    (record : MutationLease) : LeaseFacts :=
  let owner :=
    if s.owns process record.id then .running
    else if record.owner = process then .orphaned
    else if answers && s.owns record.owner record.id then .active
    else .unknown
  { record, owner, roots := if owner = .running then [] else record.roots.map kind }

def goto (s : Daemons) (i : Nat) (phase : LeasePhase) : Daemons :=
  { s with calls := s.calls.modify i fun call => { call with phase } }

/-- `assertAvailable`: the journal is read and admission decided. A call that is fenced waits for
leases that clear on their own, as long as it may, or is refused. -/
def survey (kind : Root → RootKind) (s : Daemons) (i : Nat) (call : LeaseCall)
    (answers waits : Bool) : Daemons :=
  let fencing := (s.journal.map (s.assess kind call.process answers)).filter (fences · call.root)
  if s.journal.length > 256 then s.goto i .refused
  else if fencing.isEmpty then s.goto i .admitted
  else if waits && fencing.all clearsOnItsOwn then s
  else s.goto i .refused

/-- The intent is written whole under its staging name, which must be free. -/
def stage (s : Daemons) (i : Nat) (call : LeaseCall) : Daemons :=
  if s.owns call.process call.id || s.staged.contains call.id then s.goto i .refused
  else { s with staged := call.id :: s.staged }.goto i .staged

/-- The lease is renamed into place, unless there is one of that name. -/
def publish (s : Daemons) (i : Nat) (call : LeaseCall) : Daemons :=
  let s' := { s with staged := s.staged.erase call.id }
  if s.journal.any (·.id = call.id) then s'.goto i .refused
  else { s' with journal := s.journal ++ [call.record] }.goto i .published

/-- The operation is over and the lease is removed. -/
def finish (s : Daemons) (i : Nat) (call : LeaseCall) : Daemons :=
  { s with journal := s.journal.filter (·.id ≠ call.id) }.goto i .done

end Daemons

inductive LeaseAction where
  | call (process : Nat) (id : String) (root : Root)
  | survey (i : Nat) (answers waits : Bool)
  | stage (i : Nat)
  | publish (i : Nat)
  | operate (i : Nat)
  | finish (i : Nat)
  deriving DecidableEq, Repr

/-- A step of one call, when it stands there. -/
def Daemons.whenAt (s : Daemons) (i : Nat) (phase : LeasePhase) (next : LeaseCall → Daemons) :
    Option Daemons :=
  s.calls[i]?.bind fun call => if call.phase = phase then some (next call) else none

def Daemons.step (kind : Root → RootKind) (s : Daemons) : LeaseAction → Option Daemons
  -- `randomUUID` gives an id that no other call has
  | .call process id root =>
    if s.calls.any (·.id = id) then none
    else some { s with calls := s.calls ++ [{ process, id, root }] }
  | .survey i answers waits => s.whenAt i .admitting fun call => s.survey kind i call answers waits
  | .stage i => s.whenAt i .admitted fun call => s.stage i call
  | .publish i => s.whenAt i .staged fun call => s.publish i call
  | .operate i => s.whenAt i .published fun _ => s.goto i .running
  | .finish i => s.whenAt i .running fun call => s.finish i call

end Ace.Git
