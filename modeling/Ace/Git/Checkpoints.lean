import Mathlib.Data.List.Basic

/-!
# Numbered checkpoints

`packages/git/src/checkpoints.ts`, `checkpoint-numbers.ts` and the refs of `checkpoint-bytes.ts`.
A checkpoint of a thread is a ref named by its sequence. A counter ref points at the commit of the
last one; a create publishes its ref and moves the counter in one transaction that names the commit
it expects there, and a deletion removes the refs it listed with the counter it read before.

Calls of any number of processes are taken apart into their Git calls. A call that touches no ref
(`commit-tree`, `rev-parse`) is part of the step before it, and a Git call may fail at any time.
-/

namespace Ace.Git

structure Metadata where
  threadId : String
  label : String
  createdAt : String
  sequence : Option Nat
  deriving DecidableEq, Repr

/-- A commit stands for its id: ids are as distinct as commits are. `metadata` throws when the
message is not that of a checkpoint. -/
structure Commit where
  tree : String
  metadata : Option Metadata
  deriving DecidableEq, Repr

/-- The sequence that the counter of a thread has at a commit; anything else is malformed. -/
def Commit.sequence? (threadId : String) (sha : Commit) : Option Nat :=
  match sha.metadata with
  | some data => if data.threadId = threadId then data.sequence else none
  | none => none

/-- The commit of the files' own bytes, where these differ from what Git stores. -/
structure BytesCommit where
  tree : String
  createdAt : String
  deriving DecidableEq, Repr

/-- `Number.MAX_SAFE_INTEGER` -/
def maxSequence : Nat := 9007199254740991

/-- The refs of one thread. -/
structure Refs where
  checkpoints : List (Nat × Commit) := []
  counter : Option Commit := none
  bytes : List (Commit × BytesCommit) := []
  deriving DecidableEq, Repr

namespace Refs

/-- `create` of the checkpoint and `update` of the counter, in one transaction. -/
def create (refs : Refs) (sequence : Nat) (sha : Commit) (old : Option Commit) : Option Refs :=
  if sequence ∈ refs.checkpoints.map Prod.fst ∨ refs.counter ≠ old then none
  else some { refs with
    checkpoints := refs.checkpoints ++ [(sequence, sha)]
    counter := some sha }

/-- `delete` of the listed checkpoints and of the counter, in one transaction. A counter that was
absent is verified to be absent. -/
def delete (refs : Refs) (listed : List (Nat × Commit)) (old : Option Commit) : Option Refs :=
  if (∀ ref ∈ listed, ref ∈ refs.checkpoints) ∧ refs.counter = old then
    some { refs with
      checkpoints := refs.checkpoints.filter (· ∉ listed)
      counter := none }
  else none

/-- `update-ref` of the bytes of a checkpoint, whatever was there. -/
def record (refs : Refs) (sha : Commit) (bytes : BytesCommit) : Refs :=
  { refs with bytes := refs.bytes.filter (·.1 ≠ sha) ++ [(sha, bytes)] }

/-- `delete` of refs of bytes, in one transaction. -/
def forget (refs : Refs) (stale : List (Commit × BytesCommit)) : Option Refs :=
  if ∀ ref ∈ stale, ref ∈ refs.bytes then
    some { refs with bytes := refs.bytes.filter (· ∉ stale) }
  else none

end Refs

/-- What a process knows of the counter of a thread. -/
structure Counter where
  sha : Option Commit
  sequence : Nat
  deriving DecidableEq, Repr

/-! ### Calls -/

/-- A create has taken its snapshot. On Windows it has the tree of the files' own bytes, too. -/
inductive Input where
  | create (tree label createdAt : String) (bytes : Option String)
  | delete (windows : Bool)
  deriving DecidableEq, Repr

/-- What a refresh of the counter is for. -/
inductive Next where
  | attempt (n : Nat)
  | recheck (n : Nat) (previous : Counter) (locked : Bool)
  | delete
  deriving DecidableEq, Repr

/-- Where a call stands: before which Git call, or at its end. -/
inductive Phase where
  | get (n : Nat)
  | show (next : Next)
  | list (next : Next)
  | record (n : Nat) (previous : Counter)
  | transact (n : Nat) (previous : Counter)
  | listRefs (current : Counter)
  | delete (current : Counter) (listed : List (Nat × Commit))
  | listBytes (deleted : Nat)
  | listLive (deleted : Nat) (listed : List (Commit × BytesCommit))
  | dropBytes (deleted : Nat) (stale : List (Commit × BytesCommit))
  | created (sequence : Nat) (sha : Commit)
  | deleted (deleted : Nat)
  | failed
  deriving DecidableEq, Repr

structure Job where
  process : Nat
  input : Input
  phase : Phase
  deriving DecidableEq, Repr

/-- What a call changed. -/
inductive Event where
  | created (job sequence : Nat) (sha : Commit)
  | deleted (job : Nat)
  | recorded (job : Nat)
  | forgot (job : Nat)
  deriving DecidableEq, Repr

structure State where
  refs : Refs := {}
  caches : Nat → Option Counter := fun _ => none
  jobs : List Job := []
  log : List Event := []

/-- The commit of a create at a sequence. -/
def Input.commit (threadId : String) : Input → Nat → Commit
  | .create tree label createdAt _, sequence =>
    { tree, metadata := some { threadId, label, createdAt, sequence := some sequence } }
  | .delete _, _ => { tree := "", metadata := none }

/-- The bytes that are recorded beside a checkpoint. -/
def Input.recorded : Input → Option BytesCommit
  | .create tree _ createdAt (some bytes) => if bytes ≠ tree then some { tree := bytes, createdAt }
    else none
  | _ => none

/-- The counter is known: the commit is made, or the numbers are exhausted. -/
def Input.proceed (input : Input) (n : Nat) (previous : Counter) : Phase :=
  if previous.sequence + 1 ≤ maxSequence then
    if input.recorded.isSome then .record n previous else .transact n previous
  else .failed

/-- How a Git call ends. -/
inductive Outcome where
  | answers
  /-- It exits with an error that the caller looks at; `locked` as its text says. -/
  | exits (locked : Bool)
  | throws
  deriving DecidableEq, Repr

namespace State

def goto (s : State) (i : Nat) (phase : Phase) : State :=
  { s with jobs := s.jobs.modify i fun job => { job with phase } }

/-- Refs are changed. -/
def write (s : State) (refs : Refs) (event : Event) : State :=
  { s with refs, log := s.log ++ [event] }

/-- `numbers.remember` -/
def remember (s : State) (process : Nat) (value : Counter) : State :=
  { s with caches := fun p => if p = process then some value else s.caches p }

/-- `numbers.forget`, or an eviction. -/
def forget (s : State) (process : Nat) : State :=
  { s with caches := fun p => if p = process then none else s.caches p }

/-- A refresh has its value. -/
def refreshed (s : State) (i : Nat) (job : Job) (value : Counter) : Next → State
  | .attempt n => (s.remember job.process value).goto i (job.input.proceed n value)
  | .recheck n previous locked => (s.remember job.process value).goto i
    (if value.sha = previous.sha && !locked then .failed
    else if n < 19 then .get (n + 1) else .failed)
  | .delete => (s.remember job.process value).goto i (.listRefs value)

/-- The end of a deletion. -/
def finish (s : State) (i : Nat) (job : Job) (deleted : Nat) : State :=
  (s.forget job.process).goto i (.deleted deleted)

/-- The next Git call of a call, and what follows from its answer. -/
def advance (threadId : String) (s : State) (i : Nat) (job : Job) (git : Outcome) : Option State :=
  match job.phase, git with
  | .get n, _ => some <| match s.caches job.process with
    | some value => s.goto i (job.input.proceed n value)
    | none => s.goto i (.show (.attempt n))
  | .show next, .answers => some <| match s.refs.counter with
    | some sha => match sha.sequence? threadId with
      | some sequence => s.refreshed i job { sha := some sha, sequence } next
      | none => s.goto i .failed
    | none => s.goto i (.list next)
  | .show next, .exits _ => some (s.goto i (.list next))
  -- checkpoints that were written before there was a counter
  | .list next, .answers => some <|
    s.refreshed i job ⟨none, (s.refs.checkpoints.map Prod.fst).foldl max 0⟩ next
  | .record n previous, .answers => some <| match job.input.recorded with
    | some bytes =>
      (s.write (s.refs.record (job.input.commit threadId (previous.sequence + 1)) bytes)
        (.recorded i)).goto i (.transact n previous)
    | none => s.goto i (.transact n previous)
  | .transact n previous, .answers =>
    let sequence := previous.sequence + 1
    let sha := job.input.commit threadId sequence
    some <| match s.refs.create sequence sha previous.sha with
    | some refs =>
      ((s.write refs (.created i sequence sha)).remember job.process
        { sha := some sha, sequence }).goto i (.created sequence sha)
    | none => s.goto i (.show (.recheck n previous false))
  | .transact n previous, .exits locked => some (s.goto i (.show (.recheck n previous locked)))
  | .listRefs current, .answers => some (s.goto i (.delete current s.refs.checkpoints))
  | .delete current listed, .answers => some <| match s.refs.delete listed current.sha with
    | some refs =>
      if job.input = .delete true then
        (s.write refs (.deleted i)).goto i (.listBytes listed.length)
      else (s.write refs (.deleted i)).finish i job listed.length
    | none => s.goto i .failed
  | .listBytes n, .answers => some <|
    if s.refs.bytes.isEmpty then s.finish i job n else s.goto i (.listLive n s.refs.bytes)
  | .listLive n listed, .answers =>
    let stale := listed.filter fun ref => ref.1 ∉ s.refs.checkpoints.map Prod.snd
    some <| if stale.isEmpty then s.finish i job n else s.goto i (.dropBytes n stale)
  | .dropBytes n stale, .answers => some <| match s.refs.forget stale with
    | some refs => (s.write refs (.forgot i)).finish i job n
    | none => s.goto i .failed
  | .created .., _ | .deleted .., _ | .failed, _ => none
  | _, .exits _ | _, .throws => some (s.goto i .failed)

end State

inductive Action where
  | create (process : Nat) (tree label createdAt : String) (bytes : Option String)
  | delete (process : Nat) (windows : Bool)
  | evict (process : Nat)
  | run (job : Nat) (git : Outcome)
  deriving DecidableEq, Repr

def State.step (threadId : String) (s : State) : Action → Option State
  | .create process tree label createdAt bytes => some { s with
    jobs := s.jobs ++ [{ process, input := .create tree label createdAt bytes, phase := .get 0 }] }
  | .delete process windows => some { s with
    jobs := s.jobs ++ [{ process, input := .delete windows, phase := .show .delete }] }
  | .evict process => some (s.forget process)
  | .run i git => s.jobs[i]?.bind fun job => s.advance threadId i job git

end Ace.Git
