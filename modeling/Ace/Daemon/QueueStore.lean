import Mathlib.Data.List.Sort
import Mathlib.Data.List.Nodup

/-!
# Queued messages

`apps/daemon/src/engine/queue-store.ts`, on the rows of the `intents` table. A thread's queue shows
what is pending or queued and what may or may not have been delivered, by position and id. Moving a
message renumbers the rows that are still queued.
-/

namespace Ace.Daemon.QueueStore

inductive Status where
  | pending
  | queued
  | running
  | done
  | failed
  deriving DecidableEq

/-- A row of the table. Of its payload only the size is read here. -/
structure Intent where
  id : Nat
  commandId : String
  threadId : String
  kind : String
  status : Status
  trigger : Option String := none
  position : Nat
  uncertain : Bool := false
  payloadBytes : Nat := 0
  deriving DecidableEq

/-- The table, with its primary key. -/
structure Intents where
  rows : List Intent
  nodup : (rows.map Intent.id).Nodup

/-- `ORDER BY position,id` -/
def ordered (a b : Intent) : Prop := a.position < b.position ∨ a.position = b.position ∧ a.id ≤ b.id

instance : DecidableRel ordered := fun _ _ => inferInstanceAs (Decidable (_ ∨ _))

/-- Child results belong to the daemon, not to the person's queue. -/
def own (threadId : String) (row : Intent) : Bool :=
  row.threadId = threadId && row.trigger ≠ some "subagent_result"

def waiting (row : Intent) : Bool :=
  (row.kind = "thread.send" || row.kind = "thread.create") &&
    (row.status = .pending || row.status = .queued)

def displayable (row : Intent) : Bool :=
  waiting row ||
    (["thread.send", "thread.create", "thread.resume", "queue.resume", "thread.limit"].contains
      row.kind && row.uncertain)

/-- What the queue of a thread shows, in its order. -/
def displayed (t : Intents) (threadId : String) : List Intent :=
  (t.rows.filter fun row => own threadId row && displayable row).insertionSort ordered

def hasUncertain (t : Intents) (threadId : String) : Bool :=
  t.rows.any fun row => row.threadId = threadId && row.uncertain

def count (t : Intents) (threadId : String) : Nat :=
  (t.rows.filter fun row => own threadId row && displayable row).length

/-! ### Reading -/

/-- The rows of the messages of a snapshot. -/
def snapshot (t : Intents) (threadId : String) : List Intent := (displayed t threadId).take 256

def head (t : Intents) (threadId : String) : Option Nat := (displayed t threadId).head?.map (·.id)

structure QueueGet where
  threadId : String
  after : Option String := none
  expectedRevision : Option Nat := none
  limit : Nat := 16

structure QueuePage where
  messages : List Intent
  total : Nat
  next : Option String

/-- As many rows as fit; the first always does. -/
def fill (limit : Nat) : List Intent → Nat → Nat → List Intent
  | [], _, _ => []
  | row :: rows, taken, bytes =>
    if limit ≤ taken || (taken ≠ 0 && 512 * 1024 < bytes + row.payloadBytes) then []
    else row :: fill limit rows (taken + 1) (bytes + row.payloadBytes)

/-- `position > ? OR (position = ? AND id > ?)`; without a cursor every row is after it. -/
def isAfter (cursor : Option Intent) (row : Intent) : Bool :=
  match cursor with
  | none => true
  | some c => c.position < row.position || (row.position = c.position && c.id < row.id)

/-- The row that a page continues after. -/
def cursorOf (t : Intents) (request : QueueGet) : Option Intent :=
  request.after.bind fun after =>
    t.rows.find? fun row => own request.threadId row && row.commandId = after &&
      (row.status = .pending || row.status = .queued || row.uncertain)

def page (t : Intents) (revision : Nat) (request : QueueGet) : Except String QueuePage :=
  if request.expectedRevision.any (· ≠ revision) then .error "queue_conflict"
  else if request.after.isSome && request.expectedRevision = none then
    .error "queue_revision_required"
  else if request.after.isSome && cursorOf t request = none then .error "invalid_queue_cursor"
  else
    let rows := ((displayed t request.threadId).filter (isAfter (cursorOf t request))).take
      (request.limit + 1)
    let messages := fill request.limit rows 0 0
    .ok {
      messages
      total := count t request.threadId
      next := if rows.length > messages.length then messages.getLast?.map (·.commandId) else none }

/-! ### Moving -/

/-- `UPDATE intents SET position=? WHERE id=?` -/
def setPosition (t : Intents) (id position : Nat) : Intents where
  rows := t.rows.map fun row => if row.id = id then { row with position } else row
  nodup := by
    rw [List.map_map]
    have same : (Intent.id ∘ fun row => if row.id = id then { row with position } else row) =
        Intent.id := by
      funext row
      simp only [Function.comp]
      split <;> rfl
    rw [same]
    exact t.nodup

/-- The positions of some rows, counting from 1. -/
def renumber (t : Intents) (ids : List Nat) : Intents :=
  ids.zipIdx.foldl (fun t (id, index) => setPosition t id (index + 1)) t

/-- `ordered.splice(after === null ? 0 : ordered.indexOf(after) + 1, 0, message)` -/
def putBehind (ids : List Nat) (message : Nat) : Option Nat → List Nat
  | none => ids.insertIdx 0 message
  | some after => ids.insertIdx (ids.idxOf after + 1) message

def move (t : Intents) (threadId : String) (message : Nat) (after : Option Nat) : Bool × Intents :=
  let rows := (((t.rows.filter fun row => own threadId row && waiting row).insertionSort
    ordered).take 256).map Intent.id
  if message ∉ rows || some message = after || after.any (· ∉ rows) then (false, t)
  else (true, renumber t (putBehind (rows.filter (· ≠ message)) message after))

end Ace.Daemon.QueueStore
