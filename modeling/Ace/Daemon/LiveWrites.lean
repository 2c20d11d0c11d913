import Ace.Projection.Delivery
import Ace.Script.Coalesce

/-!
# Live writes

Deltas reach subscribers before they are stored. When they are, adjacent deltas of one text
become one row, under the sequence of the last of them. A cursor that a client comes back with
may be replayed from only if it does not lie inside such a row.
-/

namespace Ace.Daemon

open Script

/-- An event of the host's log. Of a delta's agent no view keeps anything, a row does. -/
structure LogEvent extends Delivery.Event where
  id : String
  agentId : String := ""
  deriving DecidableEq

def deltaRowBytes : Nat := 4096

/-- One row for two adjacent deltas of the same thread, item, agent and field. -/
def mergeDeltas (previous event : LogEvent) : Option LogEvent :=
  match previous.payload, event.payload with
  | .itemDelta itemId field append, .itemDelta itemId' field' append' =>
    if previous.threadId = event.threadId ∧ itemId = itemId' ∧ previous.agentId = event.agentId ∧
        field = field' ∧
        Text.byteLength append.toList + Text.byteLength append'.toList ≤ deltaRowBytes then
      some { event with payload := .itemDelta itemId' field' (append ++ append') }
    else none
  | _, _ => none

/-- The merged row keeps the final sequence of its span. -/
def compactDeltas (events : List LogEvent) : List LogEvent :=
  Script.coalesce mergeDeltas events

/-! ### Sequences -/

/-- The highest of some sequences, 0 if there are none. -/
def highest (seqs : List Nat) : Nat := seqs.foldl max 0

/-- The tables that a sequence is read off. -/
structure Tables where
  events : List LogEvent
  usageDeletions : List Nat := []
  deriving DecidableEq

structure StreamSequences where
  cursor : Nat := 0
  reserved : Nat := 0
  deriving DecidableEq, Repr

namespace StreamSequences

def maxSafeInteger : Nat := 2 ^ 53 - 1

def head (tables : Tables) : Nat :=
  max (highest (tables.events.map (·.seq))) (highest tables.usageDeletions)

def replaySafe (sequences : StreamSequences) (tables : Tables) (after : Nat) : Bool :=
  if head tables < after ∧ sequences.reserved < after then false
  else after == 0 || after == head tables || tables.events.any (·.seq == after)

def next (sequences : StreamSequences) (after : Nat) : Except String (Nat × StreamSequences) :=
  let cursor := max sequences.cursor after + 1
  if maxSafeInteger < cursor then .error "Sequence exhausted"
  else .ok (cursor, { sequences with cursor })

/-- A range is reserved, and stored, before anything in it is published. -/
def prepare (sequences : StreamSequences) (events after : Nat) :
    Except String StreamSequences :=
  if after + events ≤ sequences.reserved then .ok sequences
  else
    let through := after + max 65536 events
    if maxSafeInteger < through then .error "Sequence exhausted"
    else .ok { sequences with reserved := through }

end StreamSequences

/-- `SELECT * FROM events WHERE seq > ? ORDER BY seq`. -/
def rowsAfter (tables : Tables) (afterSeq : Nat) : List LogEvent :=
  (tables.events.filter fun row => decide (afterSeq < row.seq)).mergeSort fun x y => x.seq ≤ y.seq

/-- The rows of batches, in the order in which they were flushed. -/
def flushed (batches : List (List LogEvent)) : List LogEvent := batches.flatMap compactDeltas

end Ace.Daemon
