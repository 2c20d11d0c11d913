import Ace.Script.Lanes

/-!
# Transcript order

Transcript order is the daemon's creation sequence. A bounded live tail keeps the newest
items, with half of its capacity reserved for the root lane.
-/

namespace Ace

/-- An item reads in the root transcript when it is the root agent's or the thread's own. -/
def inRootLane (agentId rootAgentId : Option String) : Bool :=
  agentId = none || agentId = some "" || agentId = rootAgentId

/-- The exclusive cursor before which one lane may be missing items. A cursor is `none` where it
is undefined, and `some none` where it is null: nothing is missing. -/
def laneBefore (order : List String) (seq : String → Option Nat) (inLane : String → Bool)
    (before : Option (Option Nat)) : Option (Option Nat) :=
  match before with
  | none => none
  | some none => some none
  | some (some before) =>
    match order.find? inLane with
    | none => some (some before)
    | some id =>
      match seq id with
      | none => some (some before)
      | some value => some (some (min value before))

/-- One held item, given oldest first in creation order. -/
structure TailEntry where
  id : String
  seq : Option Nat
  /-- The item reads in the root transcript. -/
  root : Bool
  deriving DecidableEq, Repr

structure RetainedTail where
  kept : List TailEntry
  evicted : List TailEntry
  /-- Exclusive cursor before which items may be missing. -/
  before : Option Nat
  deriving DecidableEq, Repr

/-- Which entries the loop from the newest entry down keeps, with the room it has left. -/
def keepFlags : List TailEntry → Nat → Nat → List Bool
  | [], _, _ => []
  | entry :: older, keepRoots, keepOthers =>
    if entry.root then decide (0 < keepRoots) :: keepFlags older (keepRoots - 1) keepOthers
    else decide (0 < keepOthers) :: keepFlags older keepRoots (keepOthers - 1)

/-- How many entries of the root lane a full tail keeps. -/
def rootRoom (entries : List TailEntry) (capacity : Nat) : Nat :=
  let reserve := capacity / 2
  let roots := entries.countP (·.root)
  let recentStart := entries.length - capacity
  let recentRoots := (entries.drop recentStart).countP (·.root)
  max recentRoots (min roots reserve)

/-- Which items a bounded live tail keeps: the newest `capacity`, except that the root lane
keeps at least half of it. -/
def retainedTail (entries : List TailEntry) (capacity : Nat) : RetainedTail :=
  if entries.length ≤ capacity then { kept := entries, evicted := [], before := none }
  else
    let keepRoots := rootRoom entries capacity
    let keepOthers := capacity - keepRoots
    let keep := (keepFlags entries.reverse keepRoots keepOthers).reverse
    let flagged := entries.zip keep
    -- `entries.slice(newestEvicted + 1)`, and the newest evicted entry itself.
    let afterEvicted := (flagged.reverse.takeWhile (·.2)).reverse.map Prod.fst
    let newestEvicted := (flagged.reverse.find? (!·.2)).map Prod.fst
    let boundary := afterEvicted.find? (·.seq.isSome)
    { kept := (flagged.filter (·.2)).map Prod.fst
      evicted := (flagged.filter (!·.2)).map Prod.fst
      before := (boundary.bind (·.seq)).or ((newestEvicted.bind (·.seq)).map (· + 1)) }

end Ace
