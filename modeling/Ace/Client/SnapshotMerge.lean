import Ace.Projection.ItemOrder
import Ace.Projection.Window

/-!
# Resuming a transcript

When a resubscription is answered with a snapshot, the transcript that is already held is kept
wherever it meets the snapshot without a hole. Each lane is joined on its own.
-/

namespace Ace.Client

/-- One side of the merge: ids oldest first, by creation sequence. -/
structure TranscriptSide where
  order : List String
  seq : String → Option Nat
  agentOf : String → Option String
  /-- The item is finished. -/
  complete : String → Bool
  /-- Every item at or after this is held: `some none` when held back to the thread's start,
  `none` when it is undefined. -/
  before : Option (Option Nat)

structure Resumed where
  /-- Held items older than the snapshot that stay, oldest first. -/
  kept : List String
  /-- The joined transcript's cursor. -/
  before : Option Nat
  deriving DecidableEq, Repr

def inLane (rootAgentId : Option String) (root : Bool) (side : TranscriptSide) (id : String) :
    Bool :=
  inRootLane (side.agentOf id) rootAgentId == root

/-- The loop over the held items of one lane: the finished ones after the newest unfinished one
that are older than `start`, and whether none of them was unfinished. -/
def laneRun (held : TranscriptSide) (own : String → Bool) (start : Nat) :
    List String → List String → Bool → Option (List String × Bool)
  | [], run, whole => some (run, whole)
  | id :: rest, run, whole =>
    if !own id then laneRun held own start rest run whole
    else
      match held.seq id with
      | none => none
      | some seq =>
        if start ≤ seq then some (run, whole)
        else if held.complete id then laneRun held own start rest (run ++ [id]) whole
        else laneRun held own start rest [] false

/-- The variables that the loop over the lanes changes. -/
structure Joining where
  kept : List String := []
  joined : Option Nat := none
  any : Bool := false
  deriving DecidableEq

/-- `any = true; joined = joined === null ? lane : Math.max(joined, lane)` -/
def Joining.raise (state : Joining) (lane : Nat) : Joining :=
  { state with any := true, joined := some ((state.joined.map (max · lane)).getD lane) }

/-- One round of the loop over the lanes; `none` when a held item has no sequence. -/
def joinLane (held : TranscriptSide) (cursor : Nat) (incoming : TranscriptSide)
    (rootAgentId : Option String) (state : Joining) (root : Bool) : Option Joining :=
  let lane := inLane rootAgentId root
  match laneBefore incoming.order incoming.seq (lane incoming) incoming.before with
  | none | some none => some state
  | some (some start) =>
    match laneBefore held.order held.seq (lane held) held.before with
    | none => some (state.raise start)
    | some heldFrom =>
      if start ≤ cursor + 1 then
        (laneRun held (lane held) start held.order [] true).map fun (run, whole) =>
          let state := { state with kept := state.kept ++ run }
          if whole then
            match heldFrom with
            | none => state
            | some heldFrom => state.raise (min heldFrom start)
          else
            match run.head? with
            | some first => state.raise (min ((held.seq first).getD start) start)
            | none => state.raise start
      else some (state.raise start)

/-- What a held transcript, complete up to `cursor`, keeps when a snapshot arrives. -/
def resumeTranscript (held : TranscriptSide) (cursor : Nat) (incoming : TranscriptSide)
    (rootAgentId : Option String) : Option Resumed :=
  ([true, false].foldlM (joinLane held cursor incoming rootAgentId) {}).bind fun state =>
    if state.kept.isEmpty then none
    else
      some
        { kept := state.kept.mergeSort fun a b => (held.seq a).getD 0 ≤ (held.seq b).getD 0
          before := if state.any then state.joined else none }

/-- The transcript that the store shows after `snapshot(view)`: what the snapshot has of an item
comes before what was held of it. -/
def joinedSide (held incoming : TranscriptSide) (resumed : Resumed) : TranscriptSide :=
  let isKept := fun id => decide (id ∈ resumed.kept)
  let creation := fun id =>
    ((if id ∈ incoming.order then incoming.seq id else none)).or
      (if isKept id then held.seq id else none)
  { order := Window.mergeBySeq resumed.kept incoming.order fun id => ((creation id).getD 0 : Nat)
    seq := creation
    agentOf := fun id =>
      if id ∈ incoming.order then incoming.agentOf id
      else if isKept id then held.agentOf id else none
    complete := fun id =>
      if id ∈ incoming.order then incoming.complete id
      else if isKept id then held.complete id else false
    before := some resumed.before }

end Ace.Client
