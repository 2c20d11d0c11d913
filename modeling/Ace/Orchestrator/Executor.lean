import Ace.Orchestrator.Recovery

/-!
# The executor shell

`execute` runs one pending intent on the engine's operations and reports the outcome, with
an acknowledgement after it. The operations are the engine's: a record holds what they
return, after it was parsed.
-/

namespace Ace.Orchestrator

/-- What the engine's operations return. -/
structure Executor where
  threadId : String
  worktree : String
  commandPassed : Bool
  reviewPassed : Option Bool
  safetyCheckpoint : String
  deriving DecidableEq, Repr

def Executor.outcome (executor : Executor) (intentId : String) : Effect → LaneReport
  | .start .. => .bound executor.threadId executor.worktree
  | .check .. => .checked intentId executor.commandPassed executor.reviewPassed
  | .cancel .. => .stopped intentId
  | .merge .. => .merged intentId executor.safetyCheckpoint

def execute (s : State) (intentId : String) (executor : Executor) : List Fact :=
  match s.intents.get? intentId with
  | none => []
  | some entry =>
    match (s.lanes.get? entry.effect.laneId).filter fun lane =>
        lane.attempt = entry.effect.attempt ∧ canExecute s lane entry.effect = true with
    | none => []
    | some lane =>
      [.report lane.id entry.effect.attempt (executor.outcome intentId entry.effect),
        .ack intentId]

end Ace.Orchestrator
