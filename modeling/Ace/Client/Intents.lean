import Ace.Script.Registry
import Ace.Script.Value

/-!
# The outbox of a client

Commands wait in memory and on disk until the daemon has answered them. Calls change the records
at once or queue an operation; operations run one after the other and wait for their writes, and
other calls come between. One pump sends what is pending, at most eight commands at a time, and a
fence holds it back while commands of an earlier path are unanswered.

A state is one between two tasks of the event loop: an operation is queued, or running up to a
write, or it has ended and its handler has not run yet. Each record is stored on its own.
-/

namespace Ace.Client

open Script

inductive IntentState where
  | saving
  | pending
  | acked
  | failed
  deriving DecidableEq, Repr

structure Command where
  id : String
  deviceId : String
  payload : Value
  deriving DecidableEq

structure CommandResult where
  commandId : String
  ok : Bool
  error : Option String := none
  threadId : Option String := none
  deriving DecidableEq

structure Intent where
  command : Command
  hostId : Option String := none
  state : IntentState
  error : Option String := none
  result : Option CommandResult := none
  delivered : Bool := false
  acknowledged : Bool := false
  threadId : Option String := none
  waiting : Bool := false
  localFailure : Bool := false
  /-- A local failure that was edited is kept on disk like a refusal of the daemon. -/
  edited : Bool := false
  order : Option Nat := none
  deriving DecidableEq

/-- A transient refusal is retried this many times. -/
def maxRetries : Nat := 10

structure Options where
  device : String
  hostBinding : Bool
  limit : Nat
  bytes : Nat
  frameBytes : Nat
  /-- The length of a record as it is stored. -/
  intentBytes : Intent → Nat
  /-- The length of a command as it is sent. -/
  commandBytes : Command → Nat

/-! ### Records -/

abbrev Records := Registry Intent

def retained (intent : Intent) : Bool :=
  intent.state != .acked && intent.state != .saving && (!intent.localFailure || intent.edited)

section

variable (o : Options)

def retainedBytes (records : Records) : Nat := (records.values.map o.intentBytes).sum

def fits (records : Records) : Bool :=
  decide (records.size ≤ o.limit) &&
    decide (retainedBytes o records + 2 + (records.size - 1) ≤ o.bytes)

def isActive (intent : Intent) : Bool := intent.state == .pending || intent.state == .saving

/-- Settled entries go, oldest first, until the rest fits. -/
def evictFrom (keep : Option String) : List (String × Intent) → Records → Records × List String
  | [], records => (records, [])
  | (id, intent) :: entries, records =>
    if fits o records then (records, [])
    else if keep = some id || isActive intent then evictFrom keep entries records
    else
      let (left, evicted) := evictFrom keep entries (records.delete id)
      (left, id :: evicted)

/-- What is left, and the ids that went. What went is gone also when the rest does not fit and the
call throws. -/
def evict (records : Records) (keep : Option String) : Records × Except String (List String) :=
  let (left, evicted) := evictFrom o keep records.entries records
  if fits o left then (left, .ok evicted) else (left, .error "limit")

def trimFrom (keep : String) :
    List (String × Intent) → Nat → Records → Records × List String
  | [], _, records => (records, [])
  | (id, intent) :: entries, failed, records =>
    if failed ≤ min 64 o.limit then (records, [])
    else if !intent.localFailure || id == keep then trimFrom keep entries failed records
    else
      let (left, removed) := trimFrom keep entries (failed - 1) (records.delete id)
      (left, id :: removed)

def trimFailed (records : Records) (keep : String) : Records × List String :=
  trimFrom o keep records.entries ((records.values.filter (·.localFailure)).length) records

end

/-! ### Operations -/

/-- A write of one record; no record deletes it. -/
abbrev Write := String × Option Intent

def persist (intent : Intent) (evicted : List String) : List Write :=
  evicted.map (·, none) ++ [(intent.command.id, if retained intent then some intent else none)]

inductive Operation where
  | enqueue (command : Command) (evictedBefore : List String)
  | rewrite (id : String) (payload : Value)
  | acknowledge (result : CommandResult)
  | save (intent : Intent)
  | deliveryFailed (id error : String)
  | observe (id : String) (acknowledged : Bool)
  deriving DecidableEq

/-- What an operation does after its writes. -/
inductive Continuation where
  | enqueue (intent : Intent)
  | rewrite (id : String) (previous : Intent)
  | acknowledge (result : CommandResult) (previous : Intent)
  | save (id : String)
  | deliveryFailed (id : String) (previous : Intent)
  | observe (id : String) (acknowledged : Bool) (previous : Intent)
  deriving DecidableEq

/-- What follows the end of an operation. -/
inductive Handler where
  | none
  | enqueued (command : Command) (error : Option String)
  | acknowledged (id : String) (saved : Bool)
  deriving DecidableEq

inductive Running where
  | writing (writes : List Write) (next : Continuation)
  | settled (handler : Handler)
  deriving DecidableEq

structure Retry where
  attempt : Nat
  /-- A timer is set. -/
  cancel : Bool
  deriving DecidableEq, Repr

inductive Cause where
  /-- Sent by the pump. -/
  | pump
  | reask
  /-- An answered command that was enqueued again. -/
  | again
  deriving DecidableEq, Repr

structure Sending where
  intent : Intent
  cause : Cause
  deriving DecidableEq

structure Intents where
  records : Records := .empty
  enqueuing : List String := []
  sequence : Nat := 0
  acknowledging : List String := []
  queue : List Operation := []
  running : Option Running := none
  /-- Handlers of calls that were refused an operation. -/
  rejected : List Handler := []
  retries : Registry Retry := .empty
  ready : Bool := false
  connected : Bool := false
  hostId : Option String := none
  inFlight : List String := []
  fenced : Option (List String) := none
  saving : List String := []
  /-- The failures that were reopened; each can be put back. -/
  reopenings : List Intent := []
  disk : Registry Intent := .empty
  sent : List Sending := []
  deriving DecidableEq

namespace Intents

variable (o : Options)

def operations (s : Intents) : Nat :=
  s.queue.length + match s.running with
    | some (.writing ..) => 1
    | _ => 0

def put (s : Intents) (id : String) (intent : Intent) : Intents :=
  { s with records := s.records.set id intent }

def remove (s : Intents) (id : String) : Intents := { s with records := s.records.delete id }

def send (s : Intents) (intent : Intent) (cause : Cause) : Intents :=
  { s with sent := s.sent ++ [⟨intent, cause⟩] }

def isPending (s : Intents) (id : String) : Bool :=
  (s.records.get? id).any (·.state == .pending)

/-- Held back for a retry after a refusal. -/
def heldBack (s : Intents) (id : String) : Bool := (s.retries.get? id).any (·.cancel)

/-- Sent on the current connection and still waiting for its receipt. -/
def awaitingReceipt (s : Intents) (id : String) : Bool :=
  s.connected && (s.records.get? id).any (fun intent => intent.state == .pending &&
    !intent.delivered) && s.inFlight.contains id && !s.acknowledging.contains id && !s.heldBack id

/-- Whether new commands still wait behind ones that the old path owes receipts for. -/
def holding (s : Intents) : Bool × Intents :=
  match s.fenced with
  | none => (false, s)
  | some fenced =>
    let left := fenced.filter s.awaitingReceipt
    if left.isEmpty then (false, { s with fenced := none })
    else (true, { s with fenced := some left })

def pumpOne (s : Intents) (intent : Intent) : Intents :=
  let id := intent.command.id
  if s.inFlight.length ≥ 8 || intent.state != .pending || s.saving.contains id ||
      s.inFlight.contains id || s.acknowledging.contains id || s.heldBack id then s
  else { s with inFlight := addTo s.inFlight id }.send intent .pump

def pump (s : Intents) : Intents :=
  if !s.connected then s
  else
    let (held, s) := s.holding
    if held then s else s.records.values.foldl pumpOne s

def cancelRetry (s : Intents) (id : String) : Intents := { s with retries := s.retries.delete id }

def releaseSlot (s : Intents) (id : String) : Intents :=
  ({ s with inFlight := removeFrom s.inFlight id }.cancelRetry id).pump

/-- Queue an operation, unless there are too many: then `handler` hears of it. -/
def serialize (s : Intents) (operation : Operation) (handler : Handler) : Intents :=
  if s.operations ≥ o.limit * 2 then { s with rejected := s.rejected ++ [handler] }
  else { s with queue := s.queue ++ [operation] }

def settle (s : Intents) (handler : Handler) : Intents := { s with running := some (.settled handler) }

def write (s : Intents) (writes : List Write) (next : Continuation) : Intents :=
  { s with running := some (.writing writes next) }

/-! ### Calls -/

/-- A second call for the same id waits for the first and then calls again. -/
def enqueue (s : Intents) (id : String) (payload : Value) : Intents :=
  let command : Command := { id, deviceId := o.device, payload }
  if o.commandBytes command > o.frameBytes ||
      o.intentBytes { command, state := .saving } + 128 > o.bytes then s
  else
    let existing := s.records.get? id
    if existing.any (·.command ≠ command) || s.enqueuing.contains id then s
    else if existing.all (·.localFailure) then
      let s := if existing.isSome then s.remove id else s
      let s := s.put id { command, state := .saving }
      match evict o s.records (some id) with
      | (left, .error _) => { s with records := left }.remove id
      | (left, .ok evicted) =>
        { { s with records := left } with enqueuing := addTo s.enqueuing id }.serialize o
          (.enqueue command evicted) (.enqueued command (some "limit"))
    else { s with enqueuing := addTo s.enqueuing id }.serialize o (.enqueue command [])
      (.enqueued command (some "limit"))

def rewrite (s : Intents) (id : String) (payload : Value) : Intents :=
  s.serialize o (.rewrite id payload) .none

def acknowledge (s : Intents) (result : CommandResult) : Intents :=
  let s := s.cancelRetry result.commandId
  if s.acknowledging.contains result.commandId then s
  else { s with acknowledging := addTo s.acknowledging result.commandId }.serialize o
    (.acknowledge result) (.acknowledged result.commandId false)

def refuse (s : Intents) (id code : String) (retryable : Bool) : Intents :=
  if !s.isPending id then s
  else
    let retry := (s.retries.get? id).getD ⟨0, false⟩
    if !retryable || retry.attempt ≥ maxRetries then
      s.acknowledge o { commandId := id, ok := false, error := some code }
    else { s with
      inFlight := removeFrom s.inFlight id
      retries := s.retries.set id ⟨retry.attempt + 1, true⟩ }.pump

/-- The timer of a retry. -/
def retry (s : Intents) (id : String) : Intents :=
  match s.retries.get? id with
  | none => s
  | some retry =>
    let s := { s with retries := s.retries.set id { retry with cancel := false } }
    if s.isPending id then s.pump else s

/-- A command that the daemon runs again waits for another receipt without being sent. -/
def reopened (previous : Intent) : Intent :=
  { previous with state := .pending, error := none, result := none, waiting := false }

def reopen (s : Intents) (id : String) : Intents :=
  match s.records.get? id with
  | none => s
  | some previous =>
    if previous.state != .failed || previous.localFailure then s
    else { s.put id (reopened previous) with
      inFlight := addTo s.inFlight id
      reopenings := s.reopenings ++ [previous] }.serialize o (.save (reopened previous)) .none

/-- The daemon refused to run a reopened command. -/
def undo (s : Intents) (previous : Intent) : Intents :=
  let id := previous.command.id
  if !s.reopenings.contains previous || s.records.get? id ≠ some (reopened previous) then s
  else { s.put id previous with inFlight := removeFrom s.inFlight id }.serialize o
    (.save previous) .none

def deliveryFailed (s : Intents) (id error : String) : Intents :=
  match s.records.get? id with
  | none => s
  | some current =>
    if current.acknowledged || (current.state == .failed && current.error == some error) then s
    else s.serialize o (.deliveryFailed id error) .none

def waiting (s : Intents) (id : String) : Intents :=
  match s.records.get? id with
  | none => s
  | some previous =>
    if previous.state != .pending || previous.waiting then s
    else s.put id { previous with waiting := true }

/-- Whether an observation would change nothing. -/
def observed (intent : Intent) (acknowledged : Bool) : Bool :=
  intent.delivered && (!acknowledged || intent.acknowledged)

def observe (s : Intents) (id : String) (acknowledged : Bool) : Intents :=
  match s.records.get? id with
  | none => s
  | some current =>
    if observed current acknowledged then s else s.serialize o (.observe id acknowledged) .none

def fence (s : Intents) : List String × Intents :=
  (s.inFlight, { s with fenced := if s.inFlight.isEmpty then none else some s.inFlight })

def reaskOne (s : Intents) (id : String) : Intents :=
  match s.records.get? id with
  | some intent => if s.awaitingReceipt id then s.send intent .reask else s
  | none => s

def reask (s : Intents) (ids : List String) : Intents :=
  { ids.foldl reaskOne s with fenced := none }.pump

/-- No timer survives a change of the connection. -/
def cancelRetries (s : Intents) : Intents :=
  { s with retries := ⟨s.retries.entries.map fun entry => (entry.1, { entry.2 with cancel := false }),
      by simpa [Assoc.keys, Function.comp_def] using s.retries.nodup⟩ }

def disconnect (s : Intents) : Intents :=
  { s with connected := false, fenced := none, inFlight := [] }.cancelRetries

def replay (s : Intents) : Intents :=
  { s with connected := true, fenced := none, inFlight := [] }.cancelRetries.pump

/-! ### Operations as they run -/

def startEnqueue (s : Intents) (command : Command) (evictedBefore : List String) : Intents :=
  let id := command.id
  if !s.ready then s.settle (.enqueued command (some "storage"))
  else
    match (s.records.get? id).filter (·.state != .saving) with
    | some stored =>
      let s := if stored.state = .pending then s.pump
        else if s.connected then s.send stored .again else s
      s.settle (.enqueued command none)
    | none =>
      if o.hostBinding && s.hostId.isNone then s.settle (.enqueued command (some "offline"))
      else
        let intent : Intent :=
          { command, state := .pending, order := some (s.sequence + 1), hostId := s.hostId }
        let s := { s with sequence := s.sequence + 1 }
        match evict o s.records (some id) with
        | (left, .error error) =>
          { s with records := left }.settle (.enqueued command (some error))
        | (left, .ok evicted) =>
          { s with records := left, saving := addTo s.saving id }.write
            (persist intent (evictedBefore ++ evicted)) (.enqueue intent)

/-- New words for a send that failed. -/
def rewritten (previous : Intent) (payload : Value) : Intent :=
  { previous with
    command := { previous.command with payload }
    edited := previous.edited || previous.localFailure }

def startRewrite (s : Intents) (id : String) (payload : Value) : Intents :=
  match (s.records.get? id).filter (·.state == .failed) with
  | none => s.settle .none
  | some previous =>
    let before := previous.command.payload
    let type := before.field "type"
    let next := rewritten previous payload
    if (type != .str "thread.send" && type != .str "thread.create") ||
        payload.field "type" != type ||
        (type == .str "thread.send" && payload.field "threadId" != before.field "threadId") ||
        o.commandBytes next.command > o.frameBytes ||
        o.intentBytes { previous with command := next.command } + 128 > o.bytes then
      s.settle .none
    else (s.put id next).write (persist next []) (.rewrite id previous)

def answered (previous : Intent) (result : CommandResult) : Intent :=
  if previous.state = .pending then { previous with
    state := if result.ok then .acked else .failed
    error := result.error
    result := some result
    threadId := result.threadId }
  else { previous with result := some result }

def startAcknowledge (s : Intents) (result : CommandResult) : Intents :=
  let id := result.commandId
  match s.records.get? id with
  | none => s.settle (.acknowledged id true)
  | some previous =>
    let next := answered previous result
    let s := s.put id next
    match evict o s.records (some id) with
    | (left, .error _) =>
      ({ s with records := left }.put id previous).settle (.acknowledged id false)
    | (left, .ok evicted) =>
      { s with records := left }.write (persist next evicted) (.acknowledge result previous)

def undelivered (previous : Intent) (error : String) : Intent :=
  { previous with state := .failed, localFailure := true, error := some error }

def startDeliveryFailed (s : Intents) (id error : String) : Intents :=
  match (s.records.get? id).filter (!·.acknowledged) with
  | none => s.settle .none
  | some previous =>
    let next := undelivered previous error
    let s := s.put id next
    let (trimmed, removed) := trimFailed o s.records id
    match evict o trimmed (some id) with
    | (left, .error _) =>
      ({ s with records := left }.remove id).write (persist next [id]) (.deliveryFailed id previous)
    | (left, .ok evicted) =>
      { s with records := left }.write (persist next (removed ++ evicted))
        (.deliveryFailed id previous)

def delivered (previous : Intent) (acknowledged : Bool) : Intent :=
  if acknowledged then { previous with
    state := .acked, delivered := true, acknowledged := true, error := none, localFailure := false }
  else { previous with delivered := true }

def startObserve (s : Intents) (id : String) (acknowledged : Bool) : Intents :=
  match (s.records.get? id).filter (!observed · acknowledged) with
  | none => s.settle .none
  | some previous =>
    let next := delivered previous acknowledged
    (s.put id next).write (persist next []) (.observe id acknowledged previous)

/-- An operation, up to its first write. -/
def start (s : Intents) : Operation → Intents
  | .enqueue command evictedBefore => s.startEnqueue o command evictedBefore
  | .rewrite id payload => s.startRewrite o id payload
  | .acknowledge result => s.startAcknowledge o result
  | .save intent => s.write (persist intent []) (.save intent.command.id)
  | .deliveryFailed id error => s.startDeliveryFailed o id error
  | .observe id acknowledged => s.startObserve id acknowledged

/-- The rest of an operation, after its writes. -/
def resume (s : Intents) : Continuation → Intents
  | .enqueue intent =>
    let id := intent.command.id
    ({ s with saving := removeFrom s.saving id }.put id intent).pump.settle
      (.enqueued intent.command none)
  | .rewrite .. | .save _ => s.settle .none
  | .acknowledge result _ => s.settle (.acknowledged result.commandId true)
  | .deliveryFailed id _ =>
    (({ s with inFlight := removeFrom s.inFlight id }.cancelRetry id).pump).settle .none
  | .observe id acknowledged _ =>
    (if acknowledged then s.releaseSlot id
      else if s.fenced.any (·.contains id) then s.pump else s).settle .none

/-- A write failed: the record is again what it was. -/
def restore (s : Intents) : Continuation → Intents
  | .enqueue intent =>
    { s with saving := removeFrom s.saving intent.command.id }.settle
      (.enqueued intent.command (some "storage"))
  | .rewrite id previous | .deliveryFailed id previous | .observe id _ previous =>
    (s.put id previous).settle .none
  | .acknowledge result previous =>
    (s.put result.commandId previous).settle (.acknowledged result.commandId false)
  | .save _ => s.settle .none

/-- An enqueued command that could not be saved is kept in memory as a failure. -/
def keepFailed (s : Intents) (command : Command) (error : String) : Intents :=
  let id := command.id
  if (s.records.get? id).any (·.state == .saving) then
    let s := s.put id { command, state := .failed, localFailure := true, error := some error }
    match evict o (trimFailed o s.records id).1 (some id) with
    | (left, .ok _) => { s with records := left }
    | (left, .error _) => { s with records := left }.remove id
  else s

def handle (s : Intents) : Handler → Intents
  | .none => s
  | .enqueued command error =>
    let s := match error with
      | some error => s.keepFailed o command error
      | none => s
    { s with enqueuing := removeFrom s.enqueuing command.id }
  | .acknowledged id saved =>
    let s := { s with acknowledging := removeFrom s.acknowledging id }
    if saved then s.releaseSlot id else s

end Intents

/-! ### Runs -/

inductive Action where
  | enqueue (id : String) (payload : Value)
  | rewrite (id : String) (payload : Value)
  | refuse (id code : String) (retryable : Bool)
  | acknowledge (result : CommandResult)
  | reopen (id : String)
  | undo (previous : Intent)
  | deliveryFailed (id error : String)
  | waiting (id : String)
  | observe (id : String) (acknowledged : Bool)
  | fence
  | reask (ids : List String)
  | disconnect
  | replay
  /-- The connection learns which daemon it has. -/
  | verify (hostId : Option String)
  | retry (id : String)
  /-- The next operation starts. -/
  | start
  /-- A write ends, well or not. -/
  | write (ok : Bool)
  /-- The writes are over. -/
  | resume
  /-- The handler of the operation that ended. -/
  | handle
  /-- The handler of a call that was refused an operation. -/
  | reject
  deriving DecidableEq

namespace Intents

variable (o : Options)

def step (s : Intents) : Action → Option Intents
  | .enqueue id payload => some (s.enqueue o id payload)
  | .rewrite id payload => some (s.rewrite o id payload)
  | .refuse id code retryable => some (s.refuse o id code retryable)
  | .acknowledge result => some (s.acknowledge o result)
  | .reopen id => some (s.reopen o id)
  | .undo previous => some (s.undo o previous)
  | .deliveryFailed id error => some (s.deliveryFailed o id error)
  | .waiting id => some (s.waiting id)
  | .observe id acknowledged => some (s.observe o id acknowledged)
  | .fence => some s.fence.2
  | .reask ids => some (s.reask ids)
  | .disconnect => some s.disconnect
  | .replay => some s.replay
  | .verify hostId => some { s with hostId }
  | .retry id => if s.heldBack id then some (s.retry id) else none
  | .start =>
    match s.running, s.queue with
    | none, operation :: queue => some ({ s with queue }.start o operation)
    | _, _ => none
  | .write ok =>
    match s.running with
    | some (.writing ((id, value) :: writes) next) =>
      if ok then
        let disk := match value with
          | some intent => s.disk.set id intent
          | none => s.disk.delete id
        some ({ s with disk }.write writes next)
      else some (s.restore next)
    | _ => none
  | .resume =>
    match s.running with
    | some (.writing [] next) => some (s.resume next)
    | _ => none
  | .handle =>
    match s.running with
    | some (.settled handler) => some ({ s with running := none }.handle o handler)
    | _ => none
  | .reject =>
    match s.rejected with
    | handler :: rejected => some ({ s with rejected }.handle o handler)
    | [] => none

def run (s : Intents) (actions : List Action) : Option Intents := actions.foldlM (step o) s

end Intents

end Ace.Client
