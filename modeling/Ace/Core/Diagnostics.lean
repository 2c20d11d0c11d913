import Ace.Core.Tree

/-!
# Rejected facts

A rejected fact becomes a notice of the root agent. It creates no agent and refreshes no
liveness; without a root it waits for the first one.
-/

namespace Ace

open Script

def unsupported (what : String) : Value := .obj [("unsupported", .str what)]

mutual
/-- Preserve JSON data verbatim, and describe values JSON cannot represent. -/
def diagnosticData : Value → Nat → Value
  | .undefined, _ => unsupported "undefined"
  | .nonFinite text, _ => unsupported text
  | .foreign kind, _ => unsupported kind
  | .circular, _ => unsupported "circular reference"
  | .unreadable, depth =>
    unsupported (if depth > 100 then "excessive nesting" else "unreadable object")
  | .arr vs, depth =>
    if depth > 100 then unsupported "excessive nesting" else .arr (diagnosticList vs (depth + 1))
  | .obj fs, depth =>
    if depth > 100 then unsupported "excessive nesting" else .obj (diagnosticFields fs (depth + 1))
  | .exotic fs, depth =>
    if depth > 100 then unsupported "excessive nesting" else .obj (diagnosticFields fs (depth + 1))
  | .getter _, _ => unsupported "accessor"
  | .throwingGetter, _ => unsupported "accessor"
  | v, _ => v

def diagnosticList : List Value → Nat → List Value
  | [], _ => []
  | v :: vs, depth => diagnosticData v depth :: diagnosticList vs depth

def diagnosticFields : List (String × Value) → Nat → List (String × Value)
  | [], _ => []
  | (k, v) :: fs, depth => (k, diagnosticData v depth) :: diagnosticFields fs depth
end

/-- `ace:notice:<id>`, extended until no item has it. -/
def noticeKey (items : Dictionary Value) : Nat → Key → Key
  | 0, key => key
  | fuel + 1, key => if items.contains key then noticeKey items fuel (key ++ ":") else key

def noticeItem (id agentId : String) (runId : Option String) (notice : PendingNotice) : Value :=
  .obj ([("id", .str id), ("agentId", .str agentId), ("complete", .bool true)] ++
    Value.optionalField "runId" (runId.map .str) ++
    [("type", .str "notice"), ("level", .str "warning"), ("createdAt", .nat notice.createdAt),
      ("text", .str notice.text), ("raw", .arr notice.raw)])

def publishNotice (ctx : ApplyContext) (owner : AgentRecord) (notice : PendingNotice)
    (runId : Option String) : Fold Key := do
  let id ← nextId ctx .item
  let items := (← getState).items
  let key := noticeKey items (items.keys.length + 1) ("ace:notice:" ++ id)
  let item := noticeItem id owner.agent.id runId notice
  changeState fun state => { state with items := state.items.put key item }
  emit (.itemCreated item)
  return key

/-- A repeated rejection keeps the raw facts of its first few occurrences. -/
def repeatRawLimit : Nat := 10

/-- `input.type` where it is a string; `none` when reading it throws. -/
def factType (input : Value) : Option String :=
  match input with
  | .unreadable => none
  | input =>
    match input.field "type" with
    | .throwingGetter => none
    | .getter (.str type) => some type
    | .str type => some type
    | _ => some ""

/-- The text and raw facts of a notice that is rejected again. -/
def repeatedItem (item : Value) (text : String) (count : Nat) (raw : Value) : Value :=
  let item := item.setField "text" (.str (text ++ " (" ++ toString count ++ " times)"))
  match item.field "raw" with
  | .arr payloads =>
    if payloads.length < repeatRawLimit then item.setField "raw" (.arr (payloads ++ [raw]))
    else item
  | _ => item

/-- The notices of the current root run. -/
def currentNotices (state : ThreadState) (run : String) : RejectionNotices :=
  match state.rejectionNotices with
  | some known => if known.run = run then known else { run, notices := .empty }
  | none => { run, notices := .empty }

def putNotice (notices : RejectionNotices) (signature : String) (notice : RejectionNotice) :
    Fold PUnit :=
  let updated := { notices with notices := notices.notices.put signature notice }
  changeState fun state => { state with rejectionNotices := some updated }

/-- Rejection never creates agents or refreshes liveness. -/
def rejectFact (ctx : ApplyContext) (input : Value) (reason : String) : Fold PUnit := do
  let state ← getState
  let text := "Ignored adapter fact: " ++ reason
  let raw := Value.obj [("type", .str "core.rejected_fact"), ("data", diagnosticData input 0)]
  let notice : PendingNotice := { createdAt := ctx.now, text, raw := [raw] }
  match state.rootKey.bind state.agents.get? with
  | none => changeState fun state => { state with
      pendingNotices := state.pendingNotices ++ [notice] }
  | some owner =>
    -- An adapter that re-sends a fact core cannot accept must not flood the transcript.
    let notices := currentNotices state (owner.activeRun.getD "")
    changeState fun state => { state with rejectionNotices := some notices }
    match factType input with
    | none => throw .typeError
    | some type =>
      let signature := type ++ "\u0000" ++ reason
      let known := notices.notices.get? signature
      let item := known.bind fun known => state.items.get? known.item
      match known, item.filter (Item.hasType · "notice") with
      | some known, some item =>
        let count := known.count + 1
        putNotice notices signature { known with count }
        updateItem known.item (repeatedItem item text count raw)
      | _, _ =>
        let key ← publishNotice ctx owner notice owner.activeRun
        putNotice notices signature { item := key, count := 1 }

/-- Deferred warnings join the first root established by valid provider facts. -/
def flushNotices (ctx : ApplyContext) : Fold PUnit := do
  let state ← getState
  match state.rootKey.bind state.agents.get? with
  | none => return
  | some owner =>
    state.pendingNotices.forM fun notice => do
      let _ ← publishNotice ctx owner notice none
    changeState fun state => { state with pendingNotices := [] }

end Ace
