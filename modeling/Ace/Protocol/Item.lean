import Ace.Script.Value

/-!
# Reading items

A canonical item is a parsed script value. These are the members the reducer and the
projection read, under their names, and the writes they make into a nested member.
-/

namespace Ace.Item

open Script

def id (item : Value) : String := (item.field "id").string?.getD ""

def agentId (item : Value) : String := (item.field "agentId").string?.getD ""

def runId (item : Value) : Option String := (item.field "runId").string?

def createdAt (item : Value) : Value := item.field "createdAt"

def complete (item : Value) : Bool := item.field "complete" == .bool true

/-- `item.type === name`. -/
def hasType (item : Value) (name : String) : Bool := item.field "type" == .str name

def isToolCall (item : Value) : Bool := hasType item "tool_call"

/-- `item.role === "assistant"`. -/
def isAssistant (item : Value) : Bool := item.field "role" == .str "assistant"

def call (item : Value) : Value := item.field "call"

def detail (item : Value) : Value := (call item).field "detail"

/-- `item.call.detail.kind === name` for a tool call. -/
def hasDetail (item : Value) (name : String) : Bool :=
  isToolCall item && (detail item).field "kind" == .str name

def callStatus (item : Value) : Value := (call item).field "status"

/-- `["running", "pending", "awaiting_approval"].includes(status)`. -/
def isLiveStatus (status : Value) : Bool :=
  status == .str "running" || status == .str "pending" || status == .str "awaiting_approval"

/-- A tool call that has not ended. -/
def isLiveTool (item : Value) : Bool := isToolCall item && isLiveStatus (callStatus item)

def startedAt (item : Value) : ℚ :=
  match (call item).field "startedAt" with
  | .num q => q
  | _ => 0

def createdAtNumber (item : Value) : ℚ :=
  match createdAt item with
  | .num q => q
  | _ => 0

/-- `detail.childAgentId` of a spawning call. -/
def childAgentId (item : Value) : Option String := ((detail item).field "childAgentId").string?

def targetAgentId (item : Value) : Option String := ((detail item).field "targetAgentId").string?

def setCall (item : Value) (f : Value → Value) : Value := item.setField "call" (f (call item))

/-- `item.call.detail[name] = value`. -/
def setDetail (item : Value) (name : String) (value : Value) : Value :=
  setCall item fun call => call.setField "detail" ((call.field "detail").setField name value)

/-- `delete item.call.detail.output`. -/
def eraseOutput (item : Value) : Value :=
  setCall item fun call => call.setField "detail" ((call.field "detail").eraseField "output")

def setBackgroundTaskId (item : Value) (taskId : String) : Value :=
  setCall item fun call => call.setField "backgroundTaskId" (.str taskId)

end Ace.Item
