import Ace.Script.Json
import Ace.Script.Schema

/-!
# Recognising ace's own tool calls

A provider may report a call of one of ace's tools under several spellings, or as a custom
call whose raw frames hold the name and the input. `normalizeAceCall` turns such a call into
an `mcp` call of the bare tool, with private input redacted. A result of `none` stands for a
thrown `TypeError`: the draft is not validated yet when it is read.
-/

namespace Ace

open Script

/-! ### Tool names -/

/-- `while (bare.startsWith("ace_")) bare = bare.slice("ace_".length)`. -/
def stripAce : List Char → List Char
  | 'a' :: 'c' :: 'e' :: '_' :: rest => stripAce rest
  | cs => cs

def mcpAce : List Char := "mcp__ace__".toList

def bareToolName (name : String) : String :=
  let cs := name.toList
  String.ofList (stripAce (if mcpAce.isPrefixOf cs then cs.drop mcpAce.length else cs))

def aceToolSearch : String := "tools_find"

def aceToolDispatch : String := "tools_call"

/-- `/^[a-z][a-z0-9_]{0,100}$/`. -/
def isToolName (name : String) : Bool :=
  match name.toList with
  | [] => false
  | c :: rest => ('a' ≤ c && c ≤ 'z') && decide (rest.length ≤ 100) &&
      rest.all fun c => ('a' ≤ c && c ≤ 'z') || c.isDigit || c == '_'

/-- Families some providers report without ace's namespace. -/
def bareFamilies : List (String × List String) := [
  ("browser_", ["open", "snapshot", "act", "wait_for", "find", "screenshot", "logs", "evaluate",
    "history", "settings", "measure"]),
  ("screen_", ["open_app", "windows", "ui_tree", "ui_act", "input", "screenshot", "measure",
    "apps", "state", "act"]),
  ("sim_", ["list", "start", "stop", "ui", "act", "screenshot", "logs"])]

/-- The bare name of an un-namespaced call when it is one of ace's. -/
def aceToolName (name : String) : Option String :=
  let bare := bareToolName name
  if !isToolName bare then none
  else if mcpAce.isPrefixOf name.toList || "ace_".toList.isPrefixOf name.toList then some bare
  else if bareFamilies.any fun (family, names) => names.any fun rest => family ++ rest == bare
  then some bare
  else none

/-- The tool an `mcp` detail names, when the server is ace's or was not reported. -/
def aceMcpToolName (server tool : Option String) : Option String :=
  if ["ace", "unknown", ""].contains (server.getD "") then
    let bare := bareToolName (tool.getD "")
    if isToolName bare then some bare else none
  else none

structure AceCall where
  name : String
  input : Value
  deriving DecidableEq

def plainRecord : Schema := Schema.record (fun _ => true) Schema.unknown

/-- `value ?? fallback`. -/
def coalesce (v fallback : Value) : Value :=
  match v with
  | .undefined | .null => fallback
  | v => v

def truthy : Value → Bool
  | .undefined | .null => false
  | .bool b => b
  | .num q => q ≠ 0
  | .nonFinite text => text ≠ "NaN"
  | .str s => s ≠ ""
  | _ => true

/-- The call a `tools_call` runs. Any other call is returned as it came. -/
def dispatchedAceCall (call : AceCall) : AceCall :=
  if bareToolName call.name ≠ aceToolDispatch then call
  else match call.input.field "name" with
    | .str target =>
      let bare := bareToolName target
      if bare = aceToolDispatch ∨ bare = aceToolSearch then call
      else { name := bare, input := coalesce (call.input.field "arguments") (.obj []) }
    | _ => call

/-! ### The call a draft describes -/

def callDetail : Schema := Schema.object [
  ("kind", Schema.anyText),
  ("server", Schema.optional Schema.anyText),
  ("tool", Schema.optional Schema.anyText),
  ("arguments", Schema.optional Schema.unknown)]

structure PendingFrame where
  value : Value
  depth : Nat
  inputJson : Bool := false

/-- The frames that raw payloads hold, newest first. A payload that is no object throws. -/
def rawFrames (raw : Value) : Option (List PendingFrame) :=
  match raw with
  | .undefined | .null => some []
  | .arr payloads =>
    (payloads.reverse.mapM fun payload =>
      if payload.isObject || payload.array?.isSome then
        some (if payload.hasOwn "data" then [{ value := payload.field "data", depth := 0 }] else [])
      else none).map List.flatten
  | _ => none

/-- The first of a frame's labels that names an ace tool. -/
def frameLabel (data : Value) : Option String :=
  (["toolName", "name", "nativeName", "title", "_toolName"].filterMap fun key =>
    (data.field key).string?.bind aceToolName).head?

def frameInput (data : Value) : Value :=
  coalesce (data.field "arguments") <| coalesce (data.field "args") <|
  coalesce (data.field "input") <| coalesce (data.field "rawInput") <|
  coalesce (data.field "currentInput") <|
    ((plainRecord (data.field "state")).getD .undefined).field "input"

/-- The input a partial frame carries as text. -/
def frameInputText (frame : PendingFrame) (data : Value) : Value :=
  match data.field "text" with
  | .str text =>
    if frame.inputJson && decide (utf16Length text ≤ 65536) then
      ((Json.parse text).bind plainRecord).getD .undefined
    else .undefined
  | _ => .undefined

/-- The frames nested in a frame, the last named first. -/
def nestedFrames (frame : PendingFrame) (data : Value) : List PendingFrame :=
  if frame.depth < 5 then
    (["initialFrame", "toolCall", "update", "params", "body", "data"].filterMap fun key =>
      if (data.field key).isUndefined then none
      else some { value := data.field key, depth := frame.depth + 1,
                  inputJson := data.field "type" == .str "session.tool.input.ended" }).reverse
  else []

/-- Search the pending frames, at most `fuel` of them. -/
def searchFrames (title : Option String) : Nat → List PendingFrame → Option AceCall
  | 0, _ => none
  | _ + 1, [] => none
  | fuel + 1, frame :: pending =>
    match plainRecord frame.value with
    | none => searchFrames title fuel pending
    | some data =>
      let name := (frameLabel data).or title
      let input := frameInput data
      let input := if input.isUndefined && name.isSome then frameInputText frame data else input
      match name, input.isUndefined with
      | some name, false =>
        some { name, input := ((plainRecord input).map fun wrapped =>
          coalesce (wrapped.field "args") input).getD input }
      | _, _ => searchFrames title fuel (nestedFrames frame data ++ pending)

/-- The ace tool a call names, or throws. -/
def calledAceTool (call : Value) : Option (Option AceCall) :=
  let detail := callDetail (call.field "detail")
  let kind := detail.bind fun detail => (detail.field "kind").string?
  let mcp := (detail.filter fun _ => kind = some "mcp").bind fun detail =>
    (aceMcpToolName (detail.field "server").string? (detail.field "tool").string?).map fun name =>
      AceCall.mk name (coalesce (detail.field "arguments") (.obj []))
  match mcp with
  | some called => some (some called)
  | none =>
    if kind ≠ some "custom" ∧ call.field "kind" ≠ .str "custom" then some none
    else match coalesce (call.field "title") (.str "") with
      | .str title => do
        let title := aceToolName title
        let frames ← rawFrames (call.field "raw")
        return (searchFrames title 64 frames).or (title.map fun name => ⟨name, .obj []⟩)
      | _ => none

/-- The ace tool a call ran and its input, or throws. -/
def aceToolInput (call : Value) : Option (Option AceCall) :=
  (calledAceTool call).map (·.map dispatchedAceCall)

/-! ### Private input -/

/-- A computer-use step that carries typed, pasted, set or selected text. -/
def privateStep (entry : Value) : Bool :=
  match plainRecord entry with
  | some step => ["type", "paste", "set_value", "select_text"].any fun name =>
      step.field "type" == .str name
  | none => false

/-- Whether a call's input is typed text or markup that must never be stored. -/
def privateAceInput (call : AceCall) : Bool :=
  let call := dispatchedAceCall call
  let name := bareToolName call.name
  let payload := plainRecord call.input
  let member (key : String) : Value := (payload.getD .undefined).field key
  let action := plainRecord (coalesce (member "action") (member "interaction"))
  if "_measure".toList.isSuffixOf name.toList &&
      action.any (fun action => action.hasOwn "text" || action.hasOwn "value") then true
  else if name = "html_render" ∨ name = "html_preview" ∨ name = "image_show" then true
  else if name = "screen_act" then ((member "actions").array?.getD []).any privateStep
  else ["screen_input", "screen_ui_act", "sim_act", "browser_act"].contains name &&
    payload.isSome && ["text", "value", "promptText"].any fun key => !(member key).isUndefined

def redactKeys (keys : List String) (fields : List (String × Value)) : List (String × Value) :=
  fields.map fun (key, child) =>
    (key, if keys.contains key then .str "[redacted]" else child)

def secretKeys : List String := ["text", "value", "html", "title", "promptText"]

def redactStep (entry : Value) : Value :=
  match plainRecord entry with
  | some step =>
    if privateStep step then .obj (redactKeys ["text", "value", "prefix", "suffix"] step.fields)
    else entry
  | none => entry

/-- The redaction of an input that no dispatch wraps. -/
def redactInput (call : AceCall) : Value :=
  match plainRecord call.input with
  | none => .obj [("redacted", .bool true)]
  | some parsed =>
    -- An image's bytes, alt text and caption reach the transcript only through its item.
    let keys := if bareToolName call.name = "image_show" then ["data", "alt", "caption"]
      else secretKeys
    let redacted := Value.obj (redactKeys keys parsed.fields)
    let redacted := match redacted.field "actions" with
      | .arr steps => redacted.setField "actions" (.arr (steps.map redactStep))
      | _ => redacted
    ["action", "interaction"].foldl (fun redacted field =>
      match plainRecord (redacted.field field) with
      | some action => redacted.setField field (.obj (redactKeys secretKeys action.fields))
      | none => redacted) redacted

def redactAceArguments (call : AceCall) : Value :=
  if !privateAceInput call then call.input
  else
    let target := dispatchedAceCall call
    if bareToolName call.name = aceToolDispatch ∧ target.name ≠ call.name then
      call.input.setField "arguments"
        (if privateAceInput target then redactInput target else target.input)
    else redactInput call

/-- The raw payload that replaces one with private input. -/
def privateRaw : Value :=
  .arr [.obj [("type", .str "ace.private-input"), ("data", .obj [("redacted", .bool true)])]]

/-- A refresh of a known `mcp` call keeps what it does not mention. -/
def inheritCall (call previous : Value) : Option Value := do
  let incoming ← aceToolInput call
  let detail := previous.field "detail"
  let merged := Value.spread
    [("kind", previous.field "kind"), ("title", previous.field "title"), ("detail", detail)]
    call.fields
  let empty := incoming.any fun incoming =>
    (plainRecord incoming.input).any fun input => input.fields.isEmpty
  return .obj (if empty then Assoc.put "detail" detail merged else merged)

/-- Conservative redaction happens before raw payloads can be exported or snapshotted. -/
def normalizeAceCall (call : Value) (previous : Option Value) : Option Value := do
  let call ← match previous with
    | some previous =>
      if (previous.field "detail").field "kind" == .str "mcp" then inheritCall call previous
      else some call
    | none => some call
  match ← aceToolInput call with
  | none => return call
  | some tool =>
    let detail := Value.obj [("kind", .str "mcp"), ("server", .str "ace"),
      ("tool", .str tool.name), ("arguments", redactAceArguments tool)]
    let fields := Value.spread call.fields [("kind", .str "mcp"), ("detail", detail)]
    if privateAceInput tool then
      return .obj (Value.spread fields ([("title", .str tool.name)] ++
        (if truthy (call.field "error") then [("error", Value.str "Ace input failed")] else []) ++
        [("raw", privateRaw)]))
    else return .obj fields

/-- Approval previews can also echo private input. `none` when nothing is redacted. -/
def redactAceApproval (request : Value) : Option Value :=
  let target := request.field "target"
  if request.field "kind" ≠ .str "approval" ∨ !truthy target then none
  else
    let tool := (target.field "tool").string?.getD ""
    let owned := target.field "origin" == .str "ace" || mcpAce.isPrefixOf tool.toList ||
      (request.field "mcpServer").field "name" == .str "ace"
    let name := bareToolName tool
    let call : AceCall := ⟨name, target.field "input"⟩
    if !owned ∨ name = "" ∨ !privateAceInput call then none
    else some (.obj (Value.spread request.fields [
      ("title", .str "Approve computer input"),
      ("description", .str "Input content is redacted."),
      ("target", .obj (Value.spread target.fields [
        ("input", redactAceArguments call),
        ("description", .str "Input content is redacted.")]))]))

end Ace
