import Ace.Script.Schema

/-!
# Wire schemas of the entities that facts and items carry

One definition for each schema of the protocol package that the reducer validates
against, with the bounds and the member order of the source. Identifiers are branded
nonempty strings there; here they are nonempty strings.
-/

namespace Ace.Protocol

open Script Script.Schema

/-! ### Identifiers and shared leaves -/

def identifier : Schema := nonemptyText

def threadId : Schema := identifier
def runId : Schema := identifier
def agentId : Schema := identifier
def itemId : Schema := identifier
def interactionId : Schema := identifier
def backgroundTaskId : Schema := identifier
def commandId : Schema := identifier
def deviceId : Schema := identifier
def hostId : Schema := identifier

def timestamp : Schema := nonnegativeInteger

def nativeSessionId : Schema := textBetween 1 512

/-- A nonnegative integer that a double holds exactly. -/
def size : Schema := integerBetween 0 maxSafeInteger

def positiveSize : Schema := integerBetween 1 maxSafeInteger

def providerKind : Schema :=
  enumeration ["claude", "codex", "opencode", "cursor", "antigravity", "acp", "pi"]

def inlineRawPayload : Schema := requireMember "data"
  (object [("type", anyText), ("name", optional anyText), ("data", unknown)])

def rawPayload : Schema := union [
  inlineRawPayload,
  object [
    ("type", anyText), ("name", optional anyText), ("blobRef", nonemptyText),
    ("size", nonnegativeInteger),
    ("preview", text fun s => decide (s.utf8ByteSize ≤ 2048))]]

def raw : Schema := array rawPayload

/-- `raw` with its default. -/
def rawDefault : Schema := withDefault raw (.arr [])

def isHexDigit (c : Char) : Bool := c.isDigit || ('a' ≤ c && c ≤ 'f')

def blobHash : Schema := text fun s => s.toList.length == 64 && s.toList.all isHexDigit

def attachment : Schema := object [
  ("sha256", blobHash),
  ("bytes", size),
  ("mimeType", textUpTo 128),
  ("name", textUpTo 255),
  ("kind", optional (enumeration ["image", "pdf", "text", "binary"])),
  ("delivery", optional (enumeration ["native_image", "native_pdf", "native_resource",
    "inline_text", "inline_text_and_path", "file_path"])),
  ("width", optional positiveSize),
  ("height", optional positiveSize),
  ("thumbnailAvailable", optional boolean)]

/-! ### Agents, runs and threads -/

def acpIdentityPartial : List (String × Schema) := [
  ("acpAgentId", optional (textBetween 1 256)),
  ("installationId", optional (textBetween 1 256)),
  ("instanceId", optional (textBetween 1 256))]

def nativeRef : Schema := object (
  [("provider", providerKind)] ++ acpIdentityPartial ++ [
  ("nativeId", optional anyText),
  ("path", optional anyText),
  ("forkedFromNativeId", optional (textBetween 1 1024)),
  ("aliases", optional (array anyText))])

def agentActivity : Schema :=
  enumeration ["thinking", "responding", "tool", "compacting", "retrying", "starting_turn"]

def blockedReason : Schema := enumeration ["human", "subagents", "queue", "background_task",
  "rate_limit", "network", "upstream"]

def providerErrorDetails : Schema := object [
  ("code", textBetween 1 256),
  ("provider", providerKind),
  ("title", optional (textUpTo 256)),
  ("detail", optional (textUpTo 2048)),
  ("model", optional (textBetween 1 256))]

def agentError : Schema := object [
  ("kind", enumeration ["provider", "auth", "quota", "network", "process_exit", "unknown"]),
  ("message", anyText),
  ("code", optional anyText),
  ("title", optional anyText),
  ("detail", optional anyText),
  ("details", optional providerErrorDetails)]

def agentStatus : Schema := discriminated "state" [
  (["starting"], object [("state", literal "starting")]),
  (["working"], object [("state", literal "working"), ("activity", agentActivity),
    ("itemId", optional itemId), ("detail", optional anyText)]),
  (["blocked"], object [("state", literal "blocked"), ("on", blockedReason),
    ("refs", withDefault (array anyText) (.arr [])), ("until", optional timestamp),
    ("attempt", optional positiveInteger), ("message", optional anyText)]),
  (["idle"], object [("state", literal "idle")]),
  (["interrupted"], object [("state", literal "interrupted")]),
  (["failed"], object [("state", literal "failed"), ("error", agentError)]),
  (["unresponsive"], object [("state", literal "unresponsive"), ("lastSignalAt", timestamp)])]

def queueFactsPartial : List (String × Schema) := [
  ("slotLimit", optional (integerBetween 1 64)),
  ("slotsInUse", optional nonnegativeInteger),
  ("queuePosition", optional positiveInteger)]

def threadStatus : Schema := discriminated "state" [
  (["needs_you"], object [("state", literal "needs_you"), ("interactions", positiveInteger)]),
  (["working"], object [("state", literal "working"), ("agents", positiveInteger)]),
  (["waiting"], object ([("state", literal "waiting"),
    ("on", enumeration ["background_task", "rate_limit", "network", "upstream", "queue"])] ++
    queueFactsPartial)),
  (["limited"], object [("state", literal "limited"), ("until", optional timestamp)]),
  (["failed"], object [("state", literal "failed")]),
  (["unresponsive"], object [("state", literal "unresponsive")]),
  (["done"], object [("state", literal "done")]),
  (["new"], object [("state", literal "new")])]

def agentFidelity : Schema := enumeration ["full", "summary", "placeholder"]

def agentOrigin : Schema := enumeration ["root", "provider_subagent", "ace"]

def agentMachine : Schema := object [
  ("machine", textBetween 1 64),
  ("name", textBetween 1 256),
  ("hostId", optional hostId),
  ("contact", optional (enumeration ["lost", "unconfirmed"]))]

def forkPoint : Schema := discriminated "type" [
  (["turn"], object [("type", literal "turn"), ("runId", runId)]),
  (["item"], object [("type", literal "item"), ("itemId", itemId)])]

def threadLineage : Schema := object [
  ("parentThreadId", threadId),
  ("parentAgentId", agentId),
  ("point", forkPoint),
  ("mode", enumeration ["native", "portable"]),
  ("lossy", boolean)]

def agent : Schema := object [
  ("id", agentId),
  ("threadId", threadId),
  ("childThreadId", optional threadId),
  ("machine", optional agentMachine),
  ("parentId", nullable agentId),
  ("origin", agentOrigin),
  ("lineage", optional threadLineage),
  ("native", nativeRef),
  ("fidelity", agentFidelity),
  ("spawnedBy", optional (nullable itemId)),
  ("name", optional anyText),
  ("role", optional anyText),
  ("model", optional anyText),
  ("cwd", anyText),
  ("status", agentStatus),
  ("background", withDefault boolean (.bool false)),
  ("createdAt", timestamp),
  ("endedAt", optional timestamp)]

def runTrigger : Schema := enumeration ["user", "restart", "limit_resume", "spawn",
  "parent_agent", "background_completion", "subagent_result", "goal", "queue", "schedule",
  "unknown"]

def permissionMode : Schema := textBetween 1 4096

def providerGoal : Schema := object [
  ("objective", textBetween 1 4000),
  ("status", enumeration ["active", "paused", "blocked", "usage_limited", "budget_limited",
    "complete"]),
  ("tokensUsed", optional size),
  ("tokenBudget", optional size),
  ("timeUsedSeconds", optional size),
  ("checks", optional size),
  ("lastReason", optional (textUpTo 4000)),
  ("setAt", optional timestamp)]

/-! ### Background tasks and interactions -/

def backgroundTaskKind : Schema := enumeration ["shell", "monitor", "subagent", "other"]

def listeningPorts : Schema := arrayUpTo (integerBetween 1 65535) 16

def approvalTarget : Schema := object [
  ("tool", textBetween 1 256),
  ("origin", optional (literal "ace")),
  ("description", optional (textUpTo 2048)),
  ("riskClass", optional (enumeration ["read-only", "thread-write", "agent-execution",
    "external-effect"])),
  ("command", optional (textUpTo 32768)),
  ("cwd", optional (textUpTo 4096)),
  ("paths", optional (arrayUpTo (textBetween 1 4096) 128)),
  ("access", enumeration ["read", "write", "execute", "unknown"]),
  ("input", optional unknown)]

def approvalOption : Schema := object [
  ("id", anyText),
  ("label", anyText),
  ("kind", enumeration ["allow_once", "allow_session", "allow_always", "deny", "deny_always",
    "cancel"])]

def todoEntry : Schema := object [
  ("id", optional anyText),
  ("content", anyText),
  ("status", enumeration ["pending", "in_progress", "completed", "cancelled"])]

def question : Schema := object [
  ("id", anyText),
  ("header", optional anyText),
  ("text", anyText),
  ("options", array (object [("id", anyText), ("label", anyText),
    ("description", optional anyText)])),
  ("multiSelect", withDefault boolean (.bool false)),
  ("allowOther", withDefault boolean (.bool false)),
  ("secret", withDefault boolean (.bool false))]

def approvalRequest : List (String × Schema) := [
  ("kind", literal "approval"),
  ("target", optional approvalTarget),
  ("title", anyText),
  ("description", optional anyText),
  ("options", array approvalOption),
  ("defaultToNo", optional boolean),
  ("suppressAlwaysAllowRule", optional boolean),
  ("mcpServer", optional (looseObject [("name", anyText), ("source", anyText)])),
  ("permissionUpdates", optional (array unknown))]

def interactionRequest : Schema := discriminated "kind" [
  (["approval"], object approvalRequest),
  (["question"], object [("kind", literal "question"), ("questions", array question),
    ("target", optional approvalTarget)]),
  (["plan_review"], object [("kind", literal "plan_review"), ("title", optional anyText),
    ("summary", optional anyText), ("markdown", anyText), ("planPath", optional anyText),
    ("todos", optional (array todoEntry))]),
  (["elicitation"], object [("kind", literal "elicitation"), ("server", anyText),
    ("message", anyText), ("url", optional anyText), ("schema", optional unknown),
    ("mode", optional (enumeration ["form", "url"])), ("nativeId", optional anyText),
    ("title", optional anyText), ("description", optional anyText)]),
  (["browser_help"], object [("kind", literal "browser_help"),
    ("target", optional approvalTarget), ("tabId", textBetween 1 256),
    ("reason", enumeration ["login", "captcha", "two_factor", "dialog", "other"]),
    ("message", textUpTo 1000), ("url", optional (textUpTo 8192)),
    ("title", optional (textUpTo 1024))])]

def interactionResolution : Schema := discriminated "kind" [
  (["approval"], object [("kind", literal "approval"), ("optionId", anyText),
    ("message", optional anyText)]),
  (["question"], object [("kind", literal "question"),
    ("answers", record (fun _ => true) (array anyText)), ("dismissed", optional boolean),
    ("feedback", optional (textUpTo 8192))]),
  (["plan_review"], object [("kind", literal "plan_review"),
    ("decision", enumeration ["approve", "reject", "cancel"]), ("feedback", optional anyText)]),
  (["elicitation"], object [("kind", literal "elicitation"),
    ("action", enumeration ["accept", "decline", "cancel"]), ("content", optional unknown)]),
  (["browser_help"], object [("kind", literal "browser_help"),
    ("outcome", enumeration ["done", "skipped"])])]

/-! ### Usage -/

def usageIdentifier : Schema := textBetween 1 512

def usageUpdated : Schema := refine (object [
  ("usageScope", optional (enumeration ["agent", "provider_session", "model_session"])),
  ("counterKey", optional usageIdentifier),
  ("contextTokens", optional size),
  ("contextSessionId", optional usageIdentifier),
  ("reasoningTokens", optional size),
  ("cacheWriteTokens", optional size),
  ("cacheWrite1hTokens", optional size),
  ("model", optional nonemptyText),
  ("accountId", optional usageIdentifier),
  ("billingMode", optional (enumeration ["api", "subscription", "unknown"])),
  ("counterMode", optional (enumeration ["cumulative", "incremental"])),
  ("type", literal "usage.updated"),
  ("agentId", agentId),
  ("inputTokens", size),
  ("outputTokens", size),
  ("cachedInputTokens", optional size),
  ("contextWindow", optional positiveInteger),
  ("costUsd", optional nonnegative)])
  -- Inclusive usage snapshots require a counter key.
  fun usage => (usage.field "usageScope").isUndefined ||
    usage.field "usageScope" == .str "agent" || !(usage.field "counterKey").isUndefined

def contextSampled : Schema := object [
  ("type", literal "context.sampled"),
  ("agentId", agentId),
  ("usedTokens", nonnegativeInteger),
  ("windowTokens", optional positiveInteger),
  ("sessionId", optional anyText),
  ("model", optional anyText)]

/-! ### Tools -/

def toolKind : Schema := enumeration ["shell", "file.read", "file.edit", "file.write",
  "file.delete", "file.move", "search", "web.search", "web.fetch", "mcp", "agent.spawn",
  "agent.message", "todo", "plan", "ask_user", "browser", "image", "notebook", "custom"]

def toolStatus : Schema := enumeration ["pending", "awaiting_approval", "running", "succeeded",
  "failed", "declined", "cancelled"]

def fileChange : Schema := object [
  ("path", anyText),
  ("kind", enumeration ["add", "update", "delete", "move"]),
  ("movePath", optional anyText),
  ("diff", optional anyText),
  ("oldText", optional (nullable anyText)),
  ("newText", optional anyText)]

def outputSummary : Schema := object [
  ("streamId", nonemptyText),
  ("bytes", size),
  ("tail", text fun s => decide (s.utf8ByteSize ≤ 4096)),
  ("truncated", boolean)]

def shellDetail : List (String × Schema) := [
  ("kind", literal "shell"),
  ("command", anyText),
  ("rawCommand", optional anyText),
  ("cwd", optional anyText),
  ("exitCode", optional (nullable integer)),
  ("output", optional outputSummary)]

def agentSpawnDetail : List (String × Schema) := [
  ("kind", literal "agent.spawn"),
  ("description", optional anyText),
  ("prompt", optional anyText),
  ("agentType", optional anyText),
  ("childAgentId", optional agentId)]

def agentMessageDetail : List (String × Schema) := [
  ("kind", literal "agent.message"),
  ("targetAgentId", optional agentId),
  ("message", optional anyText)]

def toolDetail : Schema := discriminated "kind" [
  (["shell"], object shellDetail),
  (["file.read"], object [("kind", literal "file.read"), ("path", anyText),
    ("range", optional (object [("start", integer), ("end", integer)]))]),
  (["file.edit", "file.write", "file.delete", "file.move"], object [
    ("kind", enumeration ["file.edit", "file.write", "file.delete", "file.move"]),
    ("changes", array fileChange)]),
  (["search"], object [("kind", literal "search"), ("query", anyText), ("path", optional anyText),
    ("matches", optional integer), ("scope", optional (literal "tools"))]),
  (["web.search"], object [("kind", literal "web.search"), ("query", anyText)]),
  (["web.fetch"], object [("kind", literal "web.fetch"), ("url", anyText)]),
  (["mcp"], object [("kind", literal "mcp"), ("server", anyText), ("tool", anyText),
    ("arguments", optional unknown)]),
  (["agent.spawn"], object agentSpawnDetail),
  (["agent.message"], object agentMessageDetail),
  (["todo"], object [("kind", literal "todo"), ("todos", array todoEntry)]),
  (["plan"], object [("kind", literal "plan"), ("markdown", optional anyText),
    ("todos", optional (array todoEntry))]),
  (["ask_user"], object [("kind", literal "ask_user")]),
  (["image"], object [("kind", literal "image"), ("path", optional (textUpTo 4096)),
    ("sourcePath", optional (textUpTo 4096)), ("attachment", optional attachment),
    ("unavailable", optional anyText)]),
  (["browser", "notebook", "custom"], object [
    ("kind", enumeration ["browser", "notebook", "custom"])])]

def toolResult : Schema := object [
  ("isError", boolean),
  ("content", arrayUpTo (discriminated "type" [
    (["text"], object [("type", literal "text"), ("text", textUpTo 32768)]),
    (["image"], object [("type", literal "image"), ("attachment", attachment)])]) 16),
  ("structuredContent", optional unknown),
  ("durationMs", nonnegative),
  ("target", optional (object [("bundleId", textUpTo 256),
    ("windowId", optional nonnegativeInteger), ("displayName", textUpTo 256)])),
  ("mode", optional (enumeration ["background", "foreground"])),
  ("scale", optional (number fun q => decide (0 < q))),
  ("size", optional (object [("width", integerBetween 1 16384),
    ("height", integerBetween 1 16384)]))]

def toolCall : List (String × Schema) := [
  ("id", itemId),
  ("agentId", agentId),
  ("kind", toolKind),
  ("title", anyText),
  ("status", toolStatus),
  ("detail", toolDetail),
  ("backgroundTaskId", optional backgroundTaskId),
  ("error", optional anyText),
  ("result", optional toolResult),
  ("startedAt", timestamp),
  ("endedAt", optional timestamp),
  ("raw", raw)]

/-! ### Item content -/

def isPaletteCharacter (c : Char) : Bool :=
  c.isAlphanum || c == '_' || c == '.' || c == ':' || c == '-'

def isPaletteName (s : String) : Bool :=
  decide (1 ≤ utf16Length s ∧ utf16Length s ≤ 128) && s.toList.all isPaletteCharacter

def promptValue : Schema := union [textUpTo 16384, number fun _ => true, boolean]

def atMostEntries (n : Nat) (v : Value) : Bool := decide (v.fields.length ≤ n)

def promptArguments : Schema := refine (record isPaletteName promptValue) (atMostEntries 64)

/-- `typeof value === name`. -/
def hasType (v : Value) (name : Value) : Bool :=
  match v, name with
  | .str _, .str "string" => true
  | .num _, .str "number" => true
  | .bool _, .str "boolean" => true
  | _, _ => false

def promptArgument : Schema := refine (object [
  ("type", enumeration ["string", "number", "boolean"]),
  ("required", withDefault boolean (.bool false)),
  ("default", optional promptValue)])
  fun v => (v.field "default").isUndefined || hasType (v.field "default") (v.field "type")

def paletteArguments : Schema := refine (record isPaletteName promptArgument) (atMostEntries 64)

def catalogInvocation : Schema := discriminated "type" [
  (["slash"], object [("type", literal "slash"), ("name", textBetween 1 256)]),
  (["skill"], object [("type", literal "skill"), ("name", textBetween 1 256),
    ("path", textBetween 1 4096)]),
  (["mention"], object [("type", literal "mention"), ("name", textBetween 1 256),
    ("path", textBetween 1 4096)]),
  (["plugin"], object [("type", literal "plugin"), ("name", textBetween 1 256)]),
  (["agent"], object [("type", literal "agent"), ("name", textBetween 1 256)]),
  (["tool"], object [("type", literal "tool"), ("name", textBetween 1 256),
    ("server", textUpTo 256)]),
  (["prompt"], object [("type", literal "prompt"), ("commandId", textBetween 1 256),
    ("parameters", optional paletteArguments)]),
  (["action"], object [("type", literal "action"), ("action", textBetween 1 128)]),
  (["unavailable"], object [("type", literal "unavailable"), ("reason", textBetween 1 2048)])]

def catalogMention : Schema := object [
  ("type", literal "mention"),
  ("entryId", textBetween 1 256),
  ("name", textBetween 1 256),
  ("title", optional (textBetween 1 256)),
  ("kind", enumeration ["skill", "command", "plugin", "agent", "workflow", "mcp-tool",
    "builtin"]),
  ("icon", optional (textUpTo 4096)),
  ("arguments", withDefault (textUpTo 16384) (.str "")),
  ("values", optional promptArguments),
  ("invocation", optional catalogInvocation)]

def textSource : Schema := object [
  ("streamId", nonemptyText),
  ("bytes", size),
  ("encoding", literal "utf-16le"),
  ("offset", optional size)]

def contentPart : Schema := discriminated "type" [
  (["mention"], catalogMention),
  (["text"], object [("type", literal "text"), ("text", anyText),
    ("source", optional textSource)]),
  (["image"], object [("type", literal "image"), ("mimeType", anyText), ("url", anyText)]),
  (["file"], object [("type", literal "file"), ("path", anyText), ("mimeType", optional anyText),
    ("name", optional (textUpTo 255)),
    ("content", optional (discriminated "encoding" [
      (["base64"], object [("encoding", literal "base64"), ("data", textUpTo 46137344)]),
      (["text"], object [("encoding", literal "text"), ("data", textUpTo 131072)])]))])]

def modelRef : Schema := object [("provider", providerKind), ("model", optional anyText)]

def handoffModel : Schema :=
  object [("provider", providerKind), ("model", optional (textBetween 1 256))]

def messageOrigin : Schema := object [
  ("kind", enumeration ["person", "interaction_answer", "subagent_result", "handoff", "spawn",
    "parent_agent", "restart", "limit_resume", "queue", "steer", "automation", "schedule",
    "background_completion"]),
  ("commandId", optional commandId),
  ("interactionId", optional interactionId),
  ("threadIds", optional (array threadId)),
  ("parentThreadId", optional threadId),
  ("role", optional anyText),
  ("from", optional modelRef),
  ("to", optional modelRef),
  ("sources", optional (arrayUpTo handoffModel 8)),
  ("lossy", optional boolean),
  ("afterExit", optional boolean)]

def executionOptions : Schema := refine
  (record (fun k => decide (utf16Length k ≤ 128))
    (nullable (union [textUpTo 1024, number fun _ => true, boolean])))
  (atMostEntries 32)

def executionSelection : Schema := object [
  ("provider", providerKind),
  ("model", optional (textBetween 1 256)),
  ("instanceId", optional (textBetween 1 256)),
  ("options", withDefault executionOptions (.obj []))]

def executionSource : Schema :=
  object [("nativeSessionId", nativeSessionId), ("selection", executionSelection)]

def inheritedItem : Schema := object [
  ("threadId", threadId), ("itemId", optional itemId), ("at", optional timestamp)]

def mergedForkContext : Schema := object [
  ("sourceThreadId", threadId),
  ("summary", textBetween 1 262144),
  ("citations", arrayBetween (object [("threadId", threadId), ("itemId", itemId)]) 1 100),
  ("patchApplied", boolean)]

def delegationFailure : Schema := object [
  ("code", textBetween 1 64),
  ("message", textBetween 1 512),
  ("accountId", optional (textUpTo 256)),
  ("accountLabel", optional (textUpTo 256)),
  ("resetsAt", optional nonnegative)]

def delegationOutcome : Schema := object [
  ("failure", optional delegationFailure),
  ("threadId", threadId),
  ("outcome", enumeration ["completed", "failed", "cancelled"]),
  ("result", textUpTo 4096),
  ("truncated", boolean),
  ("before", nullable nonnegativeInteger)]

def htmlVisualization : Schema := object [
  ("title", textBetween 1 160),
  ("document", attachment),
  ("height", optional (integerBetween 80 2000)),
  ("mode", optional (enumeration ["interactive", "static"])),
  ("kit", optional (integerBetween 1 1000))]

def sharedImage : Schema := object [
  ("attachment", attachment),
  ("alt", textBetween 1 300),
  ("caption", optional (textUpTo 500))]

/-! ### Measured steps -/

def namedKeys : List String :=
  ["Enter", "Return", "Tab", "Space", "Backspace", "Escape", "Esc", "Delete", "Home", "End",
   "PageUp", "PageDown", "Left", "Right", "Up", "Down", "ArrowLeft", "ArrowRight", "ArrowUp",
   "ArrowDown", "enter", "return", "tab", "space", "backspace", "escape", "esc", "delete",
   "home", "end", "pageup", "pagedown", "left", "right", "up", "down", "arrowleft",
   "arrowright", "arrowup", "arrowdown"] ++
  ((List.range 20).map fun n => "F" ++ toString (n + 1)) ++
  ((List.range 20).map fun n => "f" ++ toString (n + 1))

/-- The source lists every printable ASCII character except the blank, and the named keys. -/
def isScreenKey (s : String) : Bool :=
  match s.toList with
  | [c] => decide (33 ≤ c.toNat ∧ c.toNat ≤ 126)
  | _ => namedKeys.contains s

def screenPoint : List (String × Schema) := [("x", nonnegative), ("y", nonnegative)]

def screenButton : Schema := withDefault (enumeration ["left", "right"]) (.str "left")

def screenInput : Schema := discriminated "kind" [
  (["pointer.move"], object ([("kind", literal "pointer.move")] ++ screenPoint)),
  (["pointer.click"], object ([("kind", literal "pointer.click")] ++ screenPoint ++
    [("button", screenButton)])),
  (["pointer.drag"], object ([("kind", literal "pointer.drag"),
    ("durationMs", optional (integerBetween 1 10000))] ++ screenPoint ++
    [("toX", nonnegative), ("toY", nonnegative), ("button", screenButton)])),
  (["key.press"], object [("kind", literal "key.press"), ("key", text isScreenKey),
    ("modifiers", withDefault (arrayUpTo (enumeration ["command", "shift", "option", "control",
      "alt", "meta", "super"]) 4) (.arr []))]),
  (["text.type"], object [("kind", literal "text.type"), ("text", textUpTo 4096)]),
  (["scroll"], object [("kind", literal "scroll"), ("x", optional nonnegative),
    ("y", optional nonnegative), ("dx", integerBetween (-1000) 1000),
    ("dy", integerBetween (-1000) 1000)]),
  (["text.paste"], object [("kind", literal "text.paste"), ("text", textUpTo 4096)]),
  (["pointer.down"], object ([("kind", literal "pointer.down")] ++ screenPoint)),
  (["pointer.up"], object ([("kind", literal "pointer.up")] ++ screenPoint)),
  (["pointer.cancel"], object [("kind", literal "pointer.cancel")])]

def scrollDelta : Schema := number fun q => decide (-100000 ≤ q ∧ q ≤ 100000)

def browserInteractionAction : Schema := discriminated "action" [
  (["click"], strictObject [("action", literal "click"), ("ref", textBetween 1 256)]),
  (["type"], strictObject [("action", literal "type"), ("ref", textBetween 1 256),
    ("text", textUpTo 65536)]),
  (["press"], strictObject [("action", literal "press"), ("key", textBetween 1 256),
    ("ref", optional (textBetween 1 256))]),
  (["scroll"], strictObject [("action", literal "scroll"), ("x", scrollDelta),
    ("y", scrollDelta)]),
  (["drag"], strictObject [("action", literal "drag"), ("ref", textBetween 1 256),
    ("toRef", textBetween 1 256)])]

def interactionTarget : Schema := discriminated "kind" [
  (["window"], object [("kind", literal "window"), ("bundleId", textBetween 1 256),
    ("windowId", positiveInteger)]),
  (["browser-tab"], object [("kind", literal "browser-tab"), ("threadId", textBetween 1 256),
    ("tabId", optional (textBetween 1 256))])]

def interactionVerdict : Schema :=
  enumeration ["smooth", "minor_hitches", "janky", "no_change", "inconclusive"]

def interactionConfidence : Schema := enumeration ["high", "medium", "low"]

def interactionGap : Schema := object [("atMs", nonnegative), ("durationMs", nonnegative)]

def metricSummary : Schema := object [("median", nonnegative), ("worst", nonnegative)]

def interactionRepeat : Schema := object [
  ("runs", arrayBetween (object [("verdict", interactionVerdict),
    ("confidence", interactionConfidence)]) 1 5),
  ("metrics", object [
    ("refreshHz", metricSummary), ("windowMs", metricSummary), ("frames", metricSummary),
    ("latencyMs", optional metricSummary), ("settleMs", optional metricSummary),
    ("effectiveFps", optional metricSummary), ("droppedFrames", optional metricSummary),
    ("hitchRatioMsPerS", optional metricSummary), ("layoutShift", optional metricSummary),
    ("hostLoad", optional metricSummary), ("captureOverheadPct", optional metricSummary),
    ("longTaskMs", optional metricSummary), ("hitchMs", metricSummary)])]

def stepMeasurement : Schema := object [
  ("source", enumeration ["screen-frames", "browser-trace"]),
  ("target", interactionTarget),
  ("action", optional (union [screenInput, browserInteractionAction])),
  ("refreshHz", number fun q => decide (0 < q ∧ q ≤ 240)),
  ("windowMs", number fun q => decide (0 ≤ q ∧ q ≤ 10000)),
  ("latencyMs", optional nonnegative),
  ("settleMs", optional nonnegative),
  ("frames", integerBetween 0 2400),
  ("effectiveFps", optional nonnegative),
  ("droppedFrames", optional nonnegativeInteger),
  ("hitches", arrayUpTo interactionGap 20),
  ("hitchRatioMsPerS", optional nonnegative),
  ("hitchTimeMs", optional nonnegative),
  ("longTasks", optional (arrayUpTo interactionGap 100)),
  ("layoutShift", optional nonnegative),
  ("verdict", interactionVerdict),
  ("confidence", interactionConfidence),
  ("hostLoad", optional nonnegative),
  ("captureOverheadPct", optional nonnegative),
  ("notes", arrayUpTo (textUpTo 512) 32),
  ("repeat", optional interactionRepeat),
  ("filmstrip", optional attachment)]

/-! ### Items -/

def itemBase : List (String × Schema) := [
  ("id", itemId),
  ("agentId", agentId),
  ("runId", optional runId),
  ("createdAt", timestamp),
  ("nativeId", optional (textUpTo 256)),
  ("executionSource", optional executionSource),
  ("complete", withDefault boolean (.bool true)),
  ("inherited", optional inheritedItem)]

/-- `ItemBase.extend` for one item type. -/
def itemObject (type : String) (members : List (String × Schema)) : Schema :=
  object (itemBase ++ [("type", literal type)] ++ members)

def itemOption (type : String) (members : List (String × Schema)) : List String × Schema :=
  ([type], itemObject type members)

def item : Schema := discriminated "type" [
  itemOption "html" [("visualization", htmlVisualization), ("raw", rawDefault)],
  itemOption "image" [("image", sharedImage), ("raw", rawDefault)],
  itemOption "message" [
    ("role", enumeration ["user", "assistant"]),
    ("parts", array contentPart),
    ("attachments", optional (arrayUpTo attachment 64)),
    ("synthetic", withDefault boolean (.bool false)),
    ("origin", optional messageOrigin),
    ("notAnswered", optional (literal "stopped")),
    ("mergedContext", optional mergedForkContext),
    ("raw", rawDefault)],
  itemOption "delegation.started" [
    ("origin", literal "ace"),
    ("childThreadId", threadId),
    ("provider", providerKind),
    ("model", optional (textBetween 1 256)),
    ("accountId", optional (textBetween 1 256)),
    ("title", textUpTo 256),
    ("role", textUpTo 1024),
    ("phase", enumeration ["created", "running", "cancelling", "settled"]),
    ("status", threadStatus),
    ("updatedAt", timestamp),
    ("generation", nonnegativeInteger),
    ("outcome", withDefault (nullable delegationOutcome) .null),
    ("machine", optional agentMachine),
    ("raw", rawDefault)],
  itemOption "delegation.settled" [
    ("origin", literal "ace"),
    ("results", arrayBetween delegationOutcome 1 64),
    ("delivery", enumeration ["tool", "ace-input"]),
    ("raw", rawDefault)],
  itemOption "reasoning" [
    ("text", anyText),
    ("source", optional textSource),
    ("summary", withDefault boolean (.bool false)),
    ("raw", rawDefault)],
  itemOption "tool_call" [("call", object toolCall), ("measurement", optional stepMeasurement)],
  itemOption "notice" [
    ("level", enumeration ["info", "warning", "error"]),
    ("commandId", optional commandId),
    ("interactionId", optional interactionId),
    ("code", optional anyText),
    ("diagnostic", optional boolean),
    ("title", optional anyText),
    ("detail", optional anyText),
    ("details", optional providerErrorDetails),
    ("toolCallId", optional itemId),
    ("measurement", optional stepMeasurement),
    ("text", anyText),
    ("source", optional textSource),
    ("raw", rawDefault)],
  itemOption "compaction" [
    ("tokensBefore", optional integer),
    ("tokensAfter", optional integer),
    ("summary", optional anyText),
    ("raw", rawDefault)],
  (["unknown"], requireMember "data" (itemObject "unknown" [("raw", rawDefault),
    ("data", unknown)])),
  (["artifact"], object [
    ("id", itemId),
    -- Thread artifacts can exist before the first agent starts.
    ("agentId", optional agentId),
    ("runId", optional runId),
    ("createdAt", timestamp),
    ("nativeId", optional (textUpTo 256)),
    ("executionSource", optional executionSource),
    ("complete", withDefault boolean (.bool true)),
    ("inherited", optional inheritedItem),
    ("type", literal "artifact"),
    ("filename", optional (textUpTo 256)),
    ("flags", optional (array (enumeration ["executable", "archive"]))),
    ("source", enumeration ["browser", "device"]),
    ("artifactId", optional (textBetween 1 256)),
    ("path", anyText),
    ("mimeType", anyText),
    ("bytes", nonnegativeInteger)])]

/-! ### The identity of an item -/

/-- The members of an item that its schema leaves as they are. -/
def identityMembers : List String := ["id", "agentId", "createdAt", "type", "runId"]

theorem keepsMember_itemObject {type : String} {members : List (String × Schema)}
    (nodup : ((itemBase ++ [("type", literal type)] ++ members).map Prod.fst).Nodup)
    {k : String} (member : k ∈ identityMembers) : KeepsMember k (itemObject type members) := by
  have identity : ("id", itemId) ∈ itemBase ∧ ("agentId", agentId) ∈ itemBase ∧
      ("createdAt", timestamp) ∈ itemBase ∧ ("runId", optional runId) ∈ itemBase := by
    simp [itemBase]
  have base : ∀ entry ∈ itemBase, entry ∈ itemBase ++ [("type", literal type)] ++ members := by
    intro entry h
    exact List.mem_append_left _ (List.mem_append_left _ h)
  simp only [identityMembers, List.mem_cons, List.not_mem_nil, or_false] at member
  rcases member with rfl | rfl | rfl | rfl | rfl
  · exact keepsMember_object nodup (base _ identity.1) (exact_text _)
  · exact keepsMember_object nodup (base _ identity.2.1) (exact_text _)
  · exact keepsMember_object nodup (base _ identity.2.2.1) (exact_number _)
  · exact keepsMember_object nodup (by simp) (exact_literal type)
  · exact keepsMember_object nodup (base _ identity.2.2.2) (exact_text _).optional

theorem keepsMember_item {k : String} (member : k ∈ identityMembers) : KeepsMember k item := by
  apply keepsMember_discriminated
  simp only [itemOption, List.forall_mem_cons]
  refine ⟨?_, ?_, ?_, ?_, ?_, ?_, ?_, ?_, ?_, ?_, ?_, by simp⟩
  case refine_10 => exact (keepsMember_itemObject (by decide) member).requireMember "data"
  case refine_11 =>
    simp only [identityMembers, List.mem_cons, List.not_mem_nil, or_false] at member
    rcases member with rfl | rfl | rfl | rfl | rfl
    · exact keepsMember_object (s := itemId) (by decide) (by simp) (exact_text _)
    · exact keepsMember_object (s := optional agentId) (by decide) (by simp) (exact_text _).optional
    · exact keepsMember_object (s := timestamp) (by decide) (by simp) (exact_number _)
    · exact keepsMember_object (s := literal "artifact") (by decide) (by simp) (exact_literal _)
    · exact keepsMember_object (s := optional runId) (by decide) (by simp) (exact_text _).optional
  all_goals exact keepsMember_itemObject (by decide) member

end Ace.Protocol
