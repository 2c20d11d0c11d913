import Ace.Core.AceTools
import Ace.Core.State
import Ace.Projection.Delta
import Ace.Protocol.Schemas

/-!
# Item candidates

An item draft is merged with the item it updates before identities are allocated, so the
same construction serves validation and the write. `Protocol.item` then decides whether the
candidate is a canonical item.
-/

namespace Ace

open Script

structure ItemIdentity where
  id : String
  agentId : String
  createdAt : Value
  runId : Option String := none
  deriving DecidableEq

def ItemIdentity.fields (base : ItemIdentity) : List (String × Value) :=
  [("id", .str base.id), ("agentId", .str base.agentId), ("createdAt", base.createdAt)] ++
    Value.optionalField "runId" (base.runId.map .str)

/-- The call of a previous tool call. -/
def priorCall (previous : Option Value) : Option Value :=
  (previous.filter Item.isToolCall).map Item.call

/-- Partial details inherit their kind from the call or the existing item. -/
def itemDetailKind (previous : Option Value) (patch : Value) : Value :=
  if !Item.isToolCall patch then .undefined
  else
    let call := patch.field "call"
    coalesce ((call.field "detail").field "kind") <| coalesce (call.field "kind") <|
      ((priorCall previous).getD .undefined).field "detail" |>.field "kind"

/-- The previous detail, when its kind stays, with the changes of a patch. -/
def mergeDetail (id : String) (prior : Option Value) (call : Value) (kind : Value)
    (detailPatch : Value) : Value :=
  let changes := if (detailPatch.field "output").isUndefined
    then Assoc.erase "output" detailPatch.fields else detailPatch.fields
  let priorDetail := (prior.getD .undefined).field "detail"
  let base :=
    if prior.isSome ∧
        priorDetail.field "kind" = coalesce ((call.field "detail").field "kind") kind
    then priorDetail.fields else [("kind", kind)]
  let merged := Value.obj (Value.spread base changes)
  if merged.field "kind" ≠ .str "shell" then merged
  else
    let merged := match merged.field "output" with
      | .str output => merged.setField "output" (summarizeOutput id output .undefined)
      | _ => merged
    if (merged.field "outputTruncated").isBool then merged.eraseField "outputTruncated" else merged

/-- The candidate for a tool call, or a thrown `TypeError`. -/
def toolInput (previous : Option Value) (base : ItemIdentity) (patch : Value) (now : Nat)
    (detailPatch : Value) : Option Value := do
  let prior := priorCall previous
  let call ← normalizeAceCall (coalesce (patch.field "call") (.obj [])) prior
  let normalized := patch.setField "call" call
  let detailPatch := if (call.field "detail").field "kind" == .str "mcp" then call.field "detail"
    else detailPatch
  let kind := coalesce (call.field "kind") (coalesce (itemDetailKind previous normalized)
    (.str "custom"))
  let detail := mergeDetail base.id prior call kind detailPatch
  let merged := Value.spread
    (Value.spread
      (Value.spread [("title", kind), ("status", .str "pending"), ("startedAt", .nat now),
        ("raw", .arr [])] (prior.getD .undefined).fields)
      call.fields)
    [("id", .str base.id), ("agentId", .str base.agentId), ("kind", kind), ("detail", detail)]
  let start := match previous.filter Item.isToolCall with
    | some previous => previous.fields
    | none => [("complete", .bool false)]
  return .obj (Value.spread (Value.spread (Value.spread start normalized.fields) base.fields)
    [("call", .obj merged)])

def itemDefaults (patch : Value) : List (String × Value) :=
  if Item.hasType patch "message" then [("role", .str "assistant"), ("parts", .arr [])]
  else if Item.hasType patch "reasoning" then [("text", .str "")]
  else if Item.hasType patch "notice" then [("level", .str "info"), ("text", .str "")]
  else []

/-- The candidate for any other item. -/
def plainInput (previous : Option Value) (base : ItemIdentity) (patch : Value) : Value :=
  let inherited := match previous with
    | some previous =>
      if previous.field "type" = patch.field "type" then previous.fields else []
    | none => []
  .obj (Value.spread (Value.spread (Value.spread
    (Value.spread [("complete", .bool false)] (itemDefaults patch)) inherited) patch.fields)
    base.fields)

/-- Pure candidate construction lets validation finish before identity allocation. -/
def itemInput (previous : Option Value) (base : ItemIdentity) (patch : Value) (now : Nat)
    (detailPatch : Value) : Option Value :=
  if Item.isToolCall patch then toolInput previous base patch now detailPatch
  else some (plainInput previous base patch)

/-- Snapshots append only when their observed prefix agrees with the bounded stream tail. -/
def extendsOutput (prior : Value) (aggregate : String) : Bool :=
  let bytes := Text.encode aggregate.toList
  let size := (prior.field "bytes").nat?.getD 0
  let tail := ((prior.field "tail").string?.getD "").toList
  let tailSize := Text.byteLength tail
  decide (size ≤ bytes.length) &&
    Text.decode ((bytes.take size).drop (size - tailSize)) == tail

end Ace
