import Ace.Projection.Sidebar
import Ace.Script.Sql

/-!
# The sidebar, stored

`apps/daemon/src/sidebar-page-storage.ts`, with the columns that `thread-columns.ts` writes. The
predicates of the projection are SQL over JSON extracts here, in SQLite's three-valued logic.
-/

namespace Ace.Sidebar

open Script

/-! ### Rows -/

/-- The columns of a thread that a sidebar reads. A JSON column holds a value without undefined
members. -/
structure Row where
  id : String
  workspaceId : String
  title : String
  updatedAt : Nat
  archivedAt : Option Nat
  status : Option Value
  client : Option Value
  transitions : Option Value
  providerMetadata : Option Value
  deriving DecidableEq

def QueueState.encode (queue : QueueState) : Value :=
  .obj [("pendingCount", .ofOption .nat queue.pendingCount), ("paused", .bool queue.paused),
    ("reason", queue.reason.elim .null fun reason => .str reason.text),
    ("resumeAt", queue.resumeAt.elim .null .nat)]

def DelegatedFrom.encode (delegated : DelegatedFrom) : Value :=
  .obj [("hostId", .str delegated.hostId), ("threadId", .str delegated.threadId)]

/-- `threadColumnValue` of each column: `JSON.stringify` leaves undefined members out. -/
def ThreadListEntry.encode (entry : ThreadListEntry) : Row where
  id := entry.id
  workspaceId := entry.workspaceId
  title := entry.title
  updatedAt := entry.updatedAt
  archivedAt := entry.archivedAt
  status := some (Value.obj [("state", .str entry.state.text)]).json
  client := some (Value.obj [("pinned", .ofOption .bool entry.pinned),
    ("settledAt", .ofOption .nat entry.settledAt),
    ("settledReason", .ofOption (fun reason => .str reason.text) entry.settledReason),
    ("deletedAt", .ofOption .nat entry.deletedAt),
    ("activityAt", .ofOption .nat entry.activityAt),
    ("hasSentMessage", .ofOption .bool entry.hasSentMessage)]).json
  transitions := some (Value.obj [("delegatedFrom",
    .ofOption DelegatedFrom.encode entry.delegatedFrom)]).json
  providerMetadata := some (Value.obj [("queue", .ofOption QueueState.encode entry.queue)]).json

namespace Row

open Sql

/-- `sidebarCounted` -/
def counted (row : Row) : Truth :=
  ((eq (Sql.coalesce (extract row.client ["hasSentMessage"]) (.num 1)) (.num 0)).not.and
    (((isNull (extract row.client ["hasSentMessage"])).and
      (eq (extract row.status ["state"]) (.text "new"))).and
        (some (row.title = "New thread"))).not).and
    (isNull (extract row.transitions ["delegatedFrom"]))

def attention (row : Row) : Truth :=
  let reason := extract row.providerMetadata ["queue", "reason"]
  ((((eq (Sql.coalesce (extract row.providerMetadata ["queue", "paused"]) (.num 0)) (.num 1)).and
    (isNull (extract row.providerMetadata ["queue", "resumeAt"]))).and
    (isNull reason).not).and
    (notIn reason ["limit", "snooze"])).and
    ((eq reason (.text "manual")).and
      (eq (Sql.coalesce (extract row.providerMetadata ["queue", "pendingCount"]) (.num 0))
        (.num 0))).not

/-- `sidebarSettled` -/
def settled (row : Row) : Truth :=
  (((eq (Sql.coalesce (extract row.client ["pinned"]) (.num 0)) (.num 1)).not.and
    (isNull (extract row.client ["settledAt"])).not).and
    (notIn (extract row.status ["state"]) ["working", "needs_you"])).and
    ((eq (Sql.coalesce (extract row.client ["settledReason"]) (.text "")) (.text "manual")).or
      (attention row).not)

/-- `sidebarDeleted` -/
def deleted (row : Row) : Truth := (isNull (extract row.client ["deletedAt"])).not

/-- `archived_at` as a value. -/
def archivedValue (row : Row) : Sql := row.archivedAt.elim .null fun n => .num n

def visible (archived : Bool) (row : Row) : Truth :=
  (deleted row).not.and
    (if archived then (isNull row.archivedValue).not else isNull row.archivedValue)

def paged (archived : Bool) (row : Row) : Truth := if archived then some true else settled row

def activity (archived : Bool) (row : Row) : Sql :=
  if archived then row.archivedValue
  else Sql.coalesce (extract row.client ["activityAt"]) (.num row.updatedAt)

/-- `workspace_id = ?`, unless the project is an empty string or none. -/
def matching (options : SidebarOptions) (row : Row) : Truth :=
  match options.project with
  | some project => if project = "" then visible options.archived row
    else (visible options.archived row).and (some (row.workspaceId = project))
  | none => visible options.archived row

/-- Texts of SQLite compare by their UTF-8 bytes, which is by their code points. -/
def codePoints (s : String) : List Nat := s.toList.map Char.toNat

def isAfter (archived : Bool) (before : Option ThreadListCursor) (row : Row) : Truth :=
  match before with
  | none => some true
  | some before => (less (activity archived row) (.num before.time)).or
    ((eq (activity archived row) (.num before.time)).and
      (some (codePoints before.id < codePoints row.id)))

/-- `ORDER BY activity DESC, id ASC` -/
def ordered (archived : Bool) (a b : Row) : Prop :=
  less (activity archived b) (activity archived a) = some true ∨
    (eq (activity archived a) (activity archived b) = some true ∧
      codePoints a.id ≤ codePoints b.id)

instance (archived : Bool) : DecidableRel (ordered archived) := fun _ _ =>
  inferInstanceAs (Decidable (_ ∨ _))

end Row

/-- Without `reuse`: every row that is listed is decoded. -/
def sidebarPageStorage (decode : Row → ThreadListEntry) (rows : List Row)
    (options : SidebarOptions) (before : Option ThreadListCursor) : SidebarPage :=
  let archived := options.archived
  let next := ((rows.filter fun row => (((Row.matching options row).and (Row.paged archived row)).and
    (Row.isAfter archived before row)).holds).insertionSort (Row.ordered archived)).take
      (options.limit + 1)
  let page := (next.take options.limit).map decode
  let active := if before.isSome then []
    else ((rows.filter fun row => ((Row.matching options row).and
      (Row.paged archived row).not).holds).insertionSort (Row.ordered archived)).map decode
  { threads := active ++ page
    before := if next.length > options.limit then page.getLast?.map (cursorOf archived) else none
    total := (rows.filter fun row =>
      ((Row.matching options row).and (Row.paged archived row)).holds).length
    counts := tally ((rows.filter fun row =>
      ((Row.visible archived row).and (Row.counted row)).holds).map (·.workspaceId)) }

end Ace.Sidebar
