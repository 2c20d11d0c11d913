import Mathlib.Data.List.Lex
import Mathlib.Data.List.Sort
import Mathlib.Data.Rat.Init
import Ace.Script.Value

/-!
# The sidebar, projected

`packages/projection/src/sidebar-page.ts` and `thread-attention.ts`. The sidebar lists the live
threads whole and pages through the settled ones, newest first. Archived threads are all paged.
-/

namespace Ace.Sidebar

open Script

inductive ThreadState where
  | needsYou
  | working
  | waiting
  | limited
  | failed
  | unresponsive
  | done
  | new
  deriving DecidableEq, Repr

def ThreadState.text : ThreadState → String
  | .needsYou => "needs_you"
  | .working => "working"
  | .waiting => "waiting"
  | .limited => "limited"
  | .failed => "failed"
  | .unresponsive => "unresponsive"
  | .done => "done"
  | .new => "new"

inductive QueueReason where
  | manual
  | restart
  | limit
  | snooze
  | uncertain
  | stopped
  | notSent
  | modelUnavailable
  deriving DecidableEq, Repr

def QueueReason.text : QueueReason → String
  | .manual => "manual"
  | .restart => "restart"
  | .limit => "limit"
  | .snooze => "snooze"
  | .uncertain => "uncertain"
  | .stopped => "stopped"
  | .notSent => "not_sent"
  | .modelUnavailable => "model_unavailable"

inductive SettledReason where
  | manual
  | inactivity
  | prMerged
  | prClosed
  deriving DecidableEq, Repr

def SettledReason.text : SettledReason → String
  | .manual => "manual"
  | .inactivity => "inactivity"
  | .prMerged => "pr_merged"
  | .prClosed => "pr_closed"

structure QueueState where
  pendingCount : Option Nat := none
  paused : Bool
  reason : Option QueueReason
  resumeAt : Option Nat
  deriving DecidableEq, Repr

/-- Where a thread was delegated from. Nothing here looks inside. -/
structure DelegatedFrom where
  hostId : String
  threadId : String
  deriving DecidableEq, Repr

/-- The fields of an entry that a sidebar reads. -/
structure ThreadListEntry where
  id : String
  workspaceId : String
  title : String
  updatedAt : Nat
  archivedAt : Option Nat := none
  state : ThreadState
  pinned : Option Bool := none
  settledAt : Option Nat := none
  settledReason : Option SettledReason := none
  deletedAt : Option Nat := none
  activityAt : Option Nat := none
  hasSentMessage : Option Bool := none
  delegatedFrom : Option DelegatedFrom := none
  queue : Option QueueState := none
  deriving DecidableEq, Repr

/-- Recovery that needs a person. -/
def threadAttention (thread : ThreadListEntry) : Option QueueReason :=
  match thread.queue with
  | none => none
  | some queue => match queue.reason with
    | none => none
    | some reason =>
      if !queue.paused || queue.resumeAt ≠ none then none
      else if reason = .manual && queue.pendingCount.getD 0 = 0 then none
      else if reason = .limit || reason = .snooze || reason = .stopped then none
      else some reason

def sidebarSettled (entry : ThreadListEntry) : Bool :=
  entry.settledAt ≠ none && entry.state ≠ .working && entry.state ≠ .needsYou &&
    (entry.settledReason = some .manual || threadAttention entry = none)

def sidebarVisible (entry : ThreadListEntry) (archived : Bool) : Bool :=
  entry.deletedAt = none && entry.archivedAt.isSome == archived

structure SidebarOptions where
  limit : Nat
  project : Option String := none
  archived : Bool := false
  deriving DecidableEq, Repr

structure ThreadListCursor where
  time : Nat
  id : String
  deriving DecidableEq, Repr

structure SidebarPage where
  threads : List ThreadListEntry
  before : Option ThreadListCursor
  total : Nat
  counts : List (String × Nat)
  deriving DecidableEq, Repr

/-- Counted in the total of its project: no draft, and not delegated from another machine. -/
def counted (entry : ThreadListEntry) : Bool :=
  entry.delegatedFrom = none && entry.hasSentMessage ≠ some false &&
    !(entry.hasSentMessage = none && entry.state = .new && entry.title = "New thread")

/-- How many of each key there are, in the order of their first occurrence. -/
def tally (keys : List String) : List (String × Nat) :=
  keys.foldl (fun counts key =>
    if (Assoc.get? counts key).isSome then
      Assoc.replace key ((Assoc.get? counts key).getD 0 + 1) counts
    else counts ++ [(key, 1)]) []

/-- A project filter that is an empty string is none. -/
def ofProject (options : SidebarOptions) (workspaceId : String) : Bool :=
  match options.project with
  | some project => project = "" || workspaceId = project
  | none => true

def paged (archived : Bool) (entry : ThreadListEntry) : Bool :=
  archived || (!entry.pinned.getD false && sidebarSettled entry)

/-- The time by which an entry is listed. -/
def listedAt (archived : Bool) (entry : ThreadListEntry) : Nat :=
  if archived then entry.archivedAt.getD entry.updatedAt else entry.activityAt.getD entry.updatedAt

/-- Strings of ECMAScript compare by their UTF-16 code units. -/
def codeUnits (s : String) : List Nat :=
  s.toList.flatMap fun c =>
    if c.toNat < 0x10000 then [c.toNat]
    else [0xD800 + (c.toNat - 0x10000) / 0x400, 0xDC00 + (c.toNat - 0x10000) % 0x400]

/-- The order of `toSorted`. -/
def listedBefore (archived : Bool) (a b : ThreadListEntry) : Prop :=
  listedAt archived b < listedAt archived a ∨
    (listedAt archived a = listedAt archived b ∧ codeUnits a.id ≤ codeUnits b.id)

instance (archived : Bool) : DecidableRel (listedBefore archived) := fun _ _ =>
  inferInstanceAs (Decidable (_ ∨ _))

def isAfter (archived : Bool) (before : Option ThreadListCursor) (entry : ThreadListEntry) : Bool :=
  match before with
  | none => true
  | some before => listedAt archived entry < before.time ||
    (listedAt archived entry = before.time && codeUnits before.id < codeUnits entry.id)

/-- Where the next page starts. -/
def cursorOf (archived : Bool) (entry : ThreadListEntry) : ThreadListCursor :=
  { time := listedAt archived entry, id := entry.id }

/-- The order of `counts` is left out: they are read as a mapping. -/
def sidebarPage (entries : List ThreadListEntry) (options : SidebarOptions)
    (before : Option ThreadListCursor) : SidebarPage :=
  let visible := entries.filter (sidebarVisible · options.archived)
  let counts := tally ((visible.filter counted).map (·.workspaceId))
  let matching := visible.filter fun entry => ofProject options entry.workspaceId
  let settled := (matching.filter (paged options.archived)).insertionSort
    (listedBefore options.archived)
  let next := (settled.filter (isAfter options.archived before)).take (options.limit + 1)
  let page := next.take options.limit
  let active := if before.isSome then []
    else (matching.filter fun entry => !paged options.archived entry).insertionSort
      (listedBefore options.archived)
  { threads := active ++ page
    before := if next.length > options.limit then page.getLast?.map (cursorOf options.archived)
      else none
    total := settled.length
    counts }

end Ace.Sidebar
