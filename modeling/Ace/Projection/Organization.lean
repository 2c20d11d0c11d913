import Ace.Projection.Sidebar
import Ace.Script.Json
import Ace.Script.Stringify

/-!
# Settling threads

`packages/projection/src/organization.ts`, `snooze-wake.ts`, `snooze-woke.ts` and what
`thread.client.updated` writes. A decision reads a thread, the policy and the time, and says which
fields change; the hour count of a policy and all times are rationals.
-/

namespace Ace.Organization

open Script
open Ace.Sidebar (QueueReason QueueState SettledReason codeUnits)

/-! ### Threads -/

inductive PrState where
  | open
  | draft
  | merged
  | closed
  deriving DecidableEq

inductive Checks where
  | pending
  | passed
  | failed
  deriving DecidableEq

structure ForgeRepository where
  forge : String
  host : String
  owner : String
  name : String
  deriving DecidableEq

structure LinkedPullRequest where
  number : Nat
  repo : ForgeRepository
  state : PrState
  updatedAt : ℚ
  head : Option String := none
  checks : Option Checks := none
  unverified : Option Bool := none
  deleted : Option Bool := none
  deriving DecidableEq

structure LegacyPullRequest where
  number : Nat
  state : PrState
  deriving DecidableEq

structure SnoozedPullRequest where
  pr : String
  state : PrState
  updatedAt : ℚ
  head : Option String := none
  checks : Option Checks := none
  deriving DecidableEq

inductive SnoozeWake where
  | needsYou
  | pr (prs : List SnoozedPullRequest)
  deriving DecidableEq

inductive Outcome where
  | finished
  | failed
  | asking
  | limited
  deriving DecidableEq

inductive PrChange where
  | merged
  | closed
  | reopened
  | checksPassed
  | checksFailed
  | pushed
  | updated
  | unlinked
  deriving DecidableEq

inductive SnoozeWoke where
  | time (at_ : ℚ)
  | needsYou (at_ : ℚ) (outcome : Outcome)
  | pr (at_ : ℚ) (number : Nat) (change : PrChange)
  deriving DecidableEq

structure ThreadDetails where
  linkedPrs : Option (List LinkedPullRequest) := none
  linkedPr : Option LegacyPullRequest := none
  deriving DecidableEq

/-- The fields of a thread that a decision reads or writes. `autoSettle` can only be false, and
`settleWhenDone` only true. -/
structure Thread where
  state : Sidebar.ThreadState
  updatedAt : ℚ
  queue : Option QueueState := none
  details : Option ThreadDetails := none
  archivedAt : Option ℚ := none
  pinned : Option Bool := none
  settledAt : Option ℚ := none
  settledReason : Option SettledReason := none
  snoozedUntil : Option ℚ := none
  snoozeWake : Option SnoozeWake := none
  snoozeWoke : Option SnoozeWoke := none
  deletedAt : Option ℚ := none
  activityAt : Option ℚ := none
  autoSettleAt : Option ℚ := none
  autoSettle : Option Unit := none
  settleWhenDone : Option Unit := none
  prSettled : Option Nat := none
  prSettledKey : Option String := none
  deriving DecidableEq

/-- The changes of a decision: a field that is not among them, one that goes, or its value. -/
structure Changes where
  settledAt : Option (Option ℚ) := none
  settledReason : Option (Option SettledReason) := none
  snoozedUntil : Option (Option ℚ) := none
  snoozeWake : Option (Option SnoozeWake) := none
  snoozeWoke : Option (Option SnoozeWoke) := none
  autoSettleAt : Option (Option ℚ) := none
  settleWhenDone : Option (Option Unit) := none
  prSettled : Option (Option Nat) := none
  prSettledKey : Option (Option String) := none
  deriving DecidableEq

/-- A `thread.client.updated` event at a time. -/
def updateThread (thread : Thread) (changes : Changes) (time : ℚ) : Thread :=
  { thread with
    settledAt := changes.settledAt.getD thread.settledAt
    settledReason := changes.settledReason.getD thread.settledReason
    snoozedUntil := changes.snoozedUntil.getD thread.snoozedUntil
    snoozeWake := changes.snoozeWake.getD thread.snoozeWake
    snoozeWoke := changes.snoozeWoke.getD thread.snoozeWoke
    autoSettleAt := changes.autoSettleAt.getD thread.autoSettleAt
    settleWhenDone := changes.settleWhenDone.getD thread.settleWhenDone
    prSettled := changes.prSettled.getD thread.prSettled
    prSettledKey := changes.prSettledKey.getD thread.prSettledKey
    updatedAt := time }

/-- Nothing changes: every field that they name has that value already. -/
def NoChange (thread : Thread) (changes : Changes) : Prop :=
  changes.settledAt.getD thread.settledAt = thread.settledAt ∧
    changes.settledReason.getD thread.settledReason = thread.settledReason ∧
    changes.snoozedUntil.getD thread.snoozedUntil = thread.snoozedUntil ∧
    changes.snoozeWake.getD thread.snoozeWake = thread.snoozeWake ∧
    changes.snoozeWoke.getD thread.snoozeWoke = thread.snoozeWoke ∧
    changes.autoSettleAt.getD thread.autoSettleAt = thread.autoSettleAt ∧
    changes.settleWhenDone.getD thread.settleWhenDone = thread.settleWhenDone ∧
    changes.prSettled.getD thread.prSettled = thread.prSettled ∧
    changes.prSettledKey.getD thread.prSettledKey = thread.prSettledKey

/-! ### Texts -/

/-- `JSON.stringify` where every number is a natural one. -/
def stringify (value : Value) : String :=
  String.ofList (value.stringify fun q => Nat.toDigits 10 q.num.toNat)

def refValue (repo : ForgeRepository) (number : Nat) : Value :=
  .arr [.str repo.forge, .str repo.host, .str repo.owner, .str repo.name, .nat number]

def prKey (pr : LinkedPullRequest) : String := stringify (refValue pr.repo pr.number)

/-! ### Attention -/

/-- Recovery that needs a person. -/
def threadAttention (queue : Option QueueState) : Option QueueReason :=
  match queue with
  | none => none
  | some queue =>
    match queue.reason with
    | none => none
    | some reason =>
      if !queue.paused || queue.resumeAt ≠ none then none
      else if reason = .manual && queue.pendingCount.getD 0 = 0 then none
      else if reason = .limit || reason = .snooze || reason = .stopped then none
      else some reason

def threadLive (thread : Thread) : Bool :=
  (thread.state = .working || thread.state = .waiting) && threadAttention thread.queue = none

/-! ### Snoozes -/

def snoozedPullRequests (details : Option ThreadDetails) : List SnoozedPullRequest :=
  let linked := (details.bind (·.linkedPrs)).getD []
  (linked.filter fun pr => pr.unverified ≠ some true && pr.deleted ≠ some true).map fun pr =>
    { pr := prKey pr, state := pr.state, updatedAt := pr.updatedAt, head := pr.head
      checks := pr.checks }

/-- What moved on one pull request since the snooze. -/
def prChange (before : SnoozedPullRequest) : Option SnoozedPullRequest → Option PrChange
  | none => some .unlinked
  | some now =>
    if now.state ≠ before.state && now.state = .merged then some .merged
    else if now.state ≠ before.state && now.state = .closed then some .closed
    else if now.state ≠ before.state && before.state = .closed then some .reopened
    else if before.checks = some .pending && now.checks = some .failed then some .checksFailed
    else if before.checks = some .pending && now.checks = some .passed then some .checksPassed
    else if before.head ≠ none && now.head ≠ none && now.head ≠ before.head then some .pushed
    else if now.updatedAt > before.updatedAt || now.state ≠ before.state then some .updated
    else none

/-- `new Map(…).get(key)`: of several with one key the last counts. -/
def nowOf (now : List SnoozedPullRequest) (key : String) : Option SnoozedPullRequest :=
  now.reverse.find? fun pr => pr.pr = key

/-- Whether the event the snooze waits for has happened. -/
def snoozeWakeDue (thread : Thread) : Bool :=
  match thread.snoozeWake with
  | none => false
  | some .needsYou => !threadLive thread
  | some (.pr prs) =>
    let now := snoozedPullRequests thread.details
    prs.any fun before => prChange before (nowOf now before.pr) ≠ none

def needsYouOutcome (thread : Thread) : Outcome :=
  if thread.state = .needsYou || threadAttention thread.queue ≠ none then .asking
  else if thread.state = .failed || thread.state = .unresponsive then .failed
  else if thread.state = .limited then .limited
  else .finished

/-- The number at the end of a key, or that of the only linked pull request. -/
def keyNumber (key : String) (linked : List LinkedPullRequest) : Option Nat :=
  let own := do
    let parts ← (← Json.parse key).array?
    let number ← (← parts.getLast?).nat?
    if 0 < number then some number else none
  match own, linked with
  | some number, _ => some number
  | none, [pr] => some pr.number
  | none, _ => none

/-- Why the snooze ends, if there is one. -/
def snoozeWokeFor (thread : Thread) (time : ℚ) : Option SnoozeWoke :=
  match thread.snoozedUntil with
  | none => none
  | some until_ =>
    let timed := SnoozeWoke.time (min time until_)
    match thread.snoozeWake with
    | some .needsYou =>
      some (if snoozeWakeDue thread then .needsYou time (needsYouOutcome thread) else timed)
    | some (.pr prs) =>
      let linked := (thread.details.bind (·.linkedPrs)).getD []
      let now := snoozedPullRequests thread.details
      let moved := prs.findSome? fun before => do
        let change ← prChange before (nowOf now before.pr)
        let number ← keyNumber before.pr linked
        some (SnoozeWoke.pr time number change)
      some (moved.getD timed)
    | none => some timed

/-- The snooze goes, and one that ended by itself says why. -/
def snoozeEnded (thread : Thread) (time : ℚ) : Changes :=
  { snoozedUntil := some none, snoozeWake := some none
    snoozeWoke := (snoozeWokeFor thread time).map some }

def snoozeEnds (thread : Thread) (time : ℚ) : Bool :=
  match thread.snoozedUntil with
  | none => thread.snoozeWake ≠ none
  | some until_ => until_ ≤ time || snoozeWakeDue thread

/-! ### Settling -/

structure SettlePolicy where
  hours : ℚ
  merged : Bool
  closed : Bool

inductive Request where
  | settle
  | drop
  deriving DecidableEq

/-- An agent's request to settle its thread once the work ends. -/
def settleRequest (thread : Thread) : Option Request :=
  if thread.settleWhenDone = none then none
  else if thread.autoSettle ≠ none || threadAttention thread.queue ≠ none then some .drop
  else if thread.deletedAt = none && thread.state = .done then some .settle
  else if thread.state = .working || thread.state = .waiting then none
  else some .drop

/-- A pull request of either encoding. -/
inductive PullRequest where
  | linked (pr : LinkedPullRequest)
  | legacy (pr : LegacyPullRequest)
  deriving DecidableEq

namespace PullRequest

def number : PullRequest → Nat
  | linked pr => pr.number
  | legacy pr => pr.number

def state : PullRequest → PrState
  | linked pr => pr.state
  | legacy pr => pr.state

/-- It blocks every automatic rule: unverified, deleted, or not resolved. -/
def blocks (policy : SettlePolicy) (pr : PullRequest) : Bool :=
  (match pr with
    | linked pr => pr.unverified = some true || pr.deleted = some true
    | legacy _ => false) ||
    !(pr.state = .merged || (pr.state = .closed && policy.closed))

def ref : PullRequest → Value
  | linked pr => refValue pr.repo pr.number
  | legacy pr => .arr [.nat pr.number]

end PullRequest

def pullRequests : Option ThreadDetails → List PullRequest
  | none => []
  | some details =>
    match details.linkedPrs, details.linkedPr with
    | some prs, _ => prs.map .linked
    | none, some legacy => [.legacy legacy]
    | none, none => []

/-- The set of pull requests that settles a thread once. -/
def settledKey (prs : List PullRequest) : Option String :=
  if prs = [] then none
  else
    let refs := (prs.map fun pr => stringify pr.ref).insertionSort
      fun a b => codeUnits a ≤ codeUnits b
    some (stringify (.arr (refs.map .str)))

def alreadySettled (thread : Thread) (prs : List PullRequest) : Bool :=
  settledKey prs = thread.prSettledKey ||
    (thread.prSettledKey = none && prs.length = 1 && (prs.head?.map (·.number)) = thread.prSettled)

def prRuleEnabled (policy : SettlePolicy) (prs : List PullRequest) : Bool :=
  prs.all fun pr => if pr.state = .merged then policy.merged else policy.closed

/-- When a thread without activity settles. -/
def due (thread : Thread) (policy : SettlePolicy) : Option ℚ :=
  if 0 < policy.hours then
    some (thread.activityAt.getD thread.updatedAt + policy.hours * 3600000)
  else none

def automaticSettle (thread : Thread) (policy : SettlePolicy) (time : ℚ) (expired : Changes) :
    Changes :=
  if thread.deletedAt ≠ none || thread.state = .working then
    { expired with autoSettleAt := some none, settledAt := some none, settledReason := some none }
  else if thread.archivedAt ≠ none || thread.pinned = some true ||
      threadAttention thread.queue ≠ none then
    { expired with autoSettleAt := some none }
  else if thread.settledAt ≠ none || thread.autoSettle ≠ none then
    { expired with autoSettleAt := some none }
  else if !(thread.state = .done || thread.state = .new || thread.state = .failed) then
    { expired with autoSettleAt := some none }
  else
    let prs := pullRequests thread.details
    if prs.any (PullRequest.blocks policy) then { expired with autoSettleAt := some none }
    else if prs ≠ [] && prRuleEnabled policy prs && !alreadySettled thread prs then
      { expired with
        settledAt := some (some time)
        settledReason := some (some (if prs.all (·.state = .merged) then .prMerged else .prClosed))
        autoSettleAt := some none
        prSettled := some (prs.head?.map (·.number))
        prSettledKey := some (settledKey prs) }
    else if thread.state ≠ .done then { expired with autoSettleAt := some none }
    else
      match due thread policy with
      | some deadline =>
        if deadline ≤ time then
          { expired with
            settledAt := some (some time), settledReason := some (some .inactivity)
            autoSettleAt := some none }
        else { expired with autoSettleAt := some (some deadline) }
      | none => { expired with autoSettleAt := some none }

def settleDecision (thread : Thread) (policy : SettlePolicy) (time : ℚ) : Changes :=
  let expired := if snoozeEnds thread time then snoozeEnded thread time else {}
  match settleRequest thread with
  | some .settle =>
    { expired with
      settledAt := some (some time), settledReason := some (some .manual)
      autoSettleAt := some none, settleWhenDone := some none }
  | some .drop => { automaticSettle thread policy time expired with settleWhenDone := some none }
  | none => automaticSettle thread policy time expired

end Ace.Organization
