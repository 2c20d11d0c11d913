import Ace.Properties.LaneEdits

/-!
# The invariant of an orchestration run

What the reducer keeps between facts, and, with a `Ghost`, in the middle of one: a lane that
was taken up again is not yet counted by its parent, and a run that stops has lanes that are
not yet cancelled. Each lane is `Proper` by itself, its pending intents are `Tended`, and the
counters are tallies. `Inv.touch` is the one lemma about changes of a lane.
-/

namespace Ace.Orchestrator

open Script

/-! ### One lane -/

theorem Lane.contentValid_iff (lane : Lane) : lane.contentValid = true ↔
    isOrchestrationId lane.id = true ∧ lane.spec.valid = true ∧
      lengthWithin 1 33024 lane.prompt = true ∧ lane.stage ≤ maxSafeInteger ∧ lane.depth ≤ 8 ∧
      lane.parentId.all isOrchestrationId = true ∧ lane.threadId.all (· != "") = true ∧
      lane.worktree.all isRef = true ∧ isAttempt lane.attempt = true ∧
      lane.startedAt ≤ maxSafeInteger ∧
      lane.endedAt.all (fun time => decide (time ≤ maxSafeInteger)) = true ∧
      lane.usage.valid = true ∧ lane.attemptUsage.valid = true ∧
      lane.artifact.all Artifact.valid = true ∧ lane.input.all Artifact.valid = true ∧
      lane.error.all (lengthWithin 0 8192) = true := by
  simp only [Lane.contentValid, Bool.and_eq_true, decide_eq_true_eq, and_assoc]

theorem State.headValid_iff (s : State) : s.headValid = true ↔
    isOrchestrationId s.id = true ∧ isOrchestrationId s.runId = true ∧ s.input.valid = true ∧
      s.startedAt ≤ maxSafeInteger ∧ s.usage.valid = true ∧
      s.winner.all isOrchestrationId = true ∧
      s.safetyCheckpoint.all (lengthWithin 0 512) = true := by
  simp only [State.headValid, Bool.and_eq_true, decide_eq_true_eq, and_assoc]

/-- A passed check is over with the lane, or the lane is being stopped. -/
def Approved (lane : Lane) : Prop :=
  lane.phase = .succeeded ∨ lane.phase = .cancelling ∨ lane.phase = .cancelled ∨
    (lane.phase = .failed ∧ lane.threadDone = true)

/-- What holds of a lane by itself; `loose` lanes are in the middle of a change. -/
structure Proper (input : Create) (stop : Option StopReason) (loose : Prop) (lane : Lane) :
    Prop where
  content : lane.contentValid = true
  attempts : lane.attempt ≤ input.template.budget.maxAttempts
  deep : lane.depth ≤ input.template.budget.maxDepth
  queued : lane.phase = .queued → input.template.kind ≠ .coordinator ∧ lane.children = 0
  isOver : terminal lane.phase = true → lane.children = 0
  checking : lane.phase = .checking → lane.threadDone = true ∧ lane.children = 0
  unbound : lane.phase = .queued ∨ lane.phase = .starting → lane.threadId = none
  bound : lane.threadId.isSome = lane.worktree.isSome
  success : lane.phase = .succeeded →
    lane.threadDone = true ∧ lane.artifact.isSome = true ∧ lane.checksPassed = some true
  approved : lane.checksPassed = some true → Approved lane ∨
    loose ∧ terminal lane.phase = false ∧ (lane.threadDone = true ∨ stop.isSome = true)
  stopping : lane.phase = .cancelling ∨ lane.phase = .cancelled → stop.isSome = true
  halted : stop.isSome = true → terminal lane.phase = false → lane.phase = .cancelling ∨ loose

/-- The phases in which a lane may still have to be started. -/
def Active (phase : LanePhase) : Prop :=
  phase = .starting ∨ phase = .working ∨ phase = .waiting ∨ phase = .collecting ∨
    phase = .checking ∨ phase = .joining

/-- Whether the lane is as a pending effect supposes. -/
def Suits (lane : Lane) : Effect → Prop
  | .start .. => Active lane.phase
  | .check _ _ artifact => lane.phase = .checking ∧ lane.threadDone = true ∧ lane.children = 0 ∧
      lane.checksPassed = none ∧ lane.artifact = some artifact
  | .cancel .. => lane.phase = .cancelling
  | .merge _ _ checkpoint => lane.phase = .succeeded ∧
      lane.artifact.map (·.checkpoint) = some checkpoint

/-- An intent of a type is pending for a lane. -/
def Pends (intents : Dictionary Intent) (l : String) (type : EffectType) : Prop :=
  ∃ key entry, intents.get? key = some entry ∧ entry.effect.laneId = l ∧ entry.effect.type = type

/-- The pending intents of one lane. -/
structure Tended (strict : Prop) (intents : Dictionary Intent) (l : String) (lane : Lane) :
    Prop where
  named : ∀ key entry, intents.get? key = some entry → entry.effect.laneId = l →
    entry.id = key ∧ entry.valid = true
  suits : ∀ key entry, intents.get? key = some entry → entry.effect.laneId = l →
    entry.effect.attempt = lane.attempt ∧ Suits lane entry.effect
  sole : ∀ key entry key' entry', intents.get? key = some entry → intents.get? key' = some entry' →
    entry.effect.laneId = l → entry'.effect.laneId = l → entry.effect.type = entry'.effect.type →
    key = key'
  owed : strict → ∀ type, lane.required = some type → Pends intents l type

/-! ### The run -/

/-- What a run is in the middle of. -/
structure Ghost where
  /-- How many open children a lane has not counted yet. -/
  debt : String → Int := fun _ => 0
  /-- How many of them it still counts as failed. -/
  stale : String → Int := fun _ => 0
  loose : String → Prop := fun _ => False
  /-- A pending merge may have work beside it. -/
  noisy : Prop := False
  /-- No intent was acknowledged before its outcome was known. -/
  strict : Prop

/-- The receipts of spawn requests name the children, each once. -/
structure Receipted (s : State) : Prop where
  holds : ∀ key child, s.spawnReceipts.get? key = some child →
    s.input.template.kind = .coordinator ∧ ∃ parentId attempt requestId parent lane,
      key = receiptKey parentId attempt requestId ∧ isOrchestrationId parentId = true ∧
      isOrchestrationId requestId = true ∧ 1 ≤ attempt ∧
      s.lanes.get? parentId = some parent ∧ attempt ≤ parent.attempt ∧
      s.lanes.get? child = some lane ∧ lane.parentId = some parentId
  once : ∀ key key' child, s.spawnReceipts.get? key = some child →
    s.spawnReceipts.get? key' = some child → key = key'
  every : ∀ l lane, s.lanes.get? l = some lane → lane.parentId.isSome = true →
    ∃ key, s.spawnReceipts.get? key = some l

theorem Receipted.congr {s s' : State} (receipts : Receipted s) (input : s'.input = s.input)
    (lanes : s'.lanes = s.lanes) (same : s'.spawnReceipts = s.spawnReceipts) : Receipted s' := by
  obtain ⟨holds, once, every⟩ := receipts
  rw [← same, ← lanes] at *
  rw [← input] at holds
  exact ⟨holds, once, every⟩

structure Inv (g : Ghost) (s : State) : Prop where
  head : s.headValid = true
  small : s.lanes.keys.length ≤ s.input.template.budget.maxLanes
  receipts : Receipted s
  open_eq : s.open_ = tally (!terminal ·.phase) s.lanes
  waiting_eq : s.waiting = tally (isWaiting ·.phase) s.lanes
  succeeded_eq : s.succeeded = tally (·.phase == .succeeded) s.lanes
  failed_eq : s.failed = tally (·.phase == .failed) s.lanes
  id_eq : ∀ l lane, s.lanes.get? l = some lane → lane.id = l
  parent : ∀ l lane parentId, s.lanes.get? l = some lane → lane.parentId = some parentId →
    s.input.template.kind = .coordinator ∧
      ∃ parent, s.lanes.get? parentId = some parent ∧ parent.depth + 1 = lane.depth
  root : ∀ l lane, s.lanes.get? l = some lane → lane.parentId = none → lane.depth = 0
  children_eq : ∀ l lane, s.lanes.get? l = some lane →
    lane.children + g.debt l = tally (openChild l) s.lanes
  failedChildren_eq : ∀ l lane, s.lanes.get? l = some lane →
    lane.failedChildren = tally (failedChild l) s.lanes + g.stale l
  proper : ∀ l lane, s.lanes.get? l = some lane →
    Proper s.input s.stopReason (g.loose l) lane
  tended : ∀ l lane, s.lanes.get? l = some lane →
    Tended (g.strict ∧ (g.loose l → lane.phase = .cancelling)) s.intents l lane
  owner : ∀ key entry, s.intents.get? key = some entry →
    (s.lanes.get? entry.effect.laneId).isSome = true
  merging : ∀ key entry, s.intents.get? key = some entry → entry.effect.type = .merge →
    s.mergeStatus = .pending ∧ s.mergeRequested = true ∧ s.winner = some entry.effect.laneId
  requested : s.mergeRequested = true → s.stopReason = some .winner
  winner : ∀ l, s.winner = some l → ∃ lane, s.lanes.get? l = some lane ∧ lane.phase = .succeeded
  promised : g.strict → s.mergeStatus = .pending →
    ∃ l, s.winner = some l ∧ Pends s.intents l .merge
  quiet : g.strict → ¬ g.noisy → s.mergeStatus = .pending → s.open_ = 0

def Rest (strict : Prop) (s : State) : Prop := Inv { strict } s

/-! ### Changing a lane -/

/-- `f` with `x` more at `at_`. -/
def shift (f : String → Int) (at_ : Option String) (x : Int) : String → Int :=
  fun k => f k + if at_ = some k then x else 0

/-- Intents of other lanes are as they were. -/
def Spares (l : String) (before after : Dictionary Intent) : Prop :=
  ∀ key entry, entry.effect.laneId ≠ l →
    (after.get? key = some entry ↔ before.get? key = some entry)

def isOpen (lane : Lane) : Int := (!terminal lane.phase).toInt

def isFailure (lane : Lane) : Int := (terminal lane.phase && lane.phase != .succeeded).toInt

/-- The ghost after a lane changed: its parent has not taken notice, and it may have taken
notice of its children. -/
def Ghost.after (g : Ghost) (l : String) (lane now : Lane) : Ghost :=
  { g with
    debt := shift (shift g.debt lane.parentId (isOpen now - isOpen lane)) (some l)
      (lane.children - now.children)
    stale := shift (shift g.stale lane.parentId (isFailure lane - isFailure now)) (some l)
      (now.failedChildren - lane.failedChildren) }

/-- The lane keeps its place in the tree. -/
structure SamePlace (lane now : Lane) : Prop where
  id_eq : now.id = lane.id
  parentId_eq : now.parentId = lane.parentId
  depth_eq : now.depth = lane.depth
  attempt_le : lane.attempt ≤ now.attempt

theorem Tended.of_spares {strict : Prop} {l l' : String} {before after : Dictionary Intent}
    {lane : Lane} (spares : Spares l before after) (ne : l' ≠ l)
    (tended : Tended strict before l' lane) : Tended strict after l' lane := by
  have back : ∀ key entry, after.get? key = some entry → entry.effect.laneId = l' →
      before.get? key = some entry := by
    intro key entry here owned
    exact (spares key entry (by rw [owned]; exact ne)).mp here
  constructor
  · intro key entry here owned
    exact tended.named key entry (back key entry here owned) owned
  · intro key entry here owned
    exact tended.suits key entry (back key entry here owned) owned
  · intro key entry key' entry' here here' owned owned' same
    exact tended.sole key entry key' entry' (back key entry here owned)
      (back key' entry' here' owned') owned owned' same
  · intro strictly type required
    obtain ⟨key, entry, here, owned, typed⟩ := tended.owed strictly type required
    refine ⟨key, entry, (spares key entry ?_).mpr here, owned, typed⟩
    rw [owned]
    exact ne

theorem Tended.weaken {strict strict' : Prop} {intents : Dictionary Intent} {l : String}
    {lane : Lane} (tended : Tended strict intents l lane) (implies : strict' → strict) :
    Tended strict' intents l lane :=
  { tended with owed := fun strictly => tended.owed (implies strictly) }

theorem Receipted.touch {s : State} {l : String} {lane now : Lane} {intents : Dictionary Intent}
    (receipts : Receipted s) (here : s.lanes.get? l = some lane) (place : SamePlace lane now) :
    Receipted (s.touch l lane now intents) := by
  -- A lane of the new state has the parent and at least the attempt of the old one.
  have later : ∀ k before, s.lanes.get? k = some before →
      ∃ after, (s.lanes.put l now).get? k = some after ∧ after.parentId = before.parentId ∧
        before.attempt ≤ after.attempt := by
    intro k before there
    by_cases same : l = k
    · subst same
      rw [here] at there
      cases there
      exact ⟨now, Dictionary.get?_put_self .., place.parentId_eq, place.attempt_le⟩
    · exact ⟨before, by rw [Dictionary.get?_put_ne _ _ same]; exact there, rfl, le_refl _⟩
  constructor
  · intro key child receipt
    obtain ⟨kind, parentId, attempt, requestId, parent, kid, key_eq, valid, valid', positive,
      there, le, kidThere, kin⟩ := receipts.holds key child receipt
    obtain ⟨parent', there', -, le'⟩ := later parentId parent there
    obtain ⟨kid', kidThere', kin', -⟩ := later child kid kidThere
    exact ⟨kind, parentId, attempt, requestId, parent', kid', key_eq, valid, valid', positive,
      there', le_trans le le', kidThere', kin'.trans kin⟩
  · exact receipts.once
  · intro k after there nested
    rw [touch_lanes, Dictionary.get?_put] at there
    split at there
    next same =>
      subst same
      cases there
      rw [place.parentId_eq] at nested
      exact receipts.every l lane here nested
    next => exact receipts.every k after there nested

theorem openChild_change {lane now : Lane} (kin : now.parentId = lane.parentId) (k : String) :
    (openChild k now).toInt - (openChild k lane).toInt =
      if lane.parentId = some k then isOpen now - isOpen lane else 0 := by
  unfold openChild isOpen
  rw [kin]
  by_cases child : lane.parentId = some k
  · simp [child]
  · have other : (lane.parentId == some k) = false := by simpa using child
    simp [child, other]

theorem failedChild_change {lane now : Lane} (kin : now.parentId = lane.parentId) (k : String) :
    (failedChild k now).toInt - (failedChild k lane).toInt =
      if lane.parentId = some k then isFailure now - isFailure lane else 0 := by
  unfold failedChild isFailure
  rw [kin]
  by_cases child : lane.parentId = some k
  · simp [child]
  · have other : (lane.parentId == some k) = false := by simpa using child
    simp [child, other]

theorem get?_touch {s : State} {l k : String} {lane now found : Lane}
    {intents : Dictionary Intent} (there : (s.touch l lane now intents).lanes.get? k = some found) :
    (k = l ∧ found = now) ∨ (k ≠ l ∧ s.lanes.get? k = some found) := by
  rw [touch_lanes, Dictionary.get?_put] at there
  split at there
  next same =>
    cases there
    exact .inl ⟨same.symm, rfl⟩
  next other => exact .inr ⟨fun same => other same.symm, there⟩

theorem Inv.touch {g : Ghost} {s : State} {l : String} {lane now : Lane}
    {intents : Dictionary Intent} (inv : Inv g s) (here : s.lanes.get? l = some lane)
    (place : SamePlace lane now) {loose : String → Prop}
    (looser : ∀ k, k ≠ l → g.loose k → loose k)
    (proper : Proper s.input s.stopReason (loose l) now) (spares : Spares l s.intents intents)
    (tended : Tended (g.strict ∧ (loose l → now.phase = .cancelling)) intents l now)
    (merges : ∀ key entry, intents.get? key = some entry → entry.effect.laneId = l →
      entry.effect.type = .merge → s.intents.get? key = some entry)
    (kept : s.winner = some l → now.phase = .succeeded ∧ intents = s.intents)
    (quiet : g.strict → ¬ g.noisy → s.mergeStatus = .pending → isOpen now ≤ isOpen lane) :
    Inv { g.after l lane now with loose } (s.touch l lane now intents) := by
  have notOwn : lane.parentId ≠ some l := by
    intro own
    obtain ⟨-, parent, there, depth⟩ := inv.parent l lane l here own
    rw [here] at there
    cases there
    omega
  constructor
  case head => exact inv.head
  case small =>
    rw [touch_lanes, Dictionary.keys_put_of_mem now (by simp [here])]
    exact inv.small
  case receipts => exact inv.receipts.touch here place
  case open_eq =>
    show s.open_ + _ = tally _ (s.lanes.put l now)
    rw [tally_put _ now here, inv.open_eq]
  case waiting_eq =>
    show s.waiting + _ = tally _ (s.lanes.put l now)
    rw [tally_put _ now here, inv.waiting_eq]
  case succeeded_eq =>
    show s.succeeded + _ = tally _ (s.lanes.put l now)
    rw [tally_put _ now here, inv.succeeded_eq]
  case failed_eq =>
    show s.failed + _ = tally _ (s.lanes.put l now)
    rw [tally_put _ now here, inv.failed_eq]
  case id_eq =>
    intro k found there
    rcases get?_touch there with ⟨rfl, rfl⟩ | ⟨-, old⟩
    · rw [place.id_eq]
      exact inv.id_eq k lane here
    · exact inv.id_eq k found old
  case parent =>
    intro k found parentId there nested
    -- The parent may be the changed lane, whose depth is the same.
    have still : ∀ parent, s.lanes.get? parentId = some parent →
        ∃ parent', (s.lanes.put l now).get? parentId = some parent' ∧
          parent'.depth = parent.depth := by
      intro parent found
      by_cases same : l = parentId
      · subst same
        rw [here] at found
        cases found
        exact ⟨now, Dictionary.get?_put_self .., place.depth_eq⟩
      · exact ⟨parent, by rw [Dictionary.get?_put_ne _ _ same]; exact found, rfl⟩
    rcases get?_touch there with ⟨rfl, rfl⟩ | ⟨-, old⟩
    · rw [place.parentId_eq] at nested
      obtain ⟨kind, parent, found, depth⟩ := inv.parent k lane parentId here nested
      obtain ⟨parent', found', same⟩ := still parent found
      exact ⟨kind, parent', found', by rw [same, place.depth_eq]; exact depth⟩
    · obtain ⟨kind, parent, found, depth⟩ := inv.parent k _ parentId old nested
      obtain ⟨parent', found', same⟩ := still parent found
      exact ⟨kind, parent', found', by rw [same]; exact depth⟩
  case root =>
    intro k found there top
    rcases get?_touch there with ⟨rfl, rfl⟩ | ⟨-, old⟩
    · rw [place.depth_eq]
      exact inv.root k lane here (by rw [← place.parentId_eq]; exact top)
    · exact inv.root k found old top
  case children_eq =>
    intro k found there
    have change := openChild_change place.parentId_eq k
    rw [touch_lanes, tally_put _ now here]
    simp only [Ghost.after, shift]
    rcases get?_touch there with ⟨rfl, rfl⟩ | ⟨other, old⟩
    · have counted := inv.children_eq k lane here
      simp only [if_true, if_neg notOwn] at change ⊢
      omega
    · have counted := inv.children_eq k found old
      have ne : ¬ (some l = some k) := by
        intro same
        cases same
        exact other rfl
      simp only [if_neg ne]
      omega
  case failedChildren_eq =>
    intro k found there
    have change := failedChild_change place.parentId_eq k
    rw [touch_lanes, tally_put _ now here]
    simp only [Ghost.after, shift]
    rcases get?_touch there with ⟨rfl, rfl⟩ | ⟨other, old⟩
    · have counted := inv.failedChildren_eq k lane here
      simp only [if_true, if_neg notOwn] at change ⊢
      omega
    · have counted := inv.failedChildren_eq k found old
      have ne : ¬ (some l = some k) := by
        intro same
        cases same
        exact other rfl
      simp only [if_neg ne]
      split at change
      next child =>
        simp only [if_pos child]
        omega
      next child =>
        simp only [if_neg child]
        omega
  case proper =>
    intro k found there
    rcases get?_touch there with ⟨rfl, rfl⟩ | ⟨other, old⟩
    · exact proper
    · have was := inv.proper k found old
      exact { was with
        approved := fun passed => (was.approved passed).imp_right
          (And.imp_left (looser k other))
        halted := fun stopped going => (was.halted stopped going).imp_right (looser k other) }
  case tended =>
    intro k found there
    rcases get?_touch there with ⟨rfl, rfl⟩ | ⟨other, old⟩
    · exact tended
    · refine (Tended.of_spares spares other (inv.tended k found old)).weaken ?_
      rintro ⟨strictly, stopping⟩
      exact ⟨strictly, fun loosely => stopping (looser k other loosely)⟩
  case owner =>
    intro key entry pending
    rw [touch_lanes, Dictionary.get?_put]
    by_cases own : entry.effect.laneId = l
    · simp [own]
    · rw [if_neg (fun same => own same.symm)]
      exact inv.owner key entry ((spares key entry own).mp pending)
  case merging =>
    intro key entry pending merge
    by_cases own : entry.effect.laneId = l
    · exact inv.merging key entry (merges key entry pending own merge) merge
    · exact inv.merging key entry ((spares key entry own).mp pending) merge
  case requested => exact inv.requested
  case winner =>
    intro k won
    obtain ⟨first, there, success⟩ := inv.winner k won
    by_cases same : l = k
    · subst same
      exact ⟨now, Dictionary.get?_put_self .., (kept won).1⟩
    · exact ⟨first, by rw [touch_lanes, Dictionary.get?_put_ne _ _ same]; exact there, success⟩
  case promised =>
    intro strictly pending
    obtain ⟨k, won, key, entry, there, owned, typed⟩ := inv.promised strictly pending
    refine ⟨k, won, key, entry, ?_, owned, typed⟩
    by_cases same : k = l
    · subst same
      rw [touch_intents, (kept won).2]
      exact there
    · exact (spares key entry (by rw [owned]; exact same)).mpr there
  case quiet =>
    intro strictly silent pending
    have still := inv.quiet strictly silent pending
    have le := quiet strictly silent pending
    have nonneg := tally_nonneg (!terminal ·.phase) (s.lanes.put l now)
    have counted := tally_put (!terminal ·.phase) now here
    rw [← inv.open_eq] at counted
    rw [touch_open]
    unfold isOpen at le
    omega

/-! ### The intents of a changed lane -/

section Intents

variable {strict : Prop} {l : String} {lane now : Lane} {before after : Dictionary Intent}

theorem Spares.refl (l : String) (intents : Dictionary Intent) : Spares l intents intents :=
  fun _ _ _ => Iff.rfl

theorem Spares.trans {middle : Dictionary Intent} (first : Spares l before middle)
    (second : Spares l middle after) : Spares l before after :=
  fun key entry other => (second key entry other).trans (first key entry other)

theorem Spares.filter (p : Effect → Bool) (own : ∀ effect, p effect = true → effect.laneId = l) :
    Spares l before (before.filter fun entry => !p entry.effect) := by
  intro key entry other
  rw [Dictionary.get?_filter_eq_some]
  constructor
  · exact And.left
  · intro here
    refine ⟨here, ?_⟩
    cases dropped : p entry.effect
    · rfl
    · exact absurd (own _ dropped) other

theorem Spares.put {key : String} {effect : Effect} (absent : before.get? key = none)
    (own : effect.laneId = l) : Spares l before (before.put key { id := key, effect }) := by
  intro key' entry other
  rw [Dictionary.get?_put]
  split
  next same =>
    subst same
    rw [absent]
    constructor
    · intro new
      cases new
      exact absurd own other
    · intro none_eq
      cases none_eq
  next => exact Iff.rfl

theorem Spares.erase {key : String}
    (own : ∀ entry, before.get? key = some entry → entry.effect.laneId = l) :
    Spares l before (before.erase key) := by
  intro key' entry other
  rw [Dictionary.get?_erase]
  split
  next same =>
    subst same
    constructor
    · intro none_eq
      cases none_eq
    · intro here
      exact absurd (own entry here) other
  next => exact Iff.rfl

theorem Tended.sub {strict' : Prop} (tended : Tended strict before l lane)
    (fewer : ∀ key entry, after.get? key = some entry → entry.effect.laneId = l →
      before.get? key = some entry)
    (suits : ∀ key entry, after.get? key = some entry → entry.effect.laneId = l →
      Suits lane entry.effect → Suits now entry.effect)
    (attempt : now.attempt = lane.attempt)
    (owed : strict' → ∀ type, now.required = some type → Pends after l type) :
    Tended strict' after l now := by
  constructor
  · intro key entry here own
    exact tended.named key entry (fewer key entry here own) own
  · intro key entry here own
    obtain ⟨current, suited⟩ := tended.suits key entry (fewer key entry here own) own
    exact ⟨current.trans attempt.symm, suits key entry here own suited⟩
  · intro key entry key' entry' here here' own own' same
    exact tended.sole key entry key' entry' (fewer key entry here own)
      (fewer key' entry' here' own') own own' same
  · exact owed

theorem Tended.keep {strict' : Prop} (tended : Tended strict before l lane)
    (implies : strict' → strict)
    (suits : ∀ key entry, before.get? key = some entry → entry.effect.laneId = l →
      Suits lane entry.effect → Suits now entry.effect)
    (attempt : now.attempt = lane.attempt)
    (required : ∀ type, now.required = some type → lane.required = some type) :
    Tended strict' before l now :=
  tended.sub (fun _ _ here _ => here) suits attempt
    fun strictly type owed => tended.owed (implies strictly) type (required type owed)

theorem Tended.bare (none_left : ∀ key entry, after.get? key = some entry →
    entry.effect.laneId ≠ l) (required : strict → now.required = none) :
    Tended strict after l now := by
  constructor
  · intro key entry here own
    exact absurd own (none_left key entry here)
  · intro key entry here own
    exact absurd own (none_left key entry here)
  · intro key entry _ _ here _ own
    exact absurd own (none_left key entry here)
  · intro strictly type owed
    rw [required strictly] at owed
    cases owed

theorem Tended.put {key : String} {effect : Effect} (tended : Tended False before l now)
    (absent : before.get? key = none) (valid : isOrchestrationId key = true)
    (own : effect.laneId = l) (content : effect.valid = true)
    (attempt : effect.attempt = now.attempt) (suits : Suits now effect)
    (new : ¬ Pends before l effect.type)
    (required : ∀ type, now.required = some type → type = effect.type ∨ Pends before l type) :
    Tended strict (before.put key { id := key, effect }) l now := by
  have split_lookup : ∀ key' entry,
      (before.put key { id := key, effect }).get? key' = some entry →
      (key' = key ∧ entry = { id := key, effect }) ∨ before.get? key' = some entry := by
    intro key' entry here
    rw [Dictionary.get?_put] at here
    split at here
    next same =>
      cases here
      exact .inl ⟨same.symm, rfl⟩
    next => exact .inr here
  constructor
  · intro key' entry here owned
    rcases split_lookup key' entry here with ⟨rfl, rfl⟩ | old
    · exact ⟨rfl, by simp [Intent.valid, valid, content]⟩
    · exact tended.named key' entry old owned
  · intro key' entry here owned
    rcases split_lookup key' entry here with ⟨rfl, rfl⟩ | old
    · exact ⟨attempt, suits⟩
    · exact tended.suits key' entry old owned
  · intro key₁ entry₁ key₂ entry₂ here₁ here₂ own₁ own₂ same
    rcases split_lookup key₁ entry₁ here₁ with ⟨rfl, rfl⟩ | old₁ <;>
      rcases split_lookup key₂ entry₂ here₂ with ⟨rfl, rfl⟩ | old₂
    · rfl
    · exact absurd ⟨key₂, entry₂, old₂, own₂, same.symm⟩ new
    · exact absurd ⟨key₁, entry₁, old₁, own₁, same⟩ new
    · exact tended.sole key₁ entry₁ key₂ entry₂ old₁ old₂ own₁ own₂ same
  · intro _ type owed
    rcases required type owed with rfl | ⟨key', entry, here, owned, typed⟩
    · exact ⟨key, { id := key, effect }, Dictionary.get?_put_self .., own, rfl⟩
    · refine ⟨key', entry, ?_, owned, typed⟩
      rw [Dictionary.get?_put_ne]
      · exact here
      · intro same
        subst same
        rw [absent] at here
        cases here

theorem Tended.cleared (tended : Tended strict before l lane) (unmerged : lane.phase ≠ .succeeded)
    (key : String) (entry : Intent)
    (left : (before.filter fun entry =>
      !(entry.effect.laneId == l && entry.effect.type != .merge)).get? key = some entry) :
    entry.effect.laneId ≠ l := by
  intro own
  rw [Dictionary.get?_filter_eq_some] at left
  obtain ⟨here, stays⟩ := left
  have merge : entry.effect.type = .merge := by simpa [own] using stays
  have suited := (tended.suits key entry here own).2
  cases effect : entry.effect <;> simp only [effect, Effect.type, reduceCtorEq] at merge
  rw [effect] at suited
  exact unmerged suited.1

/-- The intents without the checks of a lane. -/
def withoutChecks (l : String) (intents : Dictionary Intent) : Dictionary Intent :=
  intents.filter fun entry => !(entry.effect.laneId == l && entry.effect.type == .check)

theorem get?_withoutChecks {key : String} {entry : Intent} :
    (withoutChecks l before).get? key = some entry ↔ before.get? key = some entry ∧
      ¬ (entry.effect.laneId = l ∧ entry.effect.type = .check) := by
  rw [withoutChecks, Dictionary.get?_filter_eq_some]
  simp only [Bool.not_eq_eq_eq_not, Bool.not_true, Bool.and_eq_false_imp, beq_iff_eq, not_and]
  simp

theorem spares_withoutChecks : Spares l before (withoutChecks l before) :=
  Spares.filter (fun effect => effect.laneId == l && effect.type == .check) (by simp; tauto)

theorem spares_clearLaneIntents : Spares l before (before.filter fun entry =>
    !(entry.effect.laneId == l && entry.effect.type != .merge)) :=
  Spares.filter (fun effect => effect.laneId == l && effect.type != .merge) (by simp; tauto)

end Intents

/-! ### Changes that the parent need not notice -/

theorem shift_zero (f : String → Int) (at_ : Option String) : shift f at_ 0 = f := by
  funext k
  simp [shift]

theorem Ghost.after_eq (g : Ghost) (l : String) {lane now : Lane} (opened : isOpen now = isOpen lane)
    (failure : isFailure now = isFailure lane) (children : now.children = lane.children)
    (failed : now.failedChildren = lane.failedChildren) : g.after l lane now = g := by
  simp [Ghost.after, opened, failure, children, failed, shift_zero]

theorem isOpen_of_going {lane : Lane} (going : terminal lane.phase = false) : isOpen lane = 1 := by
  simp [isOpen, going]

theorem isFailure_of_going {lane : Lane} (going : terminal lane.phase = false) :
    isFailure lane = 0 := by
  simp [isFailure, going]

theorem Inv.adjust {g : Ghost} {s : State} {l : String} {lane now : Lane}
    {intents : Dictionary Intent} (inv : Inv g s) (here : s.lanes.get? l = some lane)
    (going : terminal lane.phase = false) (goes : terminal now.phase = false)
    (place : SamePlace lane now) (children : now.children = lane.children)
    (failed : now.failedChildren = lane.failedChildren) {loose : String → Prop}
    (looser : ∀ k, k ≠ l → g.loose k → loose k)
    (proper : Proper s.input s.stopReason (loose l) now) (spares : Spares l s.intents intents)
    (tended : Tended (g.strict ∧ (loose l → now.phase = .cancelling)) intents l now) :
    Inv { g with loose } (s.touch l lane now intents) := by
  have opened : isOpen now = isOpen lane := by
    rw [isOpen_of_going going, isOpen_of_going goes]
  have same : g.after l lane now = g := g.after_eq l opened
    (by rw [isFailure_of_going going, isFailure_of_going goes]) children failed
  have touched := inv.touch here place looser proper spares tended ?_ ?_ ?_
  · rwa [same] at touched
  · -- A pending merge is for a lane that succeeded.
    intro key entry pending own merge
    have suited := (tended.suits key entry pending own).2
    cases effect : entry.effect <;> simp only [effect, Effect.type, reduceCtorEq] at merge
    rw [effect] at suited
    rw [suited.1] at goes
    cases goes
  · intro won
    obtain ⟨first, there, success⟩ := inv.winner l won
    rw [here] at there
    cases there
    rw [success] at going
    cases going
  · intros
    rw [opened]

theorem Inv.adorn {g : Ghost} {s : State} {l : String} {lane now : Lane} (inv : Inv g s)
    (here : s.lanes.get? l = some lane) (place : SamePlace lane now)
    (phase : now.phase = lane.phase) (children : now.children = lane.children)
    (failed : now.failedChildren = lane.failedChildren)
    (proper : Proper s.input s.stopReason (g.loose l) now)
    (tended : Tended (g.strict ∧ (g.loose l → now.phase = .cancelling)) s.intents l now) :
    Inv g (s.touch l lane now s.intents) := by
  have opened : isOpen now = isOpen lane := by rw [isOpen, isOpen, phase]
  have same : g.after l lane now = g := g.after_eq l opened
    (by rw [isFailure, isFailure, phase]) children failed
  have touched := inv.touch here place (fun _ _ => id) proper (Spares.refl _ _) tended
    (fun _ _ pending _ _ => pending) ?_ ?_
  · rwa [same] at touched
  · intro won
    obtain ⟨first, there, success⟩ := inv.winner l won
    rw [here] at there
    cases there
    exact ⟨phase.trans success, rfl⟩
  · intros
    rw [opened]

theorem Inv.tighten {g : Ghost} {s : State} (inv : Inv g s) {loose : String → Prop}
    (settled : ∀ l lane, s.lanes.get? l = some lane → g.loose l → ¬ loose l →
      terminal lane.phase = true ∨ lane.phase = .cancelling) : Inv { g with loose } s := by
  refine { inv with proper := ?_, tended := ?_ }
  rotate_left
  · intro l lane here
    have tended := inv.tended l lane here
    by_cases excused : g.loose l ∧ ¬ loose l ∧ lane.phase ≠ .cancelling
    · rcases settled l lane here excused.1 excused.2.1 with isOver | stopping
      · refine { tended with owed := fun _ type required => ?_ }
        unfold Lane.required at required
        split at required <;> simp_all [terminal]
      · exact absurd stopping excused.2.2
    · refine tended.weaken ?_
      rintro ⟨strictly, stopping⟩
      refine ⟨strictly, fun loosely => ?_⟩
      by_cases still : loose l
      · exact stopping still
      · by_contra going
        exact excused ⟨loosely, still, going⟩
  intro l lane here
  have was := inv.proper l lane here
  by_cases still : loose l
  · exact { was with
      approved := fun passed => (was.approved passed).imp_right (And.imp_left fun _ => still)
      halted := fun stopped going => (was.halted stopped going).imp_right fun _ => still }
  · refine { was with approved := ?_, halted := ?_ }
    · intro passed
      rcases was.approved passed with done | ⟨loosely, going, -⟩
      · exact .inl done
      · rcases settled l lane here loosely still with isOver | stopping
        · rw [isOver] at going
          cases going
        · exact .inl (.inr (.inl stopping))
    · intro stopped going
      rcases was.halted stopped going with stopping | loosely
      · exact .inl stopping
      · rcases settled l lane here loosely still with isOver | stopping
        · rw [isOver] at going
          cases going
        · exact .inl stopping

end Ace.Orchestrator
