import Ace.Projection.Organization

/-!
# Settling again

A decision is taken again whenever a thread changes and at its deadlines. What it writes is mostly
what it would write again: it reads no time but that of the deadlines. The exception is a thread
without activity. Its deadline counts from its last update, and writing the decision is one.

## Main result

`settleDecision_fixpoint`
-/

namespace Ace.Organization

variable {thread again : Thread} {policy : SettlePolicy} {time later : ℚ} {expired : Changes}

/-! ### What a decision leaves alone -/

/-- What an update of the organization leaves alone. -/
structure SameFacts (thread again : Thread) : Prop where
  state : again.state = thread.state
  queue : again.queue = thread.queue
  details : again.details = thread.details
  deletedAt : again.deletedAt = thread.deletedAt
  archivedAt : again.archivedAt = thread.archivedAt
  pinned : again.pinned = thread.pinned
  activityAt : again.activityAt = thread.activityAt
  autoSettle : again.autoSettle = thread.autoSettle

theorem updateThread_facts (thread : Thread) (changes : Changes) (time : ℚ) :
    SameFacts thread (updateThread thread changes time) := by
  constructor <;> rfl

/-- The fields that automatic settling reads as well as writes, and the clock. -/
structure Written (thread again : Thread) (changes : Changes) (time : ℚ) : Prop where
  settledAt : again.settledAt = changes.settledAt.getD thread.settledAt
  settledReason : again.settledReason = changes.settledReason.getD thread.settledReason
  autoSettleAt : again.autoSettleAt = changes.autoSettleAt.getD thread.autoSettleAt
  prSettled : again.prSettled = changes.prSettled.getD thread.prSettled
  prSettledKey : again.prSettledKey = changes.prSettledKey.getD thread.prSettledKey
  updatedAt : again.updatedAt = time

/-! ### The branches of automatic settling -/

/-- Out of the reach of every automatic rule for a reason that stays. -/
def Held (thread : Thread) (policy : SettlePolicy) : Prop :=
  thread.archivedAt ≠ none ∨ thread.pinned = some true ∨ threadAttention thread.queue ≠ none ∨
    thread.settledAt ≠ none ∨ thread.autoSettle ≠ none ∨
    ¬(thread.state = .done ∨ thread.state = .new ∨ thread.state = .failed) ∨
    (pullRequests thread.details).any (PullRequest.blocks policy) = true

/-- Its pull requests settle the thread now. -/
def PrDue (thread : Thread) (policy : SettlePolicy) : Prop :=
  pullRequests thread.details ≠ [] ∧ prRuleEnabled policy (pullRequests thread.details) = true ∧
    alreadySettled thread (pullRequests thread.details) = false

instance : Decidable (PrDue thread policy) := inferInstanceAs (Decidable (_ ∧ _ ∧ _))

theorem automatic_surfaced (surfaced : thread.deletedAt ≠ none ∨ thread.state = .working) :
    automaticSettle thread policy time expired =
      { expired with
        autoSettleAt := some none, settledAt := some none, settledReason := some none } := by
  rw [automaticSettle, if_pos (by simpa using surfaced)]

section

variable (present : ¬(thread.deletedAt ≠ none ∨ thread.state = .working))

include present

theorem automatic_held (held : Held thread policy) :
    automaticSettle thread policy time expired = { expired with autoSettleAt := some none } := by
  rw [automaticSettle, if_neg (by simpa using present)]
  split
  · rfl
  next free =>
    split
    · rfl
    next open_ =>
      split
      · rfl
      next state =>
        -- of the reasons, only the pull requests are left
        have blocked : (pullRequests thread.details).any (PullRequest.blocks policy) = true := by
          simp only [Bool.or_eq_true, decide_eq_true_eq, not_or] at free open_
          simp only [Bool.not_eq_true', Bool.or_eq_false_iff, decide_eq_false_iff_not] at state
          rcases held with held | held | held | held | held | held | held
          · exact absurd held free.1.1
          · exact absurd held free.1.2
          · exact absurd held free.2
          · exact absurd held open_.1
          · exact absurd held open_.2
          · tauto
          · exact held
        simp only [blocked, if_true]

theorem automatic_free (free : ¬Held thread policy) :
    automaticSettle thread policy time expired =
      if PrDue thread policy then
        { expired with
          settledAt := some (some time)
          settledReason := some (some
            (if (pullRequests thread.details).all (·.state = .merged) then .prMerged
              else .prClosed))
          autoSettleAt := some none
          prSettled := some ((pullRequests thread.details).head?.map (·.number))
          prSettledKey := some (settledKey (pullRequests thread.details)) }
      else if thread.state ≠ .done then { expired with autoSettleAt := some none }
      else
        match due thread policy with
        | some deadline =>
          if deadline ≤ time then
            { expired with
              settledAt := some (some time), settledReason := some (some .inactivity)
              autoSettleAt := some none }
          else { expired with autoSettleAt := some (some deadline) }
        | none => { expired with autoSettleAt := some none } := by
  simp only [Held, not_or, not_not] at free
  obtain ⟨archived, pinned, calm, settled, off, state, resolved⟩ := free
  have notBlocked : (pullRequests thread.details).any (PullRequest.blocks policy) = false := by
    simpa using resolved
  rw [automaticSettle, if_neg (by simpa using present), if_neg (by simp [archived, pinned, calm]),
    if_neg (by simp [settled, off]), if_neg (by simpa [or_assoc] using state)]
  simp only [notBlocked, Bool.false_eq_true, if_false]
  have condition : (pullRequests thread.details ≠ [] && prRuleEnabled policy
      (pullRequests thread.details) && !alreadySettled thread (pullRequests thread.details)) = true ↔
      PrDue thread policy := by
    simp [PrDue, and_assoc]
  exact if_congr condition rfl rfl

end

/-! ### Taking a decision again -/

/-- A snooze says nothing about settling. -/
structure OnlySnooze (changes : Changes) : Prop where
  settledAt : changes.settledAt = none
  settledReason : changes.settledReason = none
  autoSettleAt : changes.autoSettleAt = none
  settleWhenDone : changes.settleWhenDone = none
  prSettled : changes.prSettled = none
  prSettledKey : changes.prSettledKey = none

/-- A thread without activity waits for the deadline that counts from its last update. -/
structure Drifts (thread : Thread) (policy : SettlePolicy) (time : ℚ) : Prop where
  inactive : thread.activityAt = none
  moved : thread.updatedAt ≠ time
  notRequested : thread.settleWhenDone = none
  present : thread.deletedAt = none
  finished : thread.state = .done
  free : ¬Held thread policy
  notDue : ¬PrDue thread policy
  counting : 0 < policy.hours
  early : time < thread.updatedAt + policy.hours * 3600000

theorem held_again (facts : SameFacts thread again) (settled : again.settledAt = thread.settledAt) :
    Held again policy ↔ Held thread policy := by
  simp only [Held, facts.archivedAt, facts.pinned, facts.queue, facts.autoSettle, facts.state,
    facts.details, settled]

theorem prDue_again (facts : SameFacts thread again) (settled : again.prSettled = thread.prSettled)
    (key : again.prSettledKey = thread.prSettledKey) : PrDue again policy ↔ PrDue thread policy := by
  simp only [PrDue, alreadySettled, facts.details, settled, key]

theorem not_requested (notRequested : settleRequest thread ≠ some .settle)
    (present : thread.deletedAt = none) (done : thread.state = .done)
    (free : ¬Held thread policy) : thread.settleWhenDone = none := by
  by_contra requested
  simp only [Held, not_or, not_not] at free
  obtain ⟨_, _, calm, _, off, _⟩ := free
  apply notRequested
  simp [settleRequest, requested, off, calm, present, done]

theorem automatic_settled (present : ¬(again.deletedAt ≠ none ∨ again.state = .working))
    (settled : again.settledAt ≠ none) (cleared : again.autoSettleAt = none) :
    NoChange again (automaticSettle again policy later {}) := by
  rw [automatic_held present (.inr (.inr (.inr (.inl settled))))]
  simp [NoChange, cleared]

theorem automatic_again (only : OnlySnooze expired) (facts : SameFacts thread again)
    (written : Written thread again (automaticSettle thread policy time expired) time)
    (stays : ¬Drifts thread policy time) (notRequested : settleRequest thread ≠ some .settle)
    (early : ∀ deadline, again.autoSettleAt = some deadline → later < deadline) :
    NoChange again (automaticSettle again policy later {}) := by
  by_cases surfaced : thread.deletedAt ≠ none ∨ thread.state = .working
  · have surfaced' : again.deletedAt ≠ none ∨ again.state = .working := by
      rwa [facts.deletedAt, facts.state]
    rw [automatic_surfaced surfaced] at written
    rw [automatic_surfaced surfaced']
    simp [NoChange, written.settledAt, written.settledReason, written.autoSettleAt]
  have present : ¬(again.deletedAt ≠ none ∨ again.state = .working) := by
    rwa [facts.deletedAt, facts.state]
  by_cases held : Held thread policy
  · rw [automatic_held surfaced held] at written
    have settled : again.settledAt = thread.settledAt := by
      rw [written.settledAt, only.settledAt]
      rfl
    rw [automatic_held present ((held_again facts settled).mpr held)]
    simp [NoChange, written.autoSettleAt]
  rw [automatic_free surfaced held] at written
  by_cases due_ : PrDue thread policy
  · rw [if_pos due_] at written
    exact automatic_settled present (by simp [written.settledAt]) (by simp [written.autoSettleAt])
  rw [if_neg due_] at written
  -- from here on the thread has settled by its deadline, or nothing but the deadline is written
  have stillFree : again.settledAt = thread.settledAt → ¬Held again policy := fun settled held' =>
    held ((held_again facts settled).mp held')
  have stillNotDue : again.prSettled = thread.prSettled → again.prSettledKey = thread.prSettledKey →
      ¬PrDue again policy := fun settled key due' => due_ ((prDue_again facts settled key).mp due')
  by_cases unfinished : thread.state ≠ .done
  · rw [if_pos unfinished] at written
    have settled := written.settledAt
    have prSettled := written.prSettled
    have key := written.prSettledKey
    simp only [only.settledAt, only.prSettled, only.prSettledKey, Option.getD_none]
      at settled prSettled key
    rw [automatic_free present (stillFree settled), if_neg (stillNotDue prSettled key),
      if_pos (by rwa [facts.state])]
    simp [NoChange, written.autoSettleAt]
  rw [if_neg unfinished] at written
  have done : thread.state = .done := not_not.mp unfinished
  have done' : ¬again.state ≠ .done := by rwa [facts.state]
  cases deadline : due thread policy with
  | none =>
    simp only [deadline] at written
    have settled := written.settledAt
    have prSettled := written.prSettled
    have key := written.prSettledKey
    simp only [only.settledAt, only.prSettled, only.prSettledKey, Option.getD_none]
      at settled prSettled key
    have noDeadline : due again policy = none := by
      rw [due] at deadline ⊢
      split at deadline
      · cases deadline
      next none_ => rw [if_neg none_]
    rw [automatic_free present (stillFree settled), if_neg (stillNotDue prSettled key), if_neg done',
      noDeadline]
    simp [NoChange, written.autoSettleAt]
  | some deadline_ =>
    simp only [deadline] at written
    by_cases passed : deadline_ ≤ time
    · rw [if_pos passed] at written
      exact automatic_settled present (by simp [written.settledAt]) (by simp [written.autoSettleAt])
    · rw [if_neg passed] at written
      have settled := written.settledAt
      have prSettled := written.prSettled
      have key := written.prSettledKey
      simp only [only.settledAt, only.prSettled, only.prSettledKey, Option.getD_none]
        at settled prSettled key
      have armed : again.autoSettleAt = some deadline_ := written.autoSettleAt
      have sameDeadline : due again policy = some deadline_ := by
        rw [due] at deadline ⊢
        split at deadline
        next counting =>
          rw [if_pos counting, facts.activityAt, ← deadline, written.updatedAt]
          cases active : thread.activityAt with
          | some at_ => rfl
          | none =>
            -- the clock has not moved, or the deadline would have drifted
            rw [active, Option.getD_none] at deadline
            have unmoved : thread.updatedAt = time := by
              by_contra moved
              have here : thread.deletedAt = none := not_not.mp fun gone => surfaced (.inl gone)
              refine stays ⟨active, moved, not_requested notRequested here done held, here, done,
                held, due_, counting, ?_⟩
              · rw [Option.some.inj deadline]
                exact not_le.mp passed
            rw [unmoved]
        · cases deadline
      rw [automatic_free present (stillFree settled), if_neg (stillNotDue prSettled key),
        if_neg done', sameDeadline]
      simp only [if_neg (not_le.mpr (early deadline_ armed))]
      simp [NoChange, armed]

/-! ### Snoozes and requests -/

theorem snoozeEnded_only (thread : Thread) (time : ℚ) : OnlySnooze (snoozeEnded thread time) := by
  constructor <;> rfl

/-- The end of a snooze that a decision begins with. -/
def expiry (thread : Thread) (time : ℚ) : Changes :=
  if snoozeEnds thread time then snoozeEnded thread time else {}

theorem expired_only (thread : Thread) (time : ℚ) : OnlySnooze (expiry thread time) := by
  rw [expiry]
  split
  · exact snoozeEnded_only thread time
  · constructor <;> rfl

/-- What a decision says of the snooze is what its end says. -/
structure SnoozeOf (changes expired : Changes) : Prop where
  snoozedUntil : changes.snoozedUntil = expired.snoozedUntil
  snoozeWake : changes.snoozeWake = expired.snoozeWake
  settleWhenDone : changes.settleWhenDone = expired.settleWhenDone

theorem automatic_snooze : SnoozeOf (automaticSettle thread policy time expired) expired := by
  by_cases surfaced : thread.deletedAt ≠ none ∨ thread.state = .working
  · rw [automatic_surfaced surfaced]
    constructor <;> rfl
  by_cases held : Held thread policy
  · rw [automatic_held surfaced held]
    constructor <;> rfl
  rw [automatic_free surfaced held]
  split
  · constructor <;> rfl
  · split
    · constructor <;> rfl
    · split
      · split
        · constructor <;> rfl
        · constructor <;> rfl
      · constructor <;> rfl

theorem snooze_again (time : ℚ) (facts : SameFacts thread again)
    (until_ : again.snoozedUntil = (expiry thread time).snoozedUntil.getD thread.snoozedUntil)
    (wake : again.snoozeWake = (expiry thread time).snoozeWake.getD thread.snoozeWake)
    (early : ∀ end_, again.snoozedUntil = some end_ → later < end_) :
    snoozeEnds again later = false := by
  rw [expiry] at until_ wake
  cases ended : snoozeEnds thread time with
  | true =>
    rw [ended, if_pos rfl] at until_ wake
    rw [snoozeEnds, until_, wake]
    rfl
  | false =>
    rw [ended, if_neg Bool.false_ne_true, Option.getD_none] at until_ wake
    have sameDue : snoozeWakeDue again = snoozeWakeDue thread := by
      simp only [snoozeWakeDue, wake, threadLive, facts.state, facts.queue, facts.details]
    rw [snoozeEnds] at ended ⊢
    rw [until_, wake, sameDue]
    rw [until_] at early
    cases isUntil : thread.snoozedUntil with
    | none =>
      rw [isUntil] at ended
      exact ended
    | some end_ =>
      rw [isUntil] at ended
      simp only [Bool.or_eq_false_iff, decide_eq_false_iff_not] at ended ⊢
      exact ⟨not_le.mpr (early end_ isUntil), ended.2⟩

theorem decision_again (facts : SameFacts thread again)
    (ended : snoozeEnds again later = false) (handled : settleRequest again = none)
    (same : NoChange again (automaticSettle again policy later {})) :
    NoChange again (settleDecision again policy later) := by
  rw [settleDecision, ended, handled]
  exact same

/-! ### The deadlines of a decision -/

theorem automatic_deadline (only : OnlySnooze expired)
    (written : again.autoSettleAt =
      (automaticSettle thread policy time expired).autoSettleAt.getD thread.autoSettleAt)
    {deadline : ℚ} (armed : again.autoSettleAt = some deadline) : time < deadline := by
  by_cases surfaced : thread.deletedAt ≠ none ∨ thread.state = .working
  · rw [automatic_surfaced surfaced, armed] at written
    cases written
  by_cases held : Held thread policy
  · rw [automatic_held surfaced held, armed] at written
    cases written
  rw [automatic_free surfaced held, armed] at written
  split at written
  · cases written
  split at written
  · cases written
  split at written
  next deadline_ _ =>
    split at written
    · cases written
    next notPassed =>
      rw [Option.some.inj written]
      exact not_le.mp notPassed
  · cases written

theorem snooze_deadline {end_ : ℚ}
    (asleep : (expiry thread time).snoozedUntil.getD thread.snoozedUntil = some end_) :
    time < end_ := by
  rw [expiry] at asleep
  cases ended : snoozeEnds thread time with
  | true =>
    rw [ended, if_pos rfl] at asleep
    cases asleep
  | false =>
    rw [ended, if_neg Bool.false_ne_true, Option.getD_none] at asleep
    rw [snoozeEnds, asleep] at ended
    simp only [Bool.or_eq_false_iff, decide_eq_false_iff_not] at ended
    exact not_le.mp ended.1

/-! ### The decision that was written -/

theorem decision_snooze (thread : Thread) (policy : SettlePolicy) (time : ℚ) :
    (settleDecision thread policy time).snoozedUntil = (expiry thread time).snoozedUntil ∧
      (settleDecision thread policy time).snoozeWake = (expiry thread time).snoozeWake := by
  have automatic := @automatic_snooze thread policy time (expiry thread time)
  rw [settleDecision]
  split
  · exact ⟨rfl, rfl⟩
  · exact ⟨automatic.snoozedUntil, automatic.snoozeWake⟩
  · exact ⟨automatic.snoozedUntil, automatic.snoozeWake⟩

theorem decision_written (policy : SettlePolicy) (time : ℚ)
    (notRequested : settleRequest thread ≠ some .settle) :
    Written thread (updateThread thread (settleDecision thread policy time) time)
      (automaticSettle thread policy time (expiry thread time)) time := by
  rw [settleDecision]
  split
  next requested => exact absurd requested notRequested
  · constructor <;> rfl
  · constructor <;> rfl

theorem request_again (thread : Thread) (policy : SettlePolicy) (time : ℚ) :
    settleRequest (updateThread thread (settleDecision thread policy time) time) = none := by
  have handled : (settleDecision thread policy time).settleWhenDone = some none →
      settleRequest (updateThread thread (settleDecision thread policy time) time) = none := by
    intro gone
    have none_ : (updateThread thread (settleDecision thread policy time) time).settleWhenDone =
        none := by
      change (settleDecision thread policy time).settleWhenDone.getD _ = none
      rw [gone]
      rfl
    rw [settleRequest, if_pos none_]
  cases request : settleRequest thread with
  | some r =>
    apply handled
    rw [settleDecision, request]
    cases r with
    | settle => rfl
    | drop => rfl
  | none =>
    have kept : (settleDecision thread policy time).settleWhenDone = none := by
      rw [settleDecision, request]
      exact (@automatic_snooze thread policy time (expiry thread time)).settleWhenDone.trans
        (expired_only thread time).settleWhenDone
    have same : (updateThread thread (settleDecision thread policy time) time).settleWhenDone =
        thread.settleWhenDone := by
      change (settleDecision thread policy time).settleWhenDone.getD _ = _
      rw [kept]
      rfl
    rw [settleRequest, same]
    exact request

/-! ### The main result -/

/-- The decision that was written stands at a time. -/
def Stands (thread : Thread) (policy : SettlePolicy) (time later : ℚ) : Prop :=
  let again := updateThread thread (settleDecision thread policy time) time
  NoChange again (settleDecision again policy later)

/-- Neither of the deadlines of the thread after the decision has come. -/
def Early (thread : Thread) (policy : SettlePolicy) (time later : ℚ) : Prop :=
  let again := updateThread thread (settleDecision thread policy time) time
  (∀ deadline, again.autoSettleAt = some deadline → later < deadline) ∧
    ∀ end_, again.snoozedUntil = some end_ → later < end_

theorem early_now (thread : Thread) (policy : SettlePolicy) (time : ℚ) :
    Early thread policy time time := by
  constructor
  · intro deadline armed
    by_cases requested : settleRequest thread = some .settle
    · change (settleDecision thread policy time).autoSettleAt.getD _ = _ at armed
      rw [settleDecision, requested] at armed
      cases armed
    · exact automatic_deadline (expired_only thread time)
        (decision_written policy time requested).autoSettleAt armed
  · intro end_ asleep
    change (settleDecision thread policy time).snoozedUntil.getD _ = _ at asleep
    rw [(decision_snooze thread policy time).1] at asleep
    exact snooze_deadline asleep

theorem stands_early (stays : ¬Drifts thread policy time) (early : Early thread policy time later) :
    Stands thread policy time later := by
  have facts := updateThread_facts thread (settleDecision thread policy time) time
  have snooze := decision_snooze thread policy time
  have asleep : snoozeEnds (updateThread thread (settleDecision thread policy time) time) later =
      false := by
    refine snooze_again time facts ?_ ?_ early.2
    · rw [← snooze.1]
      rfl
    · rw [← snooze.2]
      rfl
  refine decision_again facts asleep (request_again thread policy time) ?_
  by_cases requested : settleRequest thread = some .settle
  · -- the request is only followed for a finished thread, which is settled now
    have finished : thread.deletedAt = none ∧ thread.state = .done := by
      rw [settleRequest] at requested
      split at requested
      · cases requested
      · split at requested
        · cases requested
        · split at requested
          next finished => simpa using finished
          · split at requested <;> cases requested
    have isDecision : settleDecision thread policy time =
        { expiry thread time with
          settledAt := some (some time), settledReason := some (some .manual)
          autoSettleAt := some none, settleWhenDone := some none } := by
      rw [settleDecision, requested]
      rfl
    rw [isDecision] at facts ⊢
    refine automatic_settled ?_ nofun rfl
    rw [facts.deletedAt, facts.state, finished.1, finished.2]
    decide
  · exact automatic_again (expired_only thread time) facts (decision_written policy time requested) stays
      requested early.1

theorem drifts_moves (drifts : Drifts thread policy time) : ¬Stands thread policy time time := by
  intro stands
  have present : ¬(thread.deletedAt ≠ none ∨ thread.state = .working) := by
    rw [drifts.present, drifts.finished]
    decide
  have unfinished : ¬thread.state ≠ .done := not_not.mpr drifts.finished
  have noRequest : settleRequest thread = none := by
    rw [settleRequest, if_pos drifts.notRequested]
  have only := expired_only thread time
  have facts := updateThread_facts thread (settleDecision thread policy time) time
  have notSettle : settleRequest thread ≠ some .settle := by
    rw [noRequest]
    nofun
  have written := decision_written policy time notSettle
  have again_ := request_again thread policy time
  have deadline : due thread policy = some (thread.updatedAt + policy.hours * 3600000) := by
    rw [due, if_pos drifts.counting, drifts.inactive]
    rfl
  rw [automatic_free present drifts.free, if_neg drifts.notDue, if_neg unfinished, deadline]
    at written
  simp only [if_neg (not_le.mpr drifts.early)] at written
  -- the deadline that was written counts from before, the next one from now
  have armed := written.autoSettleAt
  have settled := written.settledAt
  have prSettled := written.prSettled
  have key := written.prSettledKey
  simp only [only.settledAt, only.prSettled, only.prSettledKey, Option.getD_none]
    at settled prSettled key
  rw [Stands] at stands
  generalize updateThread thread (settleDecision thread policy time) time = again
    at facts written again_ armed settled prSettled key stands
  have present' : ¬(again.deletedAt ≠ none ∨ again.state = .working) := by
    rwa [facts.deletedAt, facts.state]
  have free : ¬Held again policy := fun held' => drifts.free ((held_again facts settled).mp held')
  have notDue : ¬PrDue again policy :=
    fun due' => drifts.notDue ((prDue_again facts prSettled key).mp due')
  have unfinished' : ¬again.state ≠ .done := by rwa [facts.state]
  have next : due again policy = some (time + policy.hours * 3600000) := by
    rw [due, if_pos drifts.counting, facts.activityAt, drifts.inactive, written.updatedAt]
    rfl
  have positive : 0 < policy.hours * 3600000 := mul_pos drifts.counting (by norm_num)
  have rearmed := stands.2.2.2.2.2.1
  rw [settleDecision, again_] at rearmed
  simp only [automatic_free present' free, if_neg notDue, if_neg unfinished', next,
    if_neg (not_le.mpr (lt_add_of_pos_right time positive)), Option.getD_some] at rearmed
  rw [armed, Option.getD_some, Option.some.injEq] at rearmed
  exact drifts.moved (add_right_cancel rearmed).symm

/-- Once its decision is written, a thread is left alone, at that time and until the deadlines it
has then, exactly if it does not wait, without any activity, for a deadline that counts from an
earlier update. -/
theorem settleDecision_fixpoint (thread : Thread) (policy : SettlePolicy) (time : ℚ) :
    (Stands thread policy time time ∧
      ∀ later, time ≤ later → Early thread policy time later → Stands thread policy time later) ↔
        ¬Drifts thread policy time := by
  constructor
  · rintro ⟨now, _⟩ drifts
    exact drifts_moves drifts now
  · intro stays
    exact ⟨stands_early stays (early_now thread policy time),
      fun later _ early => stands_early stays early⟩

/-- A finished thread without activity, updated at 0 and decided on at 10. -/
theorem counter_imported :
    ¬∀ thread policy time, Stands thread policy time time ∧
      ∀ later, time ≤ later → Early thread policy time later → Stands thread policy time later := by
  intro stands
  refine @drifts_moves { state := .done, updatedAt := 0 }
    { hours := 24, merged := true, closed := false } 10 ?_ (stands _ _ _).1
  refine ⟨rfl, by norm_num, rfl, rfl, rfl, ?_, ?_, by norm_num, by norm_num⟩
  · simp [Held, threadAttention, pullRequests]
  · simp [PrDue, pullRequests]

end Ace.Organization
