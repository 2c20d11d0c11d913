import Ace.Properties.LaneLifecycle

/-!
# Failing, joining and finishing

`finish`, `fail` and `reconcile` call one another up the lane tree. Each keeps the invariant
between facts, given that `finish` does so for lanes that are not deeper; the recursion is an
induction on the depth.
-/

namespace Ace.Orchestrator

open Script Script.Command

abbrev Ghost.at (l : String) (strict : Prop) : Ghost := { loose := fun k => k = l, strict }

theorem Rest.loosen {strict : Prop} {s : State} (rest : Rest strict s) (l : String) :
    Inv (.at l strict) s :=
  Inv.tighten rest fun _ _ _ loosely => loosely.elim

theorem loose_at {l : String} {strict : Prop} (k : String) (other : k ≠ l)
    (loosely : (Ghost.at l strict).loose k) : False :=
  other loosely

/-- `finish` does its part for lanes down to a depth. -/
structure Finishes (ctx : Context) (n : Nat) (finish : String → Outcome → Reducer PUnit) :
    Prop where
  drops : Drops ctx finish
  settles : ∀ (strict : Prop) (w : Mutation) l lane outcome, Inv (.at l strict) w.state →
    w.state.lanes.get? l = some lane → terminal lane.phase = false → lane.children = 0 →
    Fitting w.state.stopReason lane outcome → lane.depth ≤ n →
    Meets Ordinary (finish l outcome) w fun _ w' => Rest strict w'.state ∧
      Onward (fun _ => False) (fun k => k = l ∧ outcome = .succeeded) w.state w'.state ∧
      ∃ lane', w'.state.lanes.get? l = some lane' ∧ lane'.phase = outcome.phase

theorem Inv.await {strict : Prop} {s : State} {l : String} {lane : Lane} {error : String}
    (inv : Inv (.at l strict) s) (here : s.lanes.get? l = some lane)
    (going : terminal lane.phase = false) (staying : lane.phase ≠ .cancelling)
    (running : s.stopReason = none) (parenting : 0 < lane.children)
    (valid : lengthWithin 0 8192 error = true) :
    Rest strict (s.touch l lane { lane with
      error := some error, checksPassed := some false, threadDone := true, phase := .joining }
      s.intents) := by
  have was := inv.proper l lane here
  have content := was.content
  rw [Lane.contentValid_iff] at content
  apply inv.adjust here going rfl
  · exact ⟨rfl, rfl, rfl, le_refl _⟩
  · rfl
  · rfl
  · exact loose_at
  · exact { was with
      content := by
        rw [Lane.contentValid_iff]
        simp [content, valid]
      queued := fun h => by cases h
      isOver := fun h => by cases h
      checking := fun h => by cases h
      unbound := fun h => by rcases h with h | h <;> cases h
      success := fun h => by cases h
      approved := fun h => by cases h
      stopping := fun h => by rcases h with h | h <;> cases h
      halted := fun h => by rw [running] at h; cases h }
  · exact Spares.refl _ _
  · refine (inv.tended l lane here).sub (fun _ _ pending _ => pending) ?_ rfl
      (fun _ type h => by cases h)
    intro key entry _ _ suited
    cases effect : entry.effect <;> rw [effect] at suited
    · simp [Suits, Active]
    · have := suited.2.2.1
      omega
    · exact absurd suited staying
    · rw [suited.1] at going
      cases going

theorem usage_valid_zero : ({} : Usage).valid = true := by simp [Usage.valid]

theorem Inv.retry {strict : Prop} {s : State} {l : String} {lane : Lane} {error : String}
    (inv : Inv (.at l strict) s) (here : s.lanes.get? l = some lane)
    (going : terminal lane.phase = false) (running : s.stopReason = none)
    (left : lane.attempt < s.input.template.budget.maxAttempts)
    (valid : lengthWithin 0 8192 error = true) {startedAt : Nat}
    (started : startedAt = lane.startedAt) {key : String} (fresh : isOrchestrationId key = true)
    (absent : (withoutLane l s.intents).get? key = none) :
    Rest strict (s.touch l lane { lane with
        error := some error, attempt := lane.attempt + 1, threadDone := false, attemptUsage := {}
        threadId := none, worktree := none, artifact := none, checksPassed := none, startedAt
        phase := .starting }
      ((withoutLane l s.intents).put key
        { id := key, effect := .start l (lane.attempt + 1) lane.prompt lane.spec lane.input })) := by
  have was := inv.proper l lane here
  have content := was.content
  rw [Lane.contentValid_iff] at content
  have unmerged : lane.phase ≠ .succeeded := by
    intro success
    rw [success] at going
    cases going
  have bare := (inv.tended l lane here).cleared unmerged
  have attempts : isAttempt (lane.attempt + 1) = true := by
    have head := inv.head
    simp only [State.headValid, Create.valid, Template.valid, Budget.valid, Bool.and_eq_true,
      decide_eq_true_eq] at head
    simp only [isAttempt, decide_eq_true_eq]
    omega
  apply inv.adjust here going rfl
  · exact ⟨rfl, rfl, rfl, Nat.le_succ _⟩
  · rfl
  · rfl
  · exact loose_at
  · exact { was with
      content := by
        rw [Lane.contentValid_iff]
        simp [content, valid, attempts, started, usage_valid_zero]
      attempts := left
      queued := fun h => by cases h
      isOver := fun h => by cases h
      checking := fun h => by cases h
      unbound := fun _ => rfl
      bound := rfl
      success := fun h => by cases h
      approved := fun h => by cases h
      stopping := fun h => by rcases h with h | h <;> cases h
      halted := fun h => by rw [running] at h; cases h }
  · exact spares_clearLaneIntents.trans (Spares.put absent rfl)
  · refine Tended.put (Tended.bare bare fun impossible => impossible.elim) absent fresh rfl ?_ rfl
      (.inl rfl) ?_ ?_
    · rw [inv.id_eq l lane here] at content
      have prompt : lengthWithin 0 33024 lane.prompt = true := by
        have long := content.2.2.1
        simp only [lengthWithin, decide_eq_true_eq] at long ⊢
        omega
      simp [Effect.valid, Effect.laneId, Effect.attempt, content, attempts, prompt]
    · rintro ⟨key', entry, pending, own, -⟩
      exact bare key' entry pending own
    · intro type required
      cases required
      exact .inl rfl

section

variable {ctx : Context} {finish : String → Outcome → Reducer PUnit} {n : Nat} {w : Mutation}

theorem failWith_spec (finishes : Finishes ctx n finish) {strict : Prop} {l : String} {lane : Lane}
    (inv : Inv (.at l strict) w.state) (here : w.state.lanes.get? l = some lane)
    (going : terminal lane.phase = false) (staying : lane.phase ≠ .cancelling)
    (running : w.state.stopReason = none)
    (approved : lane.checksPassed = some true → lane.threadDone = true) (depth : lane.depth ≤ n)
    (error : String) (valid : lengthWithin 0 8192 error = true) :
    Meets Ordinary (failWith ctx finish l error) w fun _ w' => Rest strict w'.state ∧
      Subsides w.state w'.state ∧
      ∀ lane', w'.state.lanes.get? l = some lane' → lane'.phase ≠ .checking := by
  have unsuccessful : lane.phase ≠ .succeeded := by
    intro success
    rw [success] at going
    cases going
  have moved : ∀ {now : Lane} {intents : Dictionary Intent}, terminal now.phase = false →
      Subsides w.state (w.state.touch l lane now intents) := by
    intro now intents goes
    apply Onward.touch here
    · intro isOver
      rw [isOver] at going
      cases going
    · intro success
      rw [success] at goes
      cases goes
  rw [failWith, meets_bind]
  apply (Edits.first here).changeLane rfl
  intro w₁ noted
  simp only [meets_bind, meets_getLane noted.lane_eq, meets_getState, meets_ite]
  constructor
  · intro parenting
    apply noted.changeLane rfl
    intro w₂ awaiting
    apply awaiting.phase
    intro w₃ joined
    rw [joined.state]
    refine ⟨inv.await here going staying running parenting valid, moved rfl, ?_⟩
    intro lane' there
    rw [touch_lanes, Dictionary.get?_put_self] at there
    cases there
    exact fun h => by cases h
  intro childless
  constructor
  · rintro ⟨-, -, left⟩
    apply noted.dropIntents
    intro w₂ cleared
    apply cleared.changeLane rfl
    intro w₃ reset
    rw [start, meets_bind]
    apply reset.changeLane rfl
    intro w₄ timed
    rw [meets_bind]
    apply timed.phase
    intro w₅ starting
    simp only [meets_bind, meets_getLane starting.lane_eq]
    apply starting.intent
    intro w₆ key fresh absent pending
    rw [pending.state]
    have positive : lane.attempt + 1 ≠ 1 := by
      have content := (inv.proper l lane here).content
      rw [Lane.contentValid_iff] at content
      have attempt := content.2.2.2.2.2.2.2.2.1
      simp only [isAttempt, decide_eq_true_eq] at attempt
      omega
    have budget : lane.attempt < w.state.input.template.budget.maxAttempts := by
      simpa [noted.state] using left
    refine ⟨?_, moved rfl, ?_⟩
    · exact inv.retry here going running budget valid (if_neg positive) fresh absent
    · intro lane' there
      rw [touch_lanes, Dictionary.get?_put_self] at there
      cases there
      exact fun h => by cases h
  · intro _
    have none_left : lane.children = 0 := by
      have counted := inv.children_eq l lane here
      have nonneg := tally_nonneg (openChild l) w.state.lanes
      simp only [Int.add_zero] at counted
      simp only [not_lt] at childless
      omega
    have marked : Inv (.at l strict) w₁.state := by
      have was := inv.proper l lane here
      have content := was.content
      rw [Lane.contentValid_iff] at content
      rw [noted.state]
      refine inv.adorn here ⟨rfl, rfl, rfl, le_refl _⟩ rfl rfl rfl { was with content := ?_ } ?_
      · rw [Lane.contentValid_iff]
        simp [content, valid]
      · exact (inv.tended l lane here).keep id (fun _ _ _ _ h => by simpa [Suits] using h) rfl
          (fun _ => id)
    apply Meets.mono (finishes.settles strict w₁ l _ .failed marked noted.lane_eq going none_left
      approved depth)
    rintro _ w' ⟨rest, onward, last, there, failed⟩
    have first : Subsides w.state w₁.state := by
      rw [noted.state]
      exact moved going
    have second : Subsides w₁.state w'.state :=
      onward.mono (fun _ => id) (fun _ h => by cases h.2)
    refine ⟨rest, first.trans second, ?_⟩
    intro lane' there'
    rw [there] at there'
    cases there'
    rw [failed]
    exact fun h => by cases h

/-! ### Joining -/

/-- A phase in which a lane waits for nothing the host has to do. -/
def Idle (phase : LanePhase) : Prop :=
  phase = .working ∨ phase = .waiting ∨ phase = .collecting ∨ phase = .joining

theorem Rest.running {strict : Prop} {s : State} {l : String} {lane : Lane} (rest : Rest strict s)
    (here : s.lanes.get? l = some lane) (going : terminal lane.phase = false)
    (staying : lane.phase ≠ .cancelling) :
    s.stopReason = none ∧ lane.checksPassed ≠ some true := by
  have was := rest.proper l lane here
  constructor
  · by_contra stopped
    rcases was.halted (Option.isSome_iff_ne_none.mpr stopped) going with stopping | impossible
    · exact staying stopping
    · exact impossible
  · intro passed
    rcases was.approved passed with (done | stopping | stopped | ⟨failed, -⟩) | ⟨impossible, -⟩
    · rw [done] at going
      cases going
    · exact staying stopping
    · rw [stopped] at going
      cases going
    · rw [failed] at going
      cases going
    · exact impossible

theorem Inv.idle {strict : Prop} {s : State} {l : String} {lane now : Lane}
    (inv : Inv (.at l strict) s) (here : s.lanes.get? l = some lane)
    (going : terminal lane.phase = false) (staying : lane.phase ≠ .cancelling)
    (running : s.stopReason = none) (place : SamePlace lane now)
    (attempt : now.attempt = lane.attempt) (children : now.children = lane.children)
    (failed : now.failedChildren = lane.failedChildren) (content : now.contentValid = true)
    (bound : now.threadId.isSome = now.worktree.isSome) (idle : Idle now.phase)
    (unapproved : now.checksPassed ≠ some true) {intents : Dictionary Intent}
    (spares : Spares l s.intents intents)
    (fewer : ∀ key entry, intents.get? key = some entry → entry.effect.laneId = l →
      s.intents.get? key = some entry ∧ entry.effect.type ≠ .check) :
    Rest strict (s.touch l lane now intents) := by
  have was := inv.proper l lane here
  have goes : terminal now.phase = false := by
    rcases idle with h | h | h | h <;> rw [h] <;> rfl
  refine inv.adjust here going goes place children failed loose_at ?_ spares ?_
  · exact {
      content
      attempts := attempt ▸ was.attempts
      deep := place.depth_eq ▸ was.deep
      queued := fun h => by rcases idle with h' | h' | h' | h' <;> rw [h'] at h <;> cases h
      isOver := fun h => by rw [h] at goes; cases goes
      checking := fun h => by rcases idle with h' | h' | h' | h' <;> rw [h'] at h <;> cases h
      unbound := fun h => by
        rcases idle with h' | h' | h' | h' <;> rw [h'] at h <;> rcases h with h | h <;> cases h
      bound
      success := fun h => by rw [h] at goes; cases goes
      approved := fun h => absurd h unapproved
      stopping := fun h => by
        rcases idle with h' | h' | h' | h' <;> rw [h'] at h <;> rcases h with h | h <;> cases h
      halted := fun h => by rw [running] at h; cases h }
  · refine (inv.tended l lane here).sub (fun key entry pending own => (fewer key entry pending own).1)
      ?_ attempt ?_
    · intro key entry pending own suited
      have unchecked := (fewer key entry pending own).2
      cases effect : entry.effect <;> rw [effect] at suited unchecked
      · unfold Suits Active
        unfold Idle at idle
        tauto
      · exact absurd rfl unchecked
      · exact absurd suited staying
      · rw [suited.1] at going
        cases going
    · intro _ type required
      unfold Lane.required at required
      rcases idle with h | h | h | h <;> rw [h] at required <;> cases required

theorem Inv.check {strict : Prop} {s : State} {l : String} {lane : Lane} {artifact : Artifact}
    (rest : Rest strict s) (here : s.lanes.get? l = some lane)
    (going : terminal lane.phase = false) (staying : lane.phase ≠ .cancelling)
    (done : lane.threadDone = true) (childless : lane.children = 0)
    (made : lane.artifact = some artifact) (unchecked : lane.checksPassed = none)
    (entering : lane.phase ≠ .checking) {key : String} (fresh : isOrchestrationId key = true)
    (absent : s.intents.get? key = none) :
    Rest strict (s.touch l lane { lane with phase := .checking }
      (s.intents.put key { id := key, effect := .check l lane.attempt artifact })) := by
  have inv := rest.loosen l
  have running := (rest.running here going staying).1
  have was := inv.proper l lane here
  have content := was.content
  rw [Lane.contentValid_iff] at content
  apply inv.adjust here going rfl
  · exact ⟨rfl, rfl, rfl, le_refl _⟩
  · rfl
  · rfl
  · exact loose_at
  · exact { was with
      content := by rw [Lane.contentValid_iff]; exact content
      queued := fun h => by cases h
      isOver := fun h => by cases h
      checking := fun _ => ⟨done, childless⟩
      unbound := fun h => by rcases h with h | h <;> cases h
      success := fun h => by cases h
      approved := fun h => by rw [show lane.checksPassed = some true from h] at unchecked; cases unchecked
      stopping := fun h => by rcases h with h | h <;> cases h
      halted := fun h => by rw [running] at h; cases h }
  · exact Spares.put absent rfl
  · have tended : Tended False s.intents l { lane with phase := .checking } := by
      refine (inv.tended l lane here).sub (fun _ _ pending _ => pending) ?_ rfl
        (fun impossible => impossible.elim)
      intro key' entry _ _ suited
      cases effect : entry.effect <;> rw [effect] at suited
      · exact .inr (.inr (.inr (.inr (.inl rfl))))
      · exact absurd suited.1 entering
      · exact absurd suited staying
      · rw [suited.1] at going
        cases going
    refine tended.put absent fresh rfl ?_ rfl ⟨rfl, done, childless, unchecked, made⟩ ?_ ?_
    · rw [inv.id_eq l lane here] at content
      have sound : artifact.valid = true := by
        have valid := content.2.2.2.2.2.2.2.2.2.2.2.2.2.1
        rw [made] at valid
        exact valid
      simp [Effect.valid, Effect.laneId, Effect.attempt, content, sound]
    · -- A pending check would have the lane in that phase.
      rintro ⟨key', entry, pending, own, typed⟩
      have suited := (inv.tended l lane here).suits key' entry pending own
      cases effect : entry.effect <;> simp only [effect, Effect.type, reduceCtorEq] at typed
      rw [effect] at suited
      exact entering suited.2.1
    · intro type required
      cases required
      exact .inl rfl

theorem Onward.going {revived fresh : String → Prop} {s : State} {l : String} {lane now : Lane}
    {intents : Dictionary Intent} (here : s.lanes.get? l = some lane)
    (going : terminal lane.phase = false) (goes : terminal now.phase = false) :
    Onward revived fresh s (s.touch l lane now intents) := by
  apply Onward.touch here
  · intro isOver
    rw [isOver] at going
    cases going
  · intro success
    rw [success] at goes
    cases goes

theorem Rest.enter {strict : Prop} {s : State} {l : String} {lane : Lane} {next : LanePhase}
    (rest : Rest strict s) (here : s.lanes.get? l = some lane)
    (going : terminal lane.phase = false) (staying : lane.phase ≠ .cancelling) (idle : Idle next)
    (unchecked : ∀ laneId attempt artifact, ¬ Suits lane (.check laneId attempt artifact)) :
    Rest strict (s.touch l lane { lane with phase := next } s.intents) := by
  obtain ⟨running, unapproved⟩ := rest.running here going staying
  have was := rest.proper l lane here
  have place : SamePlace lane { lane with phase := next } := ⟨rfl, rfl, rfl, le_refl _⟩
  refine (rest.loosen l).idle here going staying running place rfl rfl rfl ?_ was.bound idle
    unapproved (Spares.refl _ _) ?_
  · have content := was.content
    rw [Lane.contentValid_iff] at content ⊢
    exact content
  · intro key entry pending own
    refine ⟨pending, ?_⟩
    have suited := ((rest.tended l lane here).suits key entry pending own).2
    cases effect : entry.effect <;> rw [effect] at suited <;> simp only [Effect.type, ne_eq,
      reduceCtorEq, not_false_eq_true, not_true_eq_false]
    exact unchecked _ _ _ suited

theorem reconcileWith_spec (finishes : Finishes ctx n finish) {strict : Prop} {l : String}
    {lane : Lane} (rest : Rest strict w.state) (here : w.state.lanes.get? l = some lane)
    (depth : lane.depth ≤ n) :
    Meets Ordinary (reconcileWith ctx finish l) w fun _ w' =>
      Rest strict w'.state ∧ Subsides w.state w'.state := by
  simp only [reconcileWith, meets_bind, meets_getLane here, meets_ite, meets_pure]
  refine ⟨fun _ => ⟨rest, Onward.refl _⟩, ?_⟩
  intro active
  obtain ⟨going, staying, done⟩ : terminal lane.phase = false ∧ lane.phase ≠ .cancelling ∧
      lane.threadDone = true := by
    simp only [not_or, Bool.not_eq_true, Bool.not_eq_eq_eq_not, Bool.not_true,
      Bool.not_eq_false] at active
    exact ⟨active.1, active.2.1, active.2.2⟩
  obtain ⟨running, unapproved⟩ := rest.running here going staying
  constructor
  · intro parenting
    apply (Edits.first here).phase
    intro w₁ joined
    rw [joined.state]
    refine ⟨rest.enter here going staying (.inr (.inr (.inr rfl))) ?_, Onward.going here going rfl⟩
    intro _ _ _ suited
    have childless := suited.2.2.1
    omega
  intro childless
  have none_left : lane.children = 0 := by
    have counted := rest.children_eq l lane here
    have nonneg := tally_nonneg (openChild l) w.state.lanes
    simp only [Int.add_zero] at counted
    omega
  constructor
  · intro _
    have error_valid : lengthWithin 0 8192 (lane.error.getD "descendant_failed") = true := by
      have content := (rest.proper l lane here).content
      rw [Lane.contentValid_iff] at content
      have valid := content.2.2.2.2.2.2.2.2.2.2.2.2.2.2.2
      cases error : lane.error with
      | none => decide +kernel
      | some text =>
        rw [error] at valid
        exact valid
    apply Meets.mono (failWith_spec finishes (rest.loosen l) here going staying running
      (fun passed => absurd passed unapproved) depth _ error_valid)
    rintro _ w' ⟨rest', subsides, -⟩
    exact ⟨rest', subsides⟩
  intro unfailed
  cases made : lane.artifact with
  | none =>
    apply (Edits.first here).phase
    intro w₁ collecting
    rw [collecting.state]
    refine ⟨rest.enter here going staying (.inr (.inr (.inl rfl))) ?_, Onward.going here going rfl⟩
    intro _ _ _ suited
    rw [suited.2.2.2.2] at made
    cases made
  | some artifact =>
    simp only [meets_ite]
    refine ⟨fun passed => absurd passed unapproved, ?_⟩
    intro _
    rw [meets_when]
    refine ⟨?_, fun _ => ⟨rest, Onward.refl _⟩⟩
    intro entering
    rw [meets_bind]
    apply (Edits.first here).phase
    intro w₁ checking
    apply checking.intent
    intro w₂ key fresh absent pending
    rw [pending.state]
    have unchecked : lane.checksPassed = none := by
      cases verdict : lane.checksPassed with
      | none => rfl
      | some passed =>
        cases passed
        · exact absurd (.inr verdict) unfailed
        · exact absurd verdict unapproved
    exact ⟨Inv.check rest here going staying done none_left made unchecked entering fresh absent,
      Onward.going here going rfl⟩

/-! ### Finishing -/

/-- How many failures a parent has to count for a child that ended so. -/
def Outcome.failures : Outcome → Int
  | .succeeded => 0
  | .failed | .cancelled => 1

theorem Inv.leave {strict : Prop} {s : State} {p : String} {parent : Lane} {outcome : Outcome}
    (inv : Inv { debt := shift (fun _ => 0) (some p) (-1)
                 stale := shift (fun _ => 0) (some p) (-outcome.failures), strict } s)
    (here : s.lanes.get? p = some parent) (parenting : 0 < parent.children) :
    Rest strict (s.touch p parent { parent with
      children := parent.children - 1
      failedChildren := if outcome ≠ .succeeded then parent.failedChildren + 1
        else parent.failedChildren } s.intents) := by
  have was := inv.proper p parent here
  have content := was.content
  rw [Lane.contentValid_iff] at content
  -- A lane with open children is not over, not queued and not being checked.
  have going : terminal parent.phase = false := by
    cases isOver : terminal parent.phase
    · rfl
    · have := was.isOver isOver
      omega
  have started : parent.phase ≠ .queued := by
    intro queued
    have := (was.queued queued).2
    omega
  have unchecked : parent.phase ≠ .checking := by
    intro checking
    have := (was.checking checking).2
    omega
  have place : SamePlace parent { parent with
      children := parent.children - 1
      failedChildren := if outcome ≠ .succeeded then parent.failedChildren + 1
        else parent.failedChildren } := ⟨rfl, rfl, rfl, le_refl _⟩
  have counted := inv.touch here place (fun _ _ => id)
    { was with
      content := by rw [Lane.contentValid_iff]; exact content
      queued := fun h => absurd h started
      isOver := fun h => by rw [show terminal parent.phase = true from h] at going; cases going
      checking := fun h => absurd h unchecked }
    (Spares.refl _ _) ?_ (fun _ _ pending _ _ => pending) ?_ (fun _ _ _ => le_refl _)
  · -- Both corrections cancel what the parent was owed.
    have debt : ∀ x : Int, shift (shift (fun _ => 0) (some p) (-x)) (some p) x = fun _ => 0 := by
      intro x
      funext k
      simp only [shift]
      split <;> omega
    have first : parent.children - (parent.children - 1) = 1 := by omega
    have second : (if outcome ≠ .succeeded then parent.failedChildren + 1
        else parent.failedChildren) - parent.failedChildren = outcome.failures := by
      cases outcome <;> simp [Outcome.failures]
    simp only [Ghost.after, isOpen, isFailure, Int.sub_self, shift_zero, first, second, debt] at counted
    exact counted
  · refine (inv.tended p parent here).keep id ?_ rfl (fun _ => id)
    intro key entry _ _ suited
    cases effect : entry.effect <;> rw [effect] at suited
    · exact suited
    · exact absurd suited.1 unchecked
    · exact suited
    · exact suited
  · intro won
    obtain ⟨first, there, success⟩ := inv.winner p won
    rw [here] at there
    cases there
    exact ⟨success, rfl⟩

theorem leaveParent_spec (finishes : Finishes ctx n finish) {strict : Prop} {p : String}
    {parent : Lane} {outcome : Outcome}
    (inv : Inv { debt := shift (fun _ => 0) (some p) (-1)
                 stale := shift (fun _ => 0) (some p) (-outcome.failures), strict } w.state)
    (here : w.state.lanes.get? p = some parent) (parenting : 0 < parent.children)
    (depth : parent.depth ≤ n) :
    Meets Ordinary (leaveParent ctx finish p outcome) w fun _ w' =>
      Rest strict w'.state ∧ Subsides w.state w'.state := by
  simp only [leaveParent, meets_bind, meets_getState, here]
  apply (Edits.first here).changeLane rfl
  intro w₁ left
  have rest : Rest strict w₁.state := by
    rw [left.state]
    exact inv.leave here parenting
  have first : Subsides w.state w₁.state := by
    rw [left.state]
    exact Onward.touch here (fun _ => .inr rfl) .inr
  simp only [meets_getLane left.lane_eq, meets_ite]
  constructor
  · rintro ⟨stopping, -, childless⟩
    have stopped := (rest.proper p _ left.lane_eq).stopping (.inl stopping)
    have going : terminal parent.phase = false := by
      rw [show parent.phase = .cancelling from stopping]
      rfl
    apply Meets.mono (finishes.settles strict w₁ p _ .cancelled (rest.loosen p) left.lane_eq going
      childless stopped depth)
    rintro _ w' ⟨rest', onward, -⟩
    exact ⟨rest', first.trans (onward.mono (fun _ => id) (fun _ h => by cases h.2))⟩
  · intro _
    apply Meets.mono (reconcileWith_spec finishes rest left.lane_eq depth)
    rintro _ w' ⟨rest', second⟩
    exact ⟨rest', first.trans second⟩

theorem Stops.subsides {reason : StopReason} {s s' : State} (h : Stops reason s s') :
    Subsides s s' where
  input_eq := h.input_eq
  ended l lane here isOver := by
    obtain ⟨lane', here', calm, -⟩ := h.calms l lane here
    rcases calm with same | ⟨-, going, -⟩ | ⟨-, queued⟩
    · exact .inr ⟨lane', here', same⟩
    · rw [isOver] at going
      cases going
    · rw [queued] at isOver
      cases isOver
  success l lane' here success := by
    have known : (s.lanes.get? l).isSome := by
      rw [← Dictionary.mem_keys_iff, ← h.keys_eq, Dictionary.mem_keys_iff]
      simp [here]
    obtain ⟨lane, there⟩ := Option.isSome_iff_exists.mp known
    obtain ⟨found, here', calm, -⟩ := h.calms l lane there
    rw [here] at here'
    cases here'
    rcases calm with same | ⟨stopping, -, -⟩ | ⟨stopped, -⟩
    · exact .inr ⟨lane, there, same.symm.trans success⟩
    · rw [stopping] at success
      cases success
    · rw [stopped] at success
      cases success
  merge pending := absurd pending h.unmerged

theorem Inv.crown {g : Ghost} {s : State} {l : String} {lane : Lane} (inv : Inv g s)
    (here : s.lanes.get? l = some lane) (success : lane.phase = .succeeded)
    (free : s.winner = none ∨ s.mergeStatus ≠ .pending) : Inv g { s with winner := some l } := by
  have valid : isOrchestrationId l = true := by
    have content := (inv.proper l lane here).content
    rw [Lane.contentValid_iff, inv.id_eq l lane here] at content
    exact content.1
  exact { inv with
    head := by
      have head := inv.head
      rw [State.headValid_iff] at head ⊢
      simp [head, valid]
    receipts := inv.receipts.congr rfl rfl rfl
    merging := fun key entry pending merge => by
      obtain ⟨status, -, won⟩ := inv.merging key entry pending merge
      rcases free with unwon | unmerged
      · rw [unwon] at won
        cases won
      · exact absurd status unmerged
    winner := fun k won => by
      cases won
      exact ⟨lane, here, success⟩
    promised := fun strictly pending => by
      obtain ⟨k, won, -⟩ := inv.promised strictly pending
      rcases free with unwon | unmerged
      · rw [unwon] at won
        cases won
      · exact absurd pending unmerged }

theorem winRace_spec (clock : ctx.time ≤ maxSafeInteger) (drops : Drops ctx finish)
    {strict : Prop} {l : String} {lane : Lane} {outcome : Outcome} (rest : Rest strict w.state)
    (here : w.state.lanes.get? l = some lane) (ended : lane.phase = outcome.phase) :
    Meets Ordinary (winRace ctx finish l outcome) w fun _ w' =>
      Rest strict w'.state ∧ Subsides w.state w'.state := by
  simp only [winRace, meets_bind, meets_getState, meets_when]
  refine ⟨?_, fun _ => ⟨rest, Onward.refl _⟩⟩
  rintro ⟨rfl, -, unwon⟩
  simp only [meets_changeState, meets_emit]
  have crowned : Rest strict { w.state with winner := some l } := rest.crown here ended (.inl unwon)
  refine Meets.mono (cancelAllWith_spec clock drops (g := { strict }) ?_ .winner (some l) ?_) ?_
  · exact crowned
  · intro k same
    cases same
    exact ⟨lane, here, by rw [ended]; rfl⟩
  · rintro _ w' ⟨rest', stops⟩
    refine ⟨rest', Onward.trans ?_ stops.subsides⟩
    exact Onward.of_lanes rfl rfl id

theorem Inv.begin {strict : Prop} {s : State} {l : String} {lane : Lane} (rest : Rest strict s) (here : s.lanes.get? l = some lane)
    (queued : lane.phase = .queued) (running : s.stopReason = none) {startedAt : Nat}
    (started : startedAt ≤ maxSafeInteger) {input : Option Artifact}
    (sound : input.all Artifact.valid = true) {key : String} (fresh : isOrchestrationId key = true)
    (absent : s.intents.get? key = none) :
    Rest strict (s.touch l lane { lane with startedAt, input, phase := .starting }
      (s.intents.put key
        { id := key, effect := .start l lane.attempt lane.prompt lane.spec input })) := by
  have was := rest.proper l lane here
  have content := was.content
  rw [Lane.contentValid_iff] at content
  have unapproved := (rest.running here (by rw [queued]; rfl) (by rw [queued]; simp)).2
  -- Nothing is pending for a queued lane.
  have bare : ∀ key entry, s.intents.get? key = some entry → entry.effect.laneId ≠ l := by
    intro key entry pending own
    have suited := ((rest.tended l lane here).suits key entry pending own).2
    cases effect : entry.effect <;> rw [effect] at suited <;>
      simp [Suits, Active, queued] at suited
  apply (rest.loosen l).adjust here (by rw [queued]; rfl) rfl
  · exact ⟨rfl, rfl, rfl, le_refl _⟩
  · rfl
  · rfl
  · exact loose_at
  · exact { was with
      content := by
        rw [Lane.contentValid_iff]
        simp [content, started, sound]
      queued := fun h => by cases h
      isOver := fun h => by cases h
      checking := fun h => by cases h
      unbound := fun _ => was.unbound (.inl queued)
      success := fun h => by cases h
      approved := fun h => absurd h unapproved
      stopping := fun h => by rcases h with h | h <;> cases h
      halted := fun h => by rw [running] at h; cases h }
  · exact Spares.put absent rfl
  · refine Tended.put (Tended.bare bare fun impossible => impossible.elim) absent fresh rfl ?_ rfl
      (.inl rfl) ?_ ?_
    · rw [rest.id_eq l lane here] at content
      have prompt : lengthWithin 0 33024 lane.prompt = true := by
        have long := content.2.2.1
        simp only [lengthWithin, decide_eq_true_eq] at long ⊢
        omega
      simp [Effect.valid, Effect.laneId, Effect.attempt, content, sound, prompt]
    · rintro ⟨key', entry, pending, own, -⟩
      exact bare key' entry pending own
    · intro type required
      cases required
      exact .inl rfl

theorem start_spec (clock : ctx.time ≤ maxSafeInteger) {strict : Prop} {l : String} {lane : Lane}
    {input : Option Artifact} (rest : Rest strict w.state)
    (here : w.state.lanes.get? l = some lane) (queued : lane.phase = .queued)
    (running : w.state.stopReason = none) (sound : input.all Artifact.valid = true) :
    Meets Ordinary (start ctx l input) w fun _ w' =>
      Rest strict w'.state ∧ Subsides w.state w'.state := by
  have content := (rest.proper l lane here).content
  rw [Lane.contentValid_iff] at content
  rw [start, meets_bind]
  apply (Edits.first here).changeLane rfl
  intro w₁ timed
  rw [meets_bind]
  apply timed.phase
  intro w₂ starting
  simp only [meets_bind, meets_getLane starting.lane_eq]
  apply starting.intent
  intro w₃ key fresh absent pending
  rw [pending.state]
  refine ⟨Inv.begin rest here queued running ?_ ?_ fresh absent,
    Onward.going here (by rw [queued]; rfl) rfl⟩
  · split
    · exact clock
    · exact content.2.2.2.2.2.2.2.2.2.1
  · cases input with
    | none => exact content.2.2.2.2.2.2.2.2.2.2.2.2.2.2.1
    | some artifact => exact sound

theorem continuePipeline_spec (clock : ctx.time ≤ maxSafeInteger) (drops : Drops ctx finish)
    {strict : Prop} {lane : Lane} {outcome : Outcome} (rest : Rest strict w.state)
    (sound : lane.artifact.all Artifact.valid = true) :
    Meets Ordinary (continuePipeline ctx finish lane outcome) w fun _ w' =>
      Rest strict w'.state ∧ Subsides w.state w'.state := by
  simp only [continuePipeline, meets_bind, meets_getState, meets_when, meets_whenSome]
  refine ⟨?_, fun _ => ⟨rest, Onward.refl _⟩⟩
  rintro ⟨-, running⟩
  constructor
  · rintro rfl
    apply Meets.mono (cancelAllWith_spec clock drops rest .cancelled none (fun _ h => by cases h))
    rintro _ w' ⟨rest', stops⟩
    simp only [reduceCtorEq, false_implies, not_false_eq_true, true_implies, true_and]
    exact ⟨rest', stops.subsides⟩
  · intro _
    refine ⟨?_, fun _ => ⟨rest, Onward.refl _⟩⟩
    intro _
    refine ⟨?_, fun _ => ⟨rest, Onward.refl _⟩⟩
    intro next found
    obtain ⟨listed, queued⟩ := Option.filter_eq_some_iff.mp found
    obtain ⟨k, there⟩ := (Dictionary.mem_values_iff _ _).mp (List.mem_of_find?_eq_some listed)
    have named := rest.id_eq k next there
    rw [named]
    exact start_spec clock rest there (by simpa using queued) running sound

theorem finishing_spec (clock : ctx.time ≤ maxSafeInteger) (drops : Drops ctx finish)
    {strict : Prop} {l : String} {lane now : Lane} {outcome : Outcome}
    (rest : Rest strict w.state) (here : w.state.lanes.get? l = some now)
    (ended : now.phase = outcome.phase) (sound : lane.artifact.all Artifact.valid = true) :
    Meets Ordinary (do winRace ctx finish l outcome; continuePipeline ctx finish lane outcome) w
      fun _ w' => Rest strict w'.state ∧ Subsides w.state w'.state := by
  rw [meets_bind]
  apply Meets.mono (winRace_spec clock drops rest here ended)
  rintro _ w₁ ⟨rest₁, first⟩
  apply Meets.mono (continuePipeline_spec clock drops rest₁ sound)
  rintro _ w₂ ⟨rest₂, second⟩
  exact ⟨rest₂, first.trans second⟩

theorem finishWith_settles (clock : ctx.time ≤ maxSafeInteger) (drops : Drops ctx finish)
    (above : ∀ m, n = m + 1 → Finishes ctx m finish) {strict : Prop} {l : String} {lane : Lane}
    {outcome : Outcome} (inv : Inv (.at l strict) w.state)
    (here : w.state.lanes.get? l = some lane) (going : terminal lane.phase = false)
    (childless : lane.children = 0) (fitting : Fitting w.state.stopReason lane outcome)
    (depth : lane.depth ≤ n) :
    Meets Ordinary (finishWith ctx finish l outcome) w fun _ w' => Rest strict w'.state ∧
      Onward (fun _ => False) (fun k => k = l ∧ outcome = .succeeded) w.state w'.state ∧
      ∃ lane', w'.state.lanes.get? l = some lane' ∧ lane'.phase = outcome.phase := by
  have sound : lane.artifact.all Artifact.valid = true := by
    have content := (inv.proper l lane here).content
    rw [Lane.contentValid_iff] at content
    exact content.2.2.2.2.2.2.2.2.2.2.2.2.2.1
  have settled := inv.settle clock here going childless outcome fitting
  have first : Onward (fun _ => False) (fun k => k = l ∧ outcome = .succeeded) w.state
      (w.state.touch l lane (lane.ended ctx outcome) (withoutLane l w.state.intents)) := by
    apply Onward.touch here
    · intro isOver
      rw [isOver] at going
      cases going
    · intro success
      cases outcome <;> cases success
      exact .inl ⟨rfl, rfl⟩
  -- What comes after the settled state keeps the lane as it ended.
  have closing : ∀ w₁ w' : Mutation,
      Edits w.state l lane (lane.ended ctx outcome) (withoutLane l w.state.intents) w₁ →
      Rest strict w'.state → Subsides w₁.state w'.state →
      Rest strict w'.state ∧
        Onward (fun _ => False) (fun k => k = l ∧ outcome = .succeeded) w.state w'.state ∧
        ∃ lane', w'.state.lanes.get? l = some lane' ∧ lane'.phase = outcome.phase := by
    intro w₁ w' edits rest second
    rw [← edits.state] at first
    refine ⟨rest, first.trans (second.mono (fun _ => id) (fun _ => False.elim)), ?_⟩
    rcases second.ended l _ edits.lane_eq (terminal_outcome outcome) with impossible | last
    · exact impossible.elim
    · exact last
  have isFailure_ended : isFailure (lane.ended ctx outcome) = outcome.failures := by
    cases outcome <;> rfl
  have isOpen_ended : isOpen (lane.ended ctx outcome) = 0 := by
    simp [isOpen, Lane.ended]
  simp only [Ghost.after, isOpen_of_going going, isFailure_of_going going, isOpen_ended,
    isFailure_ended, Int.zero_sub] at settled
  have children_ended : lane.children - (lane.ended ctx outcome).children = 0 := Int.sub_self _
  have failed_ended : (lane.ended ctx outcome).failedChildren - lane.failedChildren = 0 :=
    Int.sub_self _
  rw [children_ended, failed_ended, shift_zero, shift_zero] at settled
  have tight : Inv { debt := shift (fun _ => 0) lane.parentId (-1)
                     stale := shift (fun _ => 0) lane.parentId (-outcome.failures), strict }
      (w.state.touch l lane (lane.ended ctx outcome) (withoutLane l w.state.intents)) :=
    settled.tighten fun k _ _ loosely _ => absurd loosely.1 loosely.2
  simp only [finishWith, meets_bind, meets_getLane here, meets_ite, going, Bool.false_eq_true,
    false_implies, true_and, not_false_eq_true, true_implies]
  have ending := meets_ending ctx outcome here
    (Q := fun _ w₁ => Meets Ordinary (do
      whenSome lane.parentId fun parentId => leaveParent ctx finish parentId outcome
      winRace ctx finish l outcome
      continuePipeline ctx finish lane outcome) w₁ fun _ w' => Rest strict w'.state ∧
        Onward (fun _ => False) (fun k => k = l ∧ outcome = .succeeded) w.state w'.state ∧
        ∃ lane', w'.state.lanes.get? l = some lane' ∧ lane'.phase = outcome.phase) ?_
  · simpa only [meets_bind] using ending
  intro w₁ edits
  rw [← edits.state] at tight
  rw [meets_bind, meets_whenSome]
  constructor
  · intro p nested
    obtain ⟨-, parent, there, deeper⟩ := inv.parent l lane p here nested
    obtain ⟨m, rfl⟩ : ∃ m, n = m + 1 := ⟨n - 1, by omega⟩
    have other : l ≠ p := by
      rintro rfl
      rw [here] at there
      cases there
      omega
    have still : w₁.state.lanes.get? p = some parent := by
      rw [edits.state, touch_lanes, Dictionary.get?_put_ne _ _ other]
      exact there
    have parenting : 0 < parent.children := by
      have counted := inv.children_eq p parent there
      have positive := tally_pos (openChild p) here (by simp [openChild, nested, going])
      simp only [Int.add_zero] at counted
      omega
    rw [nested] at tight
    apply Meets.mono (leaveParent_spec (above m rfl) tight still parenting (by omega))
    rintro _ w₂ ⟨rest₂, second⟩
    rcases second.ended l _ edits.lane_eq (terminal_outcome outcome) with impossible | last
    · exact impossible.elim
    obtain ⟨now, there₂, ended₂⟩ := last
    apply Meets.mono (finishing_spec clock drops rest₂ there₂ ended₂ sound)
    rintro _ w₃ ⟨rest₃, third⟩
    exact closing w₁ w₃ edits rest₃ (second.trans third)
  · intro top
    have rest₁ : Rest strict w₁.state := by
      have none_owed : ∀ x : Int, shift (fun _ => 0) lane.parentId x = fun _ => 0 := by
        intro x
        funext k
        simp [shift, top]
      rw [none_owed, none_owed] at tight
      exact tight
    apply Meets.mono (finishing_spec clock drops rest₁ edits.lane_eq rfl sound)
    rintro _ w₂ ⟨rest₂, second⟩
    exact closing w₁ w₂ edits rest₂ second

theorem finishWithin_finishes (clock : ctx.time ≤ maxSafeInteger) (n : Nat) :
    Finishes ctx n (finishWithin ctx (n + 2)) := by
  induction n with
  | zero =>
    refine ⟨finishWith_drops, ?_⟩
    intro strict w l lane outcome inv here going childless fitting depth
    exact finishWith_settles clock finishWith_drops (fun m h => by cases h) inv here going childless
      fitting depth
  | succ n ih =>
    refine ⟨finishWith_drops, ?_⟩
    intro strict w l lane outcome inv here going childless fitting depth
    refine finishWith_settles clock finishWith_drops ?_ inv here going childless fitting depth
    intro m same
    cases same
    exact ih

theorem finish_finishes (clock : ctx.time ≤ maxSafeInteger) (n : Nat) :
    Finishes ctx n (Orchestrator.finish ctx) := by
  constructor
  · intro g w l lane inv here queued stopped
    rw [Orchestrator.finish, meets_bind, meets_getLane here]
    exact (finishWithin_finishes clock lane.depth).drops g w l lane inv here queued stopped
  · intro strict w l lane outcome inv here going childless fitting _
    rw [Orchestrator.finish, meets_bind, meets_getLane here]
    exact (finishWithin_finishes clock lane.depth).settles strict w l lane outcome inv here going
      childless fitting (le_refl _)

end

end Ace.Orchestrator
