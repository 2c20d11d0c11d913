import Ace.Properties.Revival

/-!
# Folding a fact keeps the invariant

One specification for every kind of fact. With `strict`, an acknowledgement must be of an
intent that nothing waits for, and no finished lane outside the winner's tree may be taken up
while its merge is pending.
-/

namespace Ace.Orchestrator

open Script Script.Command

/-- The invariant holds again, and only `fresh` lanes have come to succeed. -/
def Kept (strict : Prop) (fresh : String → Prop) (s s' : State) : Prop :=
  Rest strict s' ∧ Onward (fun _ => True) fresh s s'

section

variable {strict : Prop} {fresh : String → Prop} {s s' s'' : State}

theorem Kept.refl (rest : Rest strict s) : Kept strict fresh s s := ⟨rest, Onward.refl s⟩

theorem Kept.of_subsides (rest : Rest strict s') (subsides : Subsides s s') :
    Kept strict fresh s s' :=
  ⟨rest, subsides.mono (fun _ => False.elim) (fun _ => False.elim)⟩

end

/-! ### Intents that are done with -/

/-- Nothing waits for the intent at `key`. -/
def Spent (s : State) (key : String) : Prop :=
  ∀ entry, s.intents.get? key = some entry → entry.effect.type ≠ .merge ∧
    ∀ lane, s.lanes.get? entry.effect.laneId = some lane → lane.required ≠ some entry.effect.type

theorem get?_erase_some {intents : Dictionary Intent} {key key' : String} {entry : Intent} :
    (intents.erase key).get? key' = some entry ↔ key ≠ key' ∧ intents.get? key' = some entry := by
  rw [Dictionary.get?_erase]
  by_cases same : key = key' <;> simp [same]

theorem Rest.acknowledge {strict : Prop} {s : State} {key : String} (rest : Rest strict s)
    (spent : strict → Spent s key) : Rest strict { s with intents := s.intents.erase key } := by
  refine { rest with
    receipts := rest.receipts.congr rfl rfl rfl
    tended := ?_
    owner := fun key' entry pending => rest.owner key' entry (get?_erase_some.mp pending).2
    merging := fun key' entry pending => rest.merging key' entry (get?_erase_some.mp pending).2
    promised := ?_ }
  · intro l lane here
    refine (rest.tended l lane here).sub (fun _ _ pending _ => (get?_erase_some.mp pending).2)
      (fun _ _ _ _ => id) rfl ?_
    intro strictly type required
    obtain ⟨key', entry, pending, own, typed⟩ :=
      (rest.tended l lane here).owed strictly type required
    refine ⟨key', entry, get?_erase_some.mpr ⟨?_, pending⟩, own, typed⟩
    rintro rfl
    refine (spent strictly.1 entry pending).2 lane (by rw [own]; exact here) ?_
    rw [typed]
    exact required
  · intro strictly pending
    obtain ⟨x, won, key', entry, there, own, typed⟩ := rest.promised strictly pending
    refine ⟨x, won, key', entry, get?_erase_some.mpr ⟨?_, there⟩, own, typed⟩
    rintro rfl
    exact (spent strictly entry there).1 typed

theorem Rest.unmerged {strict : Prop} {s : State} {key : String} {entry : Intent}
    (rest : Rest strict s) (pending : s.intents.get? key = some entry)
    (merge : entry.effect.type = .merge) (status : MergeStatus) (isOver : status ≠ .pending)
    {checkpoint : Option String} (valid : checkpoint.all (lengthWithin 0 512) = true) :
    Rest strict { s with
      intents := s.intents.erase key, mergeStatus := status, safetyCheckpoint := checkpoint } := by
  obtain ⟨-, -, won⟩ := rest.merging key entry pending merge
  obtain ⟨lane, here, success⟩ := rest.winner _ won
  -- Every merge is the winner's, and a lane has one.
  have unmerged : ∀ key' entry', (s.intents.erase key).get? key' = some entry' →
      entry'.effect.type ≠ .merge := by
    intro key' entry' left merge'
    obtain ⟨other, there⟩ := get?_erase_some.mp left
    obtain ⟨-, -, won'⟩ := rest.merging key' entry' there merge'
    rw [won] at won'
    have same : entry.effect.laneId = entry'.effect.laneId := Option.some.inj won'
    exact other ((rest.tended _ lane here).sole key entry key' entry' pending there rfl same.symm
      (merge.trans merge'.symm))
  refine { rest with
    head := ?_
    receipts := rest.receipts.congr rfl rfl rfl
    tended := ?_
    owner := fun key' entry' left => rest.owner key' entry' (get?_erase_some.mp left).2
    merging := fun key' entry' left merge' => absurd merge' (unmerged key' entry' left)
    promised := fun _ h => absurd h isOver
    quiet := fun _ _ h => absurd h isOver }
  · have head := rest.head
    rw [State.headValid_iff] at head ⊢
    exact ⟨head.1, head.2.1, head.2.2.1, head.2.2.2.1, head.2.2.2.2.1, head.2.2.2.2.2.1, valid⟩
  · intro l found there
    refine (rest.tended l found there).sub (fun _ _ left _ => (get?_erase_some.mp left).2)
      (fun _ _ _ _ => id) rfl ?_
    intro strictly type required
    obtain ⟨key', entry', there', own, typed⟩ :=
      (rest.tended l found there).owed strictly type required
    refine ⟨key', entry', get?_erase_some.mpr ⟨?_, there'⟩, own, typed⟩
    rintro rfl
    rw [pending] at there'
    cases there'
    -- The lane of a merge has succeeded and waits for nothing.
    rw [own] at here
    rw [here] at there
    cases there
    simp [Lane.required, success] at required

theorem Rest.consume {strict : Prop} {s : State} {l key : String} {lane now : Lane} {entry : Intent}
    (rest : Rest strict s) (here : s.lanes.get? l = some lane)
    (pending : s.intents.get? key = some entry) (own : entry.effect.laneId = l)
    (going : terminal lane.phase = false) (staying : lane.phase ≠ .cancelling)
    (place : SamePlace lane now) (attempt : now.attempt = lane.attempt)
    (phase : now.phase = lane.phase) (children : now.children = lane.children)
    (failed : now.failedChildren = lane.failedChildren)
    (proper : Proper s.input s.stopReason True now)
    (suits : ∀ key' entry', s.intents.get? key' = some entry' → key ≠ key' →
      entry'.effect.laneId = l → Suits lane entry'.effect → Suits now entry'.effect) :
    Inv (.at l strict) (s.touch l lane now (s.intents.erase key)) := by
  have spares : Spares l s.intents (s.intents.erase key) := by
    apply Spares.erase
    intro entry' there
    rw [pending] at there
    cases there
    exact own
  refine (rest.loosen l).adjust here going (by rw [phase]; exact going) place children failed
    (fun k other loosely => absurd loosely other) ?_ spares ?_
  · exact { proper with
      approved := fun passed => (proper.approved passed).imp_right (And.imp_left fun _ => rfl)
      halted := fun stopped goes => (proper.halted stopped goes).imp_right fun _ => rfl }
  · refine (rest.tended l lane here).sub (fun _ _ left _ => (get?_erase_some.mp left).2) ?_ attempt ?_
    · intro key' entry' left own'
      obtain ⟨other, there⟩ := get?_erase_some.mp left
      exact suits key' entry' there other own'
    · rintro ⟨-, stopping⟩
      rw [phase] at stopping
      exact absurd (stopping rfl) staying

/-! ### Reports about a lane -/

theorem Usage.valid_iff (usage : Usage) : usage.valid = true ↔
    usage.tokens ≤ maxSafeInteger ∧ 0 ≤ usage.cost ∧ usage.cost ≤ maxSafeInteger := by
  simp [Usage.valid]

theorem Usage.charge_valid {total before spent : Usage} (valid : total.valid = true)
    (before_valid : before.valid = true) : (total.charge before spent).valid = true := by
  rw [Usage.valid_iff] at *
  refine ⟨min_le_left _ _, ?_, min_le_left _ _⟩
  apply le_min
  · exact Nat.cast_nonneg _
  · have more : before.cost ≤ max before.cost spent.cost := le_max_left _ _
    have sum := add_le_add valid.2.1 more
    rw [zero_add] at sum
    exact sub_nonneg.mpr sum

theorem Usage.max_valid {before spent : Usage} (valid : before.valid = true)
    (spent_valid : spent.valid = true) :
    ({ tokens := max before.tokens spent.tokens
       cost := max before.cost spent.cost } : Usage).valid = true := by
  rw [Usage.valid_iff] at *
  exact ⟨max_le valid.1 spent_valid.1, le_trans valid.2.1 (le_max_left _ _),
    max_le valid.2.2 spent_valid.2.2⟩

section

variable {ctx : Context} {w : Mutation} {strict : Prop} {l : String} {lane : Lane}

theorem cancelAll_spec (clock : ctx.time ≤ maxSafeInteger) (rest : Rest strict w.state)
    (reason : StopReason) (except : Option String)
    (excepted : ∀ l, except = some l → ∃ lane, w.state.lanes.get? l = some lane ∧
      terminal lane.phase = true) :
    Meets Ordinary (cancelAll ctx reason except) w fun _ w' =>
      Rest strict w'.state ∧ Stops reason w.state w'.state :=
  cancelAllWith_spec clock (finish_finishes clock 0).drops rest reason except excepted

theorem applyUsage_spec (clock : ctx.time ≤ maxSafeInteger) (rest : Rest strict w.state)
    (here : w.state.lanes.get? l = some lane) {spent : Usage} (valid : spent.valid = true) :
    Meets Ordinary (applyUsage ctx lane spent) w fun _ w' =>
      Kept strict (fun _ => False) w.state w'.state := by
  have was := rest.proper l lane here
  have content := was.content
  rw [Lane.contentValid_iff] at content
  have spentBefore := content.2.2.2.2.2.2.2.2.2.2.2.2.1
  simp only [applyUsage, meets_bind, meets_changeState]
  -- The run is charged, then the lane.
  have charged : Rest strict { w.state with
      usage := w.state.usage.charge lane.attemptUsage spent } := by
    refine { rest with head := ?_, receipts := rest.receipts.congr rfl rfl rfl }
    have head := rest.head
    rw [State.headValid_iff] at head ⊢
    exact ⟨head.1, head.2.1, head.2.2.1, head.2.2.2.1,
      Usage.charge_valid head.2.2.2.2.1 spentBefore, head.2.2.2.2.2⟩
  rw [rest.id_eq l lane here]
  generalize start : { w with state := { w.state with
    usage := w.state.usage.charge lane.attemptUsage spent } } = w₀
  have state₀ : w₀.state = { w.state with
    usage := w.state.usage.charge lane.attemptUsage spent } := by rw [← start]
  rw [← state₀] at charged
  have here₀ : w₀.state.lanes.get? l = some lane := by rw [state₀]; exact here
  apply (Edits.first here₀).changeLane rfl
  intro w₁ edits
  have rest₁ : Rest strict w₁.state := by
    rw [edits.state]
    refine charged.adorn here₀ ⟨rfl, rfl, rfl, le_refl _⟩ rfl rfl rfl ?_ ?_
    · refine { charged.proper l lane here₀ with content := ?_ }
      rw [Lane.contentValid_iff]
      simp only [content, true_and, and_true]
      exact ⟨Usage.charge_valid content.2.2.2.2.2.2.2.2.2.2.2.1 spentBefore,
        Usage.max_valid spentBefore valid⟩
    · exact (charged.tended l lane here₀).keep id (fun _ _ _ _ h => by simpa [Suits] using h) rfl
        (fun _ => id)
  have first : Subsides w.state w₁.state := by
    rw [edits.state]
    have same : Subsides w.state w₀.state :=
      Onward.of_lanes (by rw [state₀]) (by rw [state₀]) (by rw [state₀]; exact id)
    exact same.trans (Onward.touch here₀ (fun _ => .inr rfl) .inr)
  simp only [meets_getState, meets_when]
  refine ⟨fun _ => ?_, fun _ => Kept.of_subsides rest₁ first⟩
  apply Meets.mono (cancelAll_spec clock rest₁ .budget_exhausted none (fun _ h => by cases h))
  rintro _ w₂ ⟨rest₂, stops⟩
  exact Kept.of_subsides rest₂ (first.trans stops.subsides)

theorem applyBound_spec (rest : Rest strict w.state) (here : w.state.lanes.get? l = some lane)
    (started : lane.phase ≠ .queued) {threadId worktree : String} (known : threadId ≠ "")
    (valid : isRef worktree = true) :
    Meets Ordinary (applyBound lane threadId worktree) w fun _ w' =>
      Kept strict (fun _ => False) w.state w'.state ∧
      ∀ lane', w'.state.lanes.get? l = some lane' → lane'.phase ≠ .starting := by
  have was := rest.proper l lane here
  have content := was.content
  rw [Lane.contentValid_iff] at content
  have named : lane.id = l := rest.id_eq l lane here
  simp only [applyBound, meets_ite]
  constructor
  · -- A lane that starts is bound to no thread yet.
    intro conflict
    refine ⟨Kept.refl rest, ?_⟩
    intro lane' there starting
    have same : w.state.lanes.get? l = some lane' := there
    rw [here] at same
    cases same
    have unbound := was.unbound (.inr starting)
    have unplaced : lane.worktree = none := by
      have bound := was.bound
      rw [unbound] at bound
      simpa using bound.symm
    rw [unbound, unplaced] at conflict
    simp at conflict
  · intro _
    rw [named, meets_bind]
    apply (Edits.first here).changeLane rfl
    intro w₁ bound
    rw [meets_when]
    constructor
    · intro starting
      apply bound.phase
      intro w₂ working
      rw [working.state]
      have going : terminal lane.phase = false := by rw [starting]; rfl
      have staying : lane.phase ≠ .cancelling := by rw [starting]; simp
      obtain ⟨running, unapproved⟩ := rest.running here going staying
      have place : SamePlace lane { lane with
          threadId := some threadId, worktree := some worktree, phase := .working } :=
        ⟨rfl, rfl, rfl, le_refl _⟩
      refine ⟨Kept.of_subsides ?_ (Onward.going here going rfl), ?_⟩
      · refine (rest.loosen l).idle here going staying running place rfl rfl rfl ?_ rfl (.inl rfl)
          unapproved (Spares.refl _ _) ?_
        · rw [Lane.contentValid_iff]
          simp [content, known, valid]
        · intro key entry pending own
          refine ⟨pending, ?_⟩
          have suited := ((rest.tended l lane here).suits key entry pending own).2
          cases effect : entry.effect <;> rw [effect] at suited <;> simp [Effect.type]
          have checking := suited.1
          rw [starting] at checking
          cases checking
      · intro lane' there
        rw [touch_lanes, Dictionary.get?_put_self] at there
        cases there
        exact fun h => by cases h
    · intro unstarting
      rw [bound.state]
      refine ⟨Kept.of_subsides ?_ (Onward.touch here (fun _ => .inr rfl) .inr), ?_⟩
      · refine rest.adorn here ⟨rfl, rfl, rfl, le_refl _⟩ rfl rfl rfl ?_ ?_
        · refine { was with content := ?_, unbound := ?_, bound := rfl }
          · rw [Lane.contentValid_iff]
            simp [content, known, valid]
          · rintro (queued | starting)
            · exact absurd queued started
            · exact absurd starting unstarting
        · exact (rest.tended l lane here).keep id (fun _ _ _ _ h => by simpa [Suits] using h) rfl
            (fun _ => id)
      · intro lane' there
        rw [touch_lanes, Dictionary.get?_put_self] at there
        cases there
        exact unstarting

theorem reconcile_spec (clock : ctx.time ≤ maxSafeInteger) (rest : Rest strict w.state)
    (here : w.state.lanes.get? l = some lane) :
    Meets Ordinary (reconcile ctx l) w fun _ w' =>
      Rest strict w'.state ∧ Subsides w.state w'.state :=
  reconcileWith_spec (finish_finishes clock lane.depth) rest here (le_refl _)

theorem fail_spec (clock : ctx.time ≤ maxSafeInteger) (inv : Inv (.at l strict) w.state)
    (here : w.state.lanes.get? l = some lane) (going : terminal lane.phase = false)
    (staying : lane.phase ≠ .cancelling) (running : w.state.stopReason = none)
    (approved : lane.checksPassed = some true → lane.threadDone = true) (error : String)
    (valid : lengthWithin 0 8192 error = true) :
    Meets Ordinary (fail ctx l error) w fun _ w' => Rest strict w'.state ∧
      Subsides w.state w'.state ∧
      ∀ lane', w'.state.lanes.get? l = some lane' → lane'.phase ≠ .checking :=
  failWith_spec (finish_finishes clock lane.depth) inv here going staying running approved
    (le_refl _) error valid

theorem stopped_spec (clock : ctx.time ≤ maxSafeInteger) (rest : Rest strict w.state)
    (here : w.state.lanes.get? l = some lane) (stopping : lane.phase = .cancelling) :
    Meets Ordinary (if lane.children = 0 then finish ctx l .cancelled
      else changeLane l fun lane => { lane with threadDone := true }) w fun _ w' =>
      Kept strict (fun _ => False) w.state w'.state ∧
      ∀ lane', w'.state.lanes.get? l = some lane' → lane'.required = none := by
  have going : terminal lane.phase = false := by rw [stopping]; rfl
  have was := rest.proper l lane here
  rw [meets_ite]
  constructor
  · intro childless
    have finishes := finish_finishes clock lane.depth
    apply Meets.mono (finishes.settles strict w l lane .cancelled (rest.loosen l) here going
      childless (was.stopping (.inl stopping)) (le_refl _))
    rintro _ w' ⟨rest', onward, last, there, ended⟩
    refine ⟨Kept.of_subsides rest' (onward.mono (fun _ => id) (fun _ h => by cases h.2)), ?_⟩
    intro lane' there'
    rw [there] at there'
    cases there'
    simp [Lane.required, ended, Outcome.phase]
  · intro _
    apply (Edits.first here).changeLane rfl
    intro w₁ edits
    rw [edits.state]
    refine ⟨Kept.of_subsides ?_ (Onward.touch here (fun _ => .inr rfl) .inr), ?_⟩
    · refine rest.adorn here ⟨rfl, rfl, rfl, le_refl _⟩ rfl rfl rfl ?_ ?_
      · have content := was.content
        rw [Lane.contentValid_iff] at content
        exact { was with
          content := by rw [Lane.contentValid_iff]; exact content
          checking := fun h => by rw [stopping] at h; cases h
          success := fun h => by rw [stopping] at h; cases h
          approved := fun _ => .inl (.inr (.inl stopping)) }
      · refine (rest.tended l lane here).keep id ?_ rfl ?_
        · intro key entry _ _ suited
          cases effect : entry.effect <;> rw [effect] at suited
          · exact suited
          · have checking := suited.1
            rw [stopping] at checking
            cases checking
          · exact suited
          · exact suited
        · intro type required
          simp [Lane.required, stopping] at required
    · intro lane' there
      rw [touch_lanes, Dictionary.get?_put_self] at there
      cases there
      simp [Lane.required, stopping]

theorem artifact_spec (clock : ctx.time ≤ maxSafeInteger) (rest : Rest strict w.state)
    (here : w.state.lanes.get? l = some lane) (going : terminal lane.phase = false)
    (staying : lane.phase ≠ .cancelling) (unchecked : lane.phase ≠ .checking)
    {artifact : Artifact} (valid : artifact.valid = true) :
    Meets Ordinary (do
      changeLane l fun lane => { lane with artifact := some artifact }
      reconcile ctx l) w fun _ w' => Kept strict (fun _ => False) w.state w'.state := by
  have was := rest.proper l lane here
  have content := was.content
  rw [Lane.contentValid_iff] at content
  rw [meets_bind]
  apply (Edits.first here).changeLane rfl
  intro w₁ edits
  have rest₁ : Rest strict w₁.state := by
    rw [edits.state]
    refine rest.adorn here ⟨rfl, rfl, rfl, le_refl _⟩ rfl rfl rfl ?_ ?_
    · exact { was with
        content := by
          rw [Lane.contentValid_iff]
          simp [content, valid]
        success := fun h => by
          rw [show lane.phase = .succeeded from h] at going
          cases going }
    · refine (rest.tended l lane here).keep id ?_ rfl (fun _ => id)
      intro key entry _ _ suited
      cases effect : entry.effect <;> rw [effect] at suited
      · exact suited
      · exact absurd suited.1 unchecked
      · exact suited
      · rw [suited.1] at going
        cases going
  apply Meets.mono (reconcile_spec clock rest₁ edits.lane_eq)
  rintro _ w₂ ⟨rest₂, second⟩
  apply Kept.of_subsides rest₂
  apply Onward.trans _ second
  rw [edits.state]
  exact Onward.going here going going

theorem applyChecked_spec (clock : ctx.time ≤ maxSafeInteger) (rest : Rest strict w.state)
    (here : w.state.lanes.get? l = some lane) (checking : lane.phase = .checking)
    {key : String} {entry : Intent} (pending : w.state.intents.get? key = some entry)
    (own : entry.effect.laneId = l) (check : entry.effect.type = .check) (commandPassed : Bool)
    (reviewPassed : Option Bool) :
    Meets Ordinary (applyChecked ctx l key commandPassed reviewPassed) w fun _ w' =>
      Kept strict (fun k => k = l ∧ commandPassed = true ∧
        (w.state.input.template.checks.asksReview = true → reviewPassed = some true))
        w.state w'.state ∧
      ∀ lane', w'.state.lanes.get? l = some lane' → lane'.phase ≠ .checking := by
  have was := rest.proper l lane here
  have content := was.content
  rw [Lane.contentValid_iff] at content
  have going : terminal lane.phase = false := by rw [checking]; rfl
  have staying : lane.phase ≠ .cancelling := by rw [checking]; simp
  obtain ⟨running, -⟩ := rest.running here going staying
  have done := (was.checking checking).1
  have childless := (was.checking checking).2
  simp only [applyChecked, meets_bind]
  apply (Edits.first here).dropIntent
  intro w₁ dropped
  simp only [meets_getState]
  have asks : w₁.state.input = w.state.input := by rw [dropped.state]; rfl
  rw [asks]
  generalize verdict : (commandPassed && (!w.state.input.template.checks.asksReview ||
    reviewPassed == some true)) = passed
  apply dropped.changeLane rfl
  intro w₂ edits
  have inv₂ : Inv (.at l strict) w₂.state := by
    rw [edits.state]
    refine rest.consume here pending own going staying ⟨rfl, rfl, rfl, le_refl _⟩ rfl rfl rfl rfl
      ?_ ?_
    · exact { was with
        content := by
          rw [Lane.contentValid_iff]
          exact content
        success := fun h => by
          rw [show lane.phase = .succeeded from h] at going
          cases going
        approved := fun _ => .inr ⟨trivial, going, .inl done⟩
        halted := fun stopped => by rw [running] at stopped; cases stopped }
    · intro key' entry' there other own' suited
      cases effect : entry'.effect with
      | start =>
        rw [effect] at suited
        exact suited
      | check =>
        -- The lane had one check pending.
        have same := (rest.tended l lane here).sole key entry key' entry' pending there own own'
          (by rw [check, effect]; rfl)
        exact absurd same other
      | cancel =>
        rw [effect] at suited
        exact suited
      | merge =>
        rw [effect] at suited
        rw [suited.1] at going
        cases going
  have first : ∀ {revived fresh : String → Prop}, Onward revived fresh w.state w₂.state := by
    intro revived fresh
    rw [edits.state]
    exact Onward.going here going going
  have stop₂ : w₂.state.stopReason = none := by rw [edits.state]; exact running
  have failing : ∀ {fresh : String → Prop} (error : String), lengthWithin 0 8192 error = true →
      Meets Ordinary (fail ctx l error) w₂ fun _ w' => Kept strict fresh w.state w'.state ∧
        ∀ lane', w'.state.lanes.get? l = some lane' → lane'.phase ≠ .checking := by
    intro fresh error valid
    apply Meets.mono (fail_spec clock inv₂ edits.lane_eq going staying stop₂ (fun _ => done) error
      valid)
    rintro _ w' ⟨rest', second, unchecked⟩
    exact ⟨⟨rest', first.trans (second.mono (fun _ => False.elim) (fun _ => False.elim))⟩, unchecked⟩
  rw [meets_ite]
  constructor
  · intro _
    exact failing "check_failed" (by decide +kernel)
  · intro h
    have approval : passed = true := by simpa using h
    rw [approval] at verdict edits
    simp only [reconcile, reconcileWith, meets_bind, meets_getLane edits.lane_eq, meets_ite,
      meets_pure]
    refine ⟨fun idle => ?_, fun _ => ⟨fun parenting => ?_, fun _ => ⟨fun _ => ?_, fun _ => ?_⟩⟩⟩
    · rw [done] at idle
      rcases idle with isOver | stopping | idle
      · rw [isOver] at going
        cases going
      · exact absurd stopping staying
      · cases idle
    · omega
    · apply failing
      cases error : lane.error with
      | none => decide +kernel
      | some text =>
        have valid := content.2.2.2.2.2.2.2.2.2.2.2.2.2.2.2
        rw [error] at valid
        exact valid
    · -- The pending check has the artifact that is checked.
      obtain ⟨artifact, made⟩ : ∃ artifact, lane.artifact = some artifact := by
        have suited := ((rest.tended l lane here).suits key entry pending own).2
        cases effect : entry.effect <;> simp only [effect, Effect.type, reduceCtorEq] at check
        rw [effect] at suited
        exact ⟨_, suited.2.2.2.2⟩
      simp only [made, if_true]
      have finishes := finish_finishes clock lane.depth
      have fitting : Fitting w₂.state.stopReason { lane with checksPassed := some true }
          .succeeded := ⟨done, by simp [made], rfl⟩
      apply Meets.mono (finishes.settles strict w₂ l _ .succeeded inv₂ edits.lane_eq going childless
        fitting (le_refl _))
      rintro _ w' ⟨rest', onward, last, there, ended⟩
      refine ⟨⟨rest', first.trans (onward.mono (fun _ => False.elim) ?_)⟩, ?_⟩
      · rintro k ⟨same, -⟩
        simp only [Bool.and_eq_true, Bool.or_eq_true, Bool.not_eq_true', beq_iff_eq] at verdict
        refine ⟨same, verdict.1, fun asked => ?_⟩
        rcases verdict.2 with unasked | reviewed
        · rw [asked] at unasked
          cases unasked
        · exact reviewed
      · intro lane' there'
        rw [there] at there'
        cases there'
        rw [ended]
        exact fun h => by cases h

theorem rework_spec (inv : Inv (.at l strict) w.state) (here : w.state.lanes.get? l = some lane)
    (going : terminal lane.phase = false) (staying : lane.phase ≠ .cancelling)
    (running : w.state.stopReason = none) (status : ThreadStatus) :
    Meets Ordinary (do
      when (lane.threadDone = true) (invalidate l)
      phase l (restingPhase status)) w fun _ w' =>
      Rest strict w'.state ∧ Subsides w.state w'.state ∧
      ∀ lane', w'.state.lanes.get? l = some lane' → lane'.phase ≠ .checking := by
  have was := inv.proper l lane here
  have content := was.content
  rw [Lane.contentValid_iff] at content
  have idle : Idle (restingPhase status) := by
    unfold restingPhase
    split
    all_goals first
      | exact .inr (.inl rfl)
      | exact .inl rfl
  have goes : terminal (restingPhase status) = false := by
    rcases idle with h | h | h | h <;> rw [h] <;> rfl
  -- Whatever the lane had ready is gone, or nothing was.
  have ending : ∀ (now : Lane) (intents : Dictionary Intent) (w' : Mutation),
      Edits w.state l lane now intents w' → SamePlace lane now → now.attempt = lane.attempt →
      now.children = lane.children → now.failedChildren = lane.failedChildren →
      now.contentValid = true → now.threadId.isSome = now.worktree.isSome →
      now.checksPassed ≠ some true → Spares l w.state.intents intents →
      (∀ key entry, intents.get? key = some entry → entry.effect.laneId = l →
        w.state.intents.get? key = some entry ∧ entry.effect.type ≠ .check) →
      Meets Ordinary (phase l (restingPhase status)) w' fun _ w' =>
        Rest strict w'.state ∧ Subsides w.state w'.state ∧
        ∀ lane', w'.state.lanes.get? l = some lane' → lane'.phase ≠ .checking := by
    intro now intents w' edits place attempt children failed valid bound unapproved spares fewer
    apply edits.phase
    intro w'' resting
    rw [resting.state]
    have place' : SamePlace lane { now with phase := restingPhase status } :=
      ⟨place.id_eq, place.parentId_eq, place.depth_eq, place.attempt_le⟩
    refine ⟨inv.idle here going staying running place' attempt children failed ?_ bound idle
      unapproved spares fewer, Onward.going here going goes, ?_⟩
    · rw [Lane.contentValid_iff] at valid ⊢
      exact valid
    · intro lane' there
      rw [touch_lanes, Dictionary.get?_put_self] at there
      cases there
      rcases idle with h | h | h | h <;> simp [h]
  rw [meets_bind, meets_when]
  constructor
  · intro _
    rw [invalidate, clearChecks, meets_bind]
    apply (Edits.first here).changeLane rfl
    intro w₁ undone
    rw [meets_bind]
    apply undone.changeLane rfl
    intro w₂ unchecked
    apply unchecked.dropIntents
    intro w₃ cleared
    refine ending _ _ w₃ cleared ⟨rfl, rfl, rfl, le_refl _⟩ rfl rfl rfl ?_ was.bound (by simp)
      spares_withoutChecks ?_
    · rw [Lane.contentValid_iff]
      simp [content]
    · intro key entry left own
      obtain ⟨pending, kept⟩ := get?_withoutChecks.mp left
      exact ⟨pending, fun check => kept ⟨own, check⟩⟩
  · intro undone
    refine ending lane _ w (Edits.first here) ⟨rfl, rfl, rfl, le_refl _⟩ rfl rfl rfl was.content
      was.bound ?_ (Spares.refl _ _) ?_
    · intro passed
      rcases was.approved passed with (done | stopping | stopped | ⟨-, done⟩) | ⟨-, -, done | stopped⟩
      · rw [done] at going
        cases going
      · exact staying stopping
      · rw [stopped] at going
        cases going
      · exact undone done
      · exact undone done
      · rw [running] at stopped
        cases stopped
    · intro key entry pending own
      refine ⟨pending, ?_⟩
      have suited := ((inv.tended l lane here).suits key entry pending own).2
      cases effect : entry.effect <;> rw [effect] at suited <;> simp [Effect.type]
      exact undone suited.2.1

theorem applyStatus_spec (clock : ctx.time ≤ maxSafeInteger) (inv : Inv (.at l strict) w.state)
    (here : w.state.lanes.get? l = some lane)
    (rested : terminal lane.phase = true ∨ lane.phase = .cancelling ∨ w.state.stopReason = none)
    (status : ThreadStatus)
    (restless : status = .done → Rest strict w.state) :
    Meets Ordinary (when (!terminal lane.phase ∧ lane.phase ≠ .queued ∧ lane.phase ≠ .cancelling) do
      if status = .failed then fail ctx l "thread_failed"
      else if status = .done then do
        changeLane l fun lane => { lane with threadDone := true }
        reconcile ctx l
      else do
        when (lane.threadDone = true) (invalidate l)
        phase l (restingPhase status)) w fun _ w' =>
      (Rest strict w'.state ∨ w'.state = w.state ∧ lane.phase = .queued) ∧
      Subsides w.state w'.state ∧
      (status ≠ .done → ∀ lane', w'.state.lanes.get? l = some lane' → lane'.phase ≠ .checking) := by
  rw [meets_when]
  constructor
  · rintro ⟨open_, -, staying⟩
    have going : terminal lane.phase = false := by simpa using open_
    have running : w.state.stopReason = none := by
      rcases rested with isOver | stopping | running
      · rw [isOver] at going
        cases going
      · exact absurd stopping staying
      · exact running
    have was := inv.proper l lane here
    rw [meets_ite]
    constructor
    · intro failed
      have approved : lane.checksPassed = some true → lane.threadDone = true := by
        intro passed
        rcases was.approved passed with (done | stopping | stopped | ⟨-, done⟩) |
          ⟨-, -, done | stopped⟩
        · rw [done] at going
          cases going
        · exact absurd stopping staying
        · rw [stopped] at going
          cases going
        · exact done
        · exact done
        · rw [running] at stopped
          cases stopped
      apply Meets.mono (fail_spec clock inv here going staying running approved "thread_failed"
        (by decide +kernel))
      rintro _ w' ⟨rest, subsides, unchecked⟩
      exact ⟨.inl rest, subsides, fun _ => unchecked⟩
    intro _
    rw [meets_ite]
    constructor
    · intro done
      have rest := restless done
      obtain ⟨-, unapproved⟩ := rest.running here going staying
      rw [meets_bind]
      apply (Edits.first here).changeLane rfl
      intro w₁ edits
      have content := was.content
      rw [Lane.contentValid_iff] at content
      have rest₁ : Rest strict w₁.state := by
        rw [edits.state]
        refine rest.adorn here ⟨rfl, rfl, rfl, le_refl _⟩ rfl rfl rfl ?_ ?_
        · exact { rest.proper l lane here with
            content := by rw [Lane.contentValid_iff]; exact content
            checking := fun h => ⟨rfl, (was.checking h).2⟩
            success := fun h => by
              rw [show lane.phase = .succeeded from h] at going
              cases going
            approved := fun h => absurd h unapproved }
        · refine (rest.tended l lane here).keep id ?_ rfl ?_
          · intro key entry _ _ suited
            cases effect : entry.effect <;> rw [effect] at suited
            · exact suited
            · exact ⟨suited.1, rfl, suited.2.2⟩
            · exact suited
            · exact suited
          · intro type required
            unfold Lane.required at required ⊢
            cases phase : lane.phase <;> simp_all
      apply Meets.mono (reconcile_spec clock rest₁ edits.lane_eq)
      rintro _ w₂ ⟨rest₂, second⟩
      refine ⟨.inl rest₂, Onward.trans ?_ second, fun undone => absurd done undone⟩
      rw [edits.state]
      exact Onward.going here going going
    · intro _
      apply Meets.mono (rework_spec inv here going staying running status)
      rintro _ w' ⟨rest, subsides, unchecked⟩
      exact ⟨.inl rest, subsides, fun _ => unchecked⟩
  · intro untouched
    have calm : terminal lane.phase = true ∨ lane.phase = .queued ∨ lane.phase = .cancelling := by
      by_contra h
      simp only [not_or, Bool.not_eq_true] at h
      exact untouched ⟨by simp [h.1], h.2.1, h.2.2⟩
    refine ⟨?_, Onward.refl _, ?_⟩
    · rcases calm with isOver | queued | stopping
      · left
        exact inv.tighten fun k found there loosely _ => by
          cases loosely
          rw [here] at there
          cases there
          exact .inl isOver
      · exact .inr ⟨rfl, queued⟩
      · left
        exact inv.tighten fun k found there loosely _ => by
          cases loosely
          rw [here] at there
          cases there
          exact .inr stopping
    · intro _ lane' there
      rw [here] at there
      cases there
      rcases calm with isOver | queued | stopping
      · intro checking
        rw [checking] at isOver
        cases isOver
      · rw [queued]
        simp
      · rw [stopping]
        simp

theorem applyThread_spec (clock : ctx.time ≤ maxSafeInteger) (rest : Rest strict w.state)
    (here : w.state.lanes.get? l = some lane) (status : ThreadStatus)
    (unmerged : strict → w.state.mergeStatus = .pending → reopens status lane.phase = true →
      ∃ x, w.state.winner = some x ∧ Under w.state x l) :
    Meets Ordinary (applyThread ctx l status) w fun _ w' =>
      Kept strict (fun _ => False) w.state w'.state ∧
      (status ≠ .done → ∀ lane', w'.state.lanes.get? l = some lane' → lane'.phase ≠ .checking) := by
  simp only [applyThread, meets_bind, meets_getLane here, meets_when (reopens _ _ = true)]
  constructor
  · intro reviving
    obtain ⟨alive, isOver⟩ : status ≠ .done ∧ terminal lane.phase = true := by
      simp only [reopens, Bool.and_eq_true, bne_iff_ne] at reviving
      exact reviving.1
    have started : lane.phase ≠ .queued := by
      intro queued
      rw [queued] at isOver
      cases isOver
    apply Meets.mono (reopen_spec clock rest here started)
    intro _ w₁ up
    obtain ⟨lane₁, here₁, going₁, started₁⟩ := up.working
    -- With `strict` no merge is left beside the revived lane.
    have inv₁ : Inv (.at l strict) w₁.state := by
      have calm : Inv { loose := fun k => k = l, noisy := True, strict } w₁.state :=
        up.inv.tighten fun k _ _ loosely tight => absurd (loosely.resolve_left id) tight
      refine { calm with quiet := ?_ }
      intro strictly _ pending
      obtain ⟨x, won, under⟩ := unmerged strictly (up.onward.merge pending) reviving
      exact absurd pending (up.unmerged x won under)
    rw [meets_getLane here₁]
    apply Meets.mono (applyStatus_spec clock inv₁ here₁ ?_ status (fun done => absurd done alive))
    · rintro _ w₂ ⟨rest₂ | ⟨-, queued⟩, second, unchecked⟩
      · refine ⟨⟨rest₂, up.onward.trans ?_⟩, unchecked⟩
        exact second.mono (fun _ => False.elim) (fun _ => id)
      · exact absurd queued started₁
    · by_cases stopped : w₁.state.stopReason.isSome = true
      · exact .inr (.inl (up.stopping stopped lane₁ here₁ going₁))
      · exact .inr (.inr (by simpa using stopped))
  · intro _
    apply Meets.mono (applyStatus_spec clock (rest.loosen l) here ?_ status (fun _ => rest))
    · rintro _ w₂ ⟨rest₂ | ⟨same, -⟩, second, unchecked⟩
      · exact ⟨Kept.of_subsides rest₂ second, unchecked⟩
      · rw [same] at unchecked ⊢
        exact ⟨Kept.refl rest, unchecked⟩
    · cases isOver : terminal lane.phase
      · by_cases stopping : lane.phase = .cancelling
        · exact .inr (.inl stopping)
        · exact .inr (.inr (rest.running here isOver stopping).1)
      · exact .inl rfl

theorem executionFailed_spec (clock : ctx.time ≤ maxSafeInteger) (rest : Rest strict w.state)
    (here : w.state.lanes.get? l = some lane) {key : String} {entry : Intent}
    (pending : w.state.intents.get? key = some entry) (own : entry.effect.laneId = l)
    {operation : Operation} (typed : entry.effect.type = operation.type) {error : String}
    (valid : lengthWithin 0 8192 error = true) :
    Meets Ordinary (do
      dropIntent key
      if operation = .merge then changeState fun s => { s with mergeStatus := .failed }
      else when (lane.phase ≠ .cancelling ∧ !terminal lane.phase) (fail ctx l error)) w fun _ w' =>
      Kept strict (fun _ => False) w.state w'.state := by
  have was := rest.proper l lane here
  have suited := ((rest.tended l lane here).suits key entry pending own).2
  rw [meets_bind]
  apply (Edits.first here).dropIntent
  intro w₁ dropped
  rw [meets_ite]
  constructor
  · rintro rfl
    rw [meets_changeState, dropped.state]
    have head := rest.head
    rw [State.headValid_iff] at head
    refine Kept.of_subsides ?_ (Onward.of_lanes ?_ rfl (fun h => by cases h))
    · have isOver := rest.unmerged pending typed .failed (by simp) head.2.2.2.2.2.2
      simp only [State.touch, State.recount, Int.sub_self, Int.add_zero,
        Dictionary.put_eq_self here]
      exact isOver
    · exact Dictionary.put_eq_self here
  · intro unmerging
    -- A lane to be started or checked is at work.
    obtain ⟨going, staying⟩ : terminal lane.phase = false ∧ lane.phase ≠ .cancelling := by
      cases effect : entry.effect with
      | start =>
        rw [effect] at suited
        rcases suited with h | h | h | h | h | h <;> simp [h, terminal]
      | check =>
        rw [effect] at suited
        simp [suited.1, terminal]
      | cancel =>
        rw [effect] at typed
        cases operation <;> cases typed
      | merge =>
        rw [effect] at typed
        cases operation <;> simp [Effect.type, Operation.type] at typed
        exact absurd rfl unmerging
    obtain ⟨running, unapproved⟩ := rest.running here going staying
    have inv₁ : Inv (.at l strict) w₁.state := by
      rw [dropped.state]
      refine rest.consume here pending own going staying ⟨rfl, rfl, rfl, le_refl _⟩ rfl rfl rfl rfl
        ?_ (fun _ _ _ _ _ => id)
      exact { was with
        approved := fun h => absurd h unapproved
        halted := fun stopped => by rw [running] at stopped; cases stopped }
    rw [meets_when]
    refine ⟨fun _ => ?_, fun h => absurd ⟨staying, by simp [going]⟩ h⟩
    apply Meets.mono (fail_spec clock inv₁ dropped.lane_eq going staying
      (by rw [dropped.state]; exact running) (fun h => absurd h unapproved) error valid)
    rintro _ w₂ ⟨rest₂, second, -⟩
    apply Kept.of_subsides rest₂
    apply Onward.trans _ second
    rw [dropped.state]
    exact Onward.going here going going

theorem merged_spec (rest : Rest strict w.state) {key : String} {entry : Intent}
    (pending : w.state.intents.get? key = some entry) (merge : entry.effect.type = .merge)
    {checkpoint : String} (valid : isRef checkpoint = true) (event : Event) :
    Meets Ordinary (do
      dropIntent key
      changeState fun s => { s with mergeStatus := .applied, safetyCheckpoint := some checkpoint }
      emit event) w fun _ w' => Kept strict (fun _ => False) w.state w'.state := by
  simp only [dropIntent, meets_bind, meets_changeState, meets_emit]
  refine Kept.of_subsides ?_ (Onward.of_lanes rfl rfl (fun h => by cases h))
  have short : (some checkpoint).all (lengthWithin 0 512) = true := by
    simp only [isRef, lengthWithin, Option.all_some, decide_eq_true_eq] at valid ⊢
    omega
  exact rest.unmerged pending merge .applied (by simp) short

/-- A report that approves the artifact a lane has, by the check that is pending for it. -/
def Approves (s : State) (l : String) (lane : Lane) (report : LaneReport) : Prop :=
  ∃ key reviewPassed artifact, report = .checked key true reviewPassed ∧
    (s.input.template.checks.asksReview = true → reviewPassed = some true) ∧
    s.intents.get? key = some { id := key, effect := .check l lane.attempt artifact } ∧
    lane.phase = .checking ∧ lane.artifact = some artifact

theorem pends_iff {s : State} {key l : String} {type : EffectType} :
    s.pends key type l = true ↔ ∃ entry, s.intents.get? key = some entry ∧
      entry.effect.type = type ∧ entry.effect.laneId = l := by
  unfold State.pends
  cases s.intents.get? key <;> simp

theorem applyReport_spec (clock : ctx.time ≤ maxSafeInteger) (rest : Rest strict w.state)
    (here : w.state.lanes.get? l = some lane) (report : LaneReport) (valid : report.valid = true)
    (unmerged : strict → w.state.mergeStatus = .pending → ∀ status, report = .thread status →
      reopens status lane.phase = true → ∃ x, w.state.winner = some x ∧ Under w.state x l) :
    Meets Ordinary (applyReport ctx lane report) w fun _ w' =>
      Kept strict (fun k => k = l ∧ Approves w.state l lane report) w.state w'.state := by
  have named : lane.id = l := rest.id_eq l lane here
  have widen : ∀ {s s' : State}, Kept strict (fun _ => False) s s' →
      Kept strict (fun k => k = l ∧ Approves w.state l lane report) s s' :=
    fun kept => ⟨kept.1, kept.2.mono (fun _ => id) (fun _ => False.elim)⟩
  have unchanged : Kept strict (fun k => k = l ∧ Approves w.state l lane report) w.state w.state :=
    Kept.refl rest
  simp only [applyReport, meets_bind, meets_getState]
  cases report with
  | usage spent =>
    apply Meets.mono (applyUsage_spec clock rest here valid)
    exact fun _ _ kept => widen kept
  | bound threadId worktree =>
    simp only [meets_when]
    refine ⟨fun started => ?_, fun _ => unchanged⟩
    simp only [LaneReport.valid, Bool.and_eq_true, bne_iff_ne] at valid
    apply Meets.mono (applyBound_spec rest here started valid.1 valid.2)
    exact fun _ _ kept => widen kept.1
  | stopped key =>
    simp only [meets_when]
    refine ⟨?_, fun _ => unchanged⟩
    rintro ⟨stopping, _⟩
    rw [named]
    apply Meets.mono (stopped_spec clock rest here stopping)
    exact fun _ _ kept => widen kept.1
  | thread status =>
    rw [named]
    apply Meets.mono (applyThread_spec clock rest here status
      (fun strictly pending => unmerged strictly pending status rfl))
    exact fun _ _ kept => widen kept.1
  | artifact result =>
    simp only [meets_when]
    refine ⟨?_, fun _ => unchanged⟩
    rintro ⟨open_, staying, unchecked⟩
    rw [named]
    apply Meets.mono (artifact_spec clock rest here (by simpa using open_) staying unchecked valid)
    exact fun _ _ kept => widen kept
  | checked key commandPassed reviewPassed =>
    simp only [meets_when]
    refine ⟨?_, fun _ => unchanged⟩
    rintro ⟨checking, pends⟩
    rw [named] at pends ⊢
    obtain ⟨entry, pending, check, own⟩ := pends_iff.mp pends
    apply Meets.mono (applyChecked_spec clock rest here checking pending own check commandPassed
      reviewPassed)
    rintro _ w' ⟨⟨rest', onward⟩, -⟩
    refine ⟨rest', onward.mono (fun _ => id) ?_⟩
    rintro k ⟨same, rfl, reviewed⟩
    have identity := (rest.tended l lane here).named key entry pending own
    have suited := (rest.tended l lane here).suits key entry pending own
    obtain ⟨id, effect⟩ := entry
    cases effect <;> simp only [Effect.type, reduceCtorEq] at check
    obtain ⟨rfl, -⟩ : id = key ∧ _ := identity
    obtain rfl : _ = l := own
    obtain ⟨current, matched⟩ := suited
    refine ⟨same, id, reviewPassed, _, rfl, reviewed, ?_, checking, matched.2.2.2.2⟩
    rw [pending, ← current]
    rfl
  | executionFailed key operation error =>
    simp only [meets_when]
    refine ⟨fun pends => ?_, fun _ => unchanged⟩
    rw [named] at pends ⊢
    obtain ⟨entry, pending, typed, own⟩ := pends_iff.mp pends
    simp only [LaneReport.valid, Bool.and_eq_true] at valid
    apply Meets.mono (executionFailed_spec clock rest here pending own typed valid.2)
    exact fun _ _ kept => widen kept
  | merged key checkpoint =>
    simp only [meets_when]
    refine ⟨?_, fun _ => unchanged⟩
    rintro ⟨_, _, merges⟩
    obtain ⟨entry, pending, merge⟩ : ∃ entry, w.state.intents.get? key = some entry ∧
        entry.effect.type = .merge := by
      cases found : w.state.intents.get? key with
      | none => simp [found] at merges
      | some entry => exact ⟨entry, rfl, by simpa [found] using merges⟩
    simp only [LaneReport.valid, Bool.and_eq_true] at valid
    apply Meets.mono (merged_spec rest pending merge valid.2 (.merged lane.id checkpoint))
    exact fun _ _ kept => widen kept

end

end Ace.Orchestrator
