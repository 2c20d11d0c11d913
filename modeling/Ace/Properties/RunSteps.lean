import Ace.Properties.RunFacts

/-!
# Every state of a run

Spawned and initial lanes, the picked winner and its merge, and with them every fact: the
invariant holds in each state that is reached from a new run.
-/

namespace Ace.Orchestrator

open Script Script.Command

/-! ### A new lane -/

/-- The state with one more lane, which is not over and not waiting. -/
def State.enroll (s : State) (l : String) (lane : Lane) (intents : Dictionary Intent)
    (spawnReceipts : Dictionary String) : State :=
  { s with lanes := s.lanes.put l lane, open_ := s.open_ + 1, intents, spawnReceipts }

theorem get?_enroll {s : State} {l k : String} {lane found : Lane} {intents : Dictionary Intent}
    {receipts : Dictionary String}
    (there : (s.enroll l lane intents receipts).lanes.get? k = some found) :
    (k = l ∧ found = lane) ∨ (k ≠ l ∧ s.lanes.get? k = some found) := by
  simp only [State.enroll, Dictionary.get?_put] at there
  split at there
  next same =>
    cases there
    exact .inl ⟨same.symm, rfl⟩
  next other => exact .inr ⟨fun same => other same.symm, there⟩

theorem Rest.enroll {strict : Prop} {s : State} {l : String} {lane : Lane}
    {intents : Dictionary Intent} {receipts : Dictionary String} (rest : Rest strict s)
    (absent : s.lanes.get? l = none) (named : lane.id = l) (running : s.stopReason = none)
    (room : s.lanes.keys.length < s.input.template.budget.maxLanes)
    (new : lane.phase = .queued ∨ lane.phase = .starting) (childless : lane.children = 0)
    (unfailed : lane.failedChildren = 0)
    (nested : ∀ p, lane.parentId = some p → s.input.template.kind = .coordinator ∧
      ∃ parent, s.lanes.get? p = some parent ∧ parent.depth + 1 = lane.depth)
    (root : lane.parentId = none → lane.depth = 0)
    (proper : Proper s.input s.stopReason False lane) (spares : Spares l s.intents intents)
    (tended : Tended strict intents l lane)
    (receipted : Receipted (s.enroll l lane intents receipts)) :
    Inv { debt := shift (fun _ => 0) lane.parentId 1, strict }
      (s.enroll l lane intents receipts) := by
  have going : terminal lane.phase = false := by rcases new with h | h <;> rw [h] <;> rfl
  have unwaiting : isWaiting lane.phase = false := by rcases new with h | h <;> rw [h] <;> rfl
  have counted : ∀ (p : Lane → Bool), tally p (s.lanes.put l lane) = tally p s.lanes + (p lane).toInt :=
    fun p => tally_put_new p lane absent
  -- No lane has the new one for a parent.
  have orphan : ∀ k found, s.lanes.get? k = some found → found.parentId ≠ some l := by
    intro k found there own
    obtain ⟨-, parent, above, -⟩ := rest.parent k found l there own
    rw [absent] at above
    cases above
  have notOwn : lane.parentId ≠ some l := by
    intro own
    obtain ⟨-, parent, above, -⟩ := nested l own
    rw [absent] at above
    cases above
  have none_pending : strict → s.mergeStatus ≠ .pending := by
    intro strictly pending
    obtain ⟨x, won, key, entry, there, own, merge⟩ := rest.promised strictly pending
    have requested := rest.requested (rest.merging key entry there merge).2.1
    rw [running] at requested
    cases requested
  constructor
  case head => exact rest.head
  case small =>
    show (s.lanes.put l lane).keys.length ≤ _
    rw [Dictionary.length_keys_put lane absent]
    exact room
  case receipts => exact receipted
  case open_eq =>
    show s.open_ + 1 = tally _ (s.lanes.put l lane)
    rw [counted, rest.open_eq, going]
    rfl
  case waiting_eq =>
    show s.waiting = tally _ (s.lanes.put l lane)
    rw [counted, rest.waiting_eq, unwaiting]
    exact (Int.add_zero _).symm
  case succeeded_eq =>
    show s.succeeded = tally _ (s.lanes.put l lane)
    rw [counted, rest.succeeded_eq]
    rcases new with h | h <;> rw [h] <;> exact (Int.add_zero _).symm
  case failed_eq =>
    show s.failed = tally _ (s.lanes.put l lane)
    rw [counted, rest.failed_eq]
    rcases new with h | h <;> rw [h] <;> exact (Int.add_zero _).symm
  case id_eq =>
    intro k found there
    rcases get?_enroll there with ⟨rfl, rfl⟩ | ⟨-, old⟩
    · exact named
    · exact rest.id_eq k found old
  case parent =>
    intro k found p there child
    have still : ∀ parent, s.lanes.get? p = some parent →
        (s.lanes.put l lane).get? p = some parent := by
      intro parent above
      rw [Dictionary.get?_put_ne]
      · exact above
      · rintro rfl
        rw [absent] at above
        cases above
    rcases get?_enroll there with ⟨rfl, rfl⟩ | ⟨-, old⟩
    · obtain ⟨kind, parent, above, depth⟩ := nested p child
      exact ⟨kind, parent, still parent above, depth⟩
    · obtain ⟨kind, parent, above, depth⟩ := rest.parent k found p old child
      exact ⟨kind, parent, still parent above, depth⟩
  case root =>
    intro k found there top
    rcases get?_enroll there with ⟨rfl, rfl⟩ | ⟨-, old⟩
    · exact root top
    · exact rest.root k found old top
  case children_eq =>
    intro k found there
    show _ = tally _ (s.lanes.put l lane)
    rw [counted]
    rcases get?_enroll there with ⟨rfl, rfl⟩ | ⟨-, old⟩
    · have none_counted : tally (openChild k) s.lanes = 0 := by
        rw [tally_eq_zero_iff]
        intro k' found' there'
        have other := orphan k' found' there'
        simp [openChild, other]
      have self : openChild k found = false := by simp [openChild, notOwn]
      rw [none_counted, self, childless]
      simp [shift, notOwn]
    · have was := rest.children_eq k found old
      simp only [Int.add_zero] at was
      rw [was]
      by_cases child : lane.parentId = some k
      · simp [shift, child, openChild, going]
      · have other : (lane.parentId == some k) = false := by simpa using child
        simp [shift, child, openChild, other]
  case failedChildren_eq =>
    intro k found there
    show _ = tally _ (s.lanes.put l lane) + 0
    rw [counted]
    have unsettled : failedChild k lane = false := by simp [failedChild, going]
    rw [unsettled]
    rcases get?_enroll there with ⟨rfl, rfl⟩ | ⟨-, old⟩
    · have none_counted : tally (failedChild k) s.lanes = 0 := by
        rw [tally_eq_zero_iff]
        intro k' found' there'
        have other := orphan k' found' there'
        simp [failedChild, other]
      rw [none_counted, unfailed]
      rfl
    · have was := rest.failedChildren_eq k found old
      rw [was]
      simp
  case proper =>
    intro k found there
    rcases get?_enroll there with ⟨rfl, rfl⟩ | ⟨-, old⟩
    · exact proper
    · exact rest.proper k found old
  case tended =>
    intro k found there
    rcases get?_enroll there with ⟨rfl, rfl⟩ | ⟨other, old⟩
    · exact tended.weaken And.left
    · exact Tended.of_spares spares other (rest.tended k found old)
  case owner =>
    intro key entry pending
    show ((s.lanes.put l lane).get? _).isSome = true
    rw [Dictionary.get?_put]
    by_cases own : entry.effect.laneId = l
    · simp [own]
    · rw [if_neg (fun same => own same.symm)]
      exact rest.owner key entry ((spares key entry own).mp pending)
  case merging =>
    intro key entry pending merge
    by_cases own : entry.effect.laneId = l
    · have suited := (tended.suits key entry pending own).2
      cases effect : entry.effect <;> simp only [effect, Effect.type, reduceCtorEq] at merge
      rw [effect] at suited
      rw [suited.1] at going
      cases going
    · exact rest.merging key entry ((spares key entry own).mp pending) merge
  case requested => exact rest.requested
  case winner =>
    intro k won
    obtain ⟨first, there, success⟩ := rest.winner k won
    refine ⟨first, ?_, success⟩
    show (s.lanes.put l lane).get? k = some first
    rw [Dictionary.get?_put_ne]
    · exact there
    · rintro rfl
      rw [absent] at there
      cases there
  case promised => exact fun strictly pending => absurd pending (none_pending strictly)
  case quiet => exact fun strictly _ pending => absurd pending (none_pending strictly)

theorem Inv.adopt {strict : Prop} {s : State} {p : String} {parent now : Lane}
    {intents : Dictionary Intent}
    (inv : Inv { debt := shift (fun _ => 0) (some p) 1, strict } s)
    (here : s.lanes.get? p = some parent) (going : terminal parent.phase = false)
    (goes : terminal now.phase = false) (place : SamePlace parent now)
    (children : now.children = parent.children + 1)
    (failed : now.failedChildren = parent.failedChildren)
    (proper : Proper s.input s.stopReason False now) (spares : Spares p s.intents intents)
    (fewer : ∀ key entry, intents.get? key = some entry → entry.effect.laneId = p →
      s.intents.get? key = some entry)
    (tended : Tended strict intents p now) : Rest strict (s.touch p parent now intents) := by
  have touched := inv.touch here place (fun _ _ => id) proper spares (tended.weaken And.left)
    (fun key entry pending own _ => fewer key entry pending own) ?_ ?_
  · have opened : isOpen now - isOpen parent = 0 := by
      rw [isOpen_of_going going, isOpen_of_going goes]
      rfl
    have failure : isFailure parent - isFailure now = 0 := by
      rw [isFailure_of_going going, isFailure_of_going goes]
      rfl
    have counted : parent.children - now.children = -1 := by omega
    have same : now.failedChildren - parent.failedChildren = 0 := by omega
    have cancel : shift (shift (fun _ => 0) (some p) 1) (some p) (-1) = fun _ => 0 := by
      funext k
      simp only [shift]
      split <;> omega
    simp only [Ghost.after, opened, failure, counted, same, shift_zero, cancel] at touched
    exact touched
  · intro won
    obtain ⟨first, there, success⟩ := inv.winner p won
    rw [here] at there
    cases there
    rw [success] at going
    cases going
  · intros
    rw [isOpen_of_going going, isOpen_of_going goes]

/-- The lane that a spawn request or a template asks for. -/
def newLane (ctx : Context) (id : String) (spec : LaneSpec) (prompt : String) (stage : Nat)
    (parent : Option Lane) : Lane :=
  { id, spec, prompt, stage
    depth := parent.elim 0 (·.depth + 1)
    parentId := parent.map (·.id)
    phase := .queued
    attempt := 1
    startedAt := ctx.time
    threadDone := false
    children := 0
    failedChildren := 0 }

section

variable {ctx : Context} {w : Mutation} {strict : Prop}

theorem meets_addLane {spec : LaneSpec} {prompt : String} {stage : Nat} {parent : Option Lane}
    {Q : String → Mutation → Prop}
    (next : ∀ w' l, isOrchestrationId l = true → w.state.lanes.get? l = none →
      w'.state = { w.state with
        lanes := parent.elim (w.state.lanes.put l (newLane ctx l spec prompt stage parent))
          fun above => (w.state.lanes.put l (newLane ctx l spec prompt stage parent)).modify above.id
            fun lane => { lane with children := lane.children + 1 }
        open_ := w.state.open_ + 1 } → Q l w') :
    Meets Ordinary (addLane ctx spec prompt stage parent) w Q := by
  simp only [addLane, nextId, meets_bind, meets_get, meets_set, meets_ite, meets_pure, meets_throw,
    meets_getState, meets_refuse, meets_changeState]
  refine ⟨fun valid => ⟨fun _ => by simp [Ordinary], fun absent => ?_⟩, fun _ => trivial⟩
  have missing : w.state.lanes.get? (ctx.ids .lane w.drawn) = none := by
    simpa [Dictionary.contains] using absent
  rw [meets_whenSome]
  constructor
  · rintro above rfl
    rw [changeLane, meets_changeState]
    exact next _ (ctx.ids .lane w.drawn) valid missing rfl
  · rintro rfl
    exact next _ (ctx.ids .lane w.drawn) valid missing rfl

theorem newLane_valid (clock : ctx.time ≤ maxSafeInteger) {l prompt : String} {spec : LaneSpec}
    {stage : Nat} {parent : Option Lane} (valid : isOrchestrationId l = true)
    (spec_valid : spec.valid = true) (prompt_valid : lengthWithin 1 33024 prompt = true)
    (staged : stage ≤ maxSafeInteger)
    (above : ∀ lane, parent = some lane → lane.depth + 1 ≤ 8 ∧ isOrchestrationId lane.id = true) :
    (newLane ctx l spec prompt stage parent).contentValid = true := by
  have attempt : isAttempt 1 = true := rfl
  rw [Lane.contentValid_iff]
  simp only [newLane, valid, spec_valid, prompt_valid, staged, attempt, clock, usage_valid_zero,
    Option.all_none, true_and, and_true]
  cases parent with
  | none => simp
  | some lane => simp [above lane rfl]

theorem Receipted.enroll_child {s : State} {c p requestId : String} {attempt : Nat}
    {lane parent : Lane} {intents : Dictionary Intent} (receipts : Receipted s)
    (kind : s.input.template.kind = .coordinator) (absent : s.lanes.get? c = none)
    (fresh : s.spawnReceipts.get? (receiptKey p attempt requestId) = none)
    (here : s.lanes.get? p = some parent) (current : parent.attempt = attempt)
    (positive : 1 ≤ attempt) (parent_valid : isOrchestrationId p = true)
    (request_valid : isOrchestrationId requestId = true) (nested : lane.parentId = some p) :
    Receipted (s.enroll c lane intents
      (s.spawnReceipts.put (receiptKey p attempt requestId) c)) := by
  have still : ∀ k found, s.lanes.get? k = some found →
      (s.lanes.put c lane).get? k = some found := by
    intro k found there
    rw [Dictionary.get?_put_ne]
    · exact there
    · rintro rfl
      rw [absent] at there
      cases there
  have split_lookup : ∀ key child,
      (s.spawnReceipts.put (receiptKey p attempt requestId) c).get? key = some child →
      (key = receiptKey p attempt requestId ∧ child = c) ∨
        (s.spawnReceipts.get? key = some child ∧ child ≠ c) := by
    intro key child receipt
    rw [Dictionary.get?_put] at receipt
    split at receipt
    next same =>
      cases receipt
      exact .inl ⟨same.symm, rfl⟩
    next =>
      refine .inr ⟨receipt, ?_⟩
      rintro rfl
      obtain ⟨-, _, _, _, _, kid, -, -, -, -, -, -, there, -⟩ := receipts.holds key child receipt
      rw [absent] at there
      cases there
  constructor
  · intro key child receipt
    rcases split_lookup key child receipt with ⟨rfl, rfl⟩ | ⟨old, -⟩
    · exact ⟨kind, p, attempt, requestId, parent, lane, rfl, parent_valid, request_valid, positive,
        still p parent here, le_of_eq current.symm, Dictionary.get?_put_self .., nested⟩
    · obtain ⟨kind, parentId, attempt', requestId', parent', kid, key_eq, valid, valid', positive',
        there, le, kidThere, kin⟩ := receipts.holds key child old
      exact ⟨kind, parentId, attempt', requestId', parent', kid, key_eq, valid, valid', positive',
        still _ _ there, le, still _ _ kidThere, kin⟩
  · intro key key' child receipt receipt'
    rcases split_lookup key child receipt with ⟨rfl, rfl⟩ | ⟨old, other⟩ <;>
      rcases split_lookup key' _ receipt' with ⟨rfl, same⟩ | ⟨old', other'⟩
    · rfl
    · exact absurd rfl other'
    · exact absurd same other
    · exact receipts.once key key' child old old'
  · intro k found there below
    rcases get?_enroll there with ⟨rfl, rfl⟩ | ⟨-, old⟩
    · exact ⟨_, Dictionary.get?_put_self ..⟩
    · obtain ⟨key, receipt⟩ := receipts.every k found old below
      refine ⟨key, ?_⟩
      show (s.spawnReceipts.put _ c).get? key = some k
      rw [Dictionary.get?_put_ne]
      · exact receipt
      · rintro rfl
        rw [fresh] at receipt
        cases receipt

theorem Rest.spawn {s : State} {c p requestId prompt : String} {attempt : Nat} {spec : LaneSpec}
    {parent : Lane} {key : String} (clock : ctx.time ≤ maxSafeInteger) (rest : Rest strict s)
    (kind : s.input.template.kind = .coordinator) (running : s.stopReason = none)
    (absent : s.lanes.get? c = none) (valid : isOrchestrationId c = true)
    (fresh : s.spawnReceipts.get? (receiptKey p attempt requestId) = none)
    (here : s.lanes.get? p = some parent) (current : parent.attempt = attempt)
    (positive : 1 ≤ attempt) (parent_valid : isOrchestrationId p = true)
    (request_valid : isOrchestrationId requestId = true) (spec_valid : spec.valid = true)
    (prompt_valid : lengthWithin 1 33024 prompt = true)
    (shallow : parent.depth < s.input.template.budget.maxDepth)
    (room : s.lanes.keys.length < s.input.template.budget.maxLanes)
    (key_valid : isOrchestrationId key = true) (unused : s.intents.get? key = none) :
    Inv { debt := shift (fun _ => 0) (some p) 1, strict }
      (s.enroll c { newLane ctx c spec prompt 0 (some parent) with phase := .starting }
        (s.intents.put key { id := key, effect := .start c 1 prompt spec none })
        (s.spawnReceipts.put (receiptKey p attempt requestId) c)) := by
  have named : parent.id = p := rest.id_eq p parent here
  have head := rest.head
  rw [State.headValid_iff] at head
  have budget := head.2.2.1
  simp only [Create.valid, Template.valid, Budget.valid, Bool.and_eq_true,
    decide_eq_true_eq] at budget
  have content : (newLane ctx c spec prompt 0 (some parent)).contentValid = true := by
    apply newLane_valid clock valid spec_valid prompt_valid (Nat.zero_le _)
    rintro lane ⟨rfl⟩
    refine ⟨by omega, ?_⟩
    rw [named]
    exact parent_valid
  rw [Lane.contentValid_iff] at content
  -- Nothing is pending for a lane that did not exist.
  have bare : ∀ key' entry, s.intents.get? key' = some entry → entry.effect.laneId ≠ c := by
    rintro key' entry pending rfl
    have owned := rest.owner key' entry pending
    rw [absent] at owned
    cases owned
  have kin : ({ newLane ctx c spec prompt 0 (some parent) with
      phase := .starting } : Lane).parentId = some p := by
    simp [newLane, named]
  rw [← kin]
  refine rest.enroll absent rfl running room (.inr rfl) rfl rfl ?_ ?_ ?_ ?_ ?_ ?_
  · intro p' nested
    rw [kin] at nested
    cases nested
    exact ⟨kind, parent, here, rfl⟩
  · intro top
    simp [newLane] at top
  · exact {
      content := by
        rw [Lane.contentValid_iff]
        exact content
      attempts := by
        show 1 ≤ _
        omega
      deep := shallow
      queued := fun h => by cases h
      isOver := fun h => by cases h
      checking := fun h => by cases h
      unbound := fun _ => rfl
      bound := rfl
      success := fun h => by cases h
      approved := fun h => by cases h
      stopping := fun h => by rcases h with h | h <;> cases h
      halted := fun h => by rw [running] at h; cases h }
  · exact Spares.put unused rfl
  · refine Tended.put (Tended.bare bare fun impossible => impossible.elim) unused key_valid rfl ?_ rfl
      (.inl rfl) ?_ ?_
    · have short : lengthWithin 0 33024 prompt = true := by
        simp only [lengthWithin, decide_eq_true_eq] at prompt_valid ⊢
        omega
      simp [Effect.valid, Effect.laneId, Effect.attempt, valid, spec_valid, short, isAttempt]
    · rintro ⟨key', entry, pending, own, -⟩
      exact bare key' entry pending own
    · intro type required
      cases required
      exact .inl rfl
  · exact rest.receipts.enroll_child kind absent fresh here current positive parent_valid
      request_valid kin

theorem enroll_touch {s : State} {c p : String} {first last parent counted : Lane}
    {intents : Dictionary Intent} {receipts : Dictionary String} (absent : s.lanes.get? c = none)
    (here : s.lanes.get? p = some parent) (queued : first.phase = .queued)
    (starting : last.phase = .starting) (phase : counted.phase = parent.phase) :
    ({ s with
        lanes := (s.lanes.put c first).put p counted
        open_ := s.open_ + 1, spawnReceipts := receipts } : State).touch c first last intents =
      (s.enroll c last intents receipts).touch p parent counted intents := by
  have other : c ≠ p := by
    rintro rfl
    rw [absent] at here
    cases here
  have there : ((s.lanes.put c first).get? p).isSome := by
    rw [Dictionary.get?_put_ne _ _ other, here]
    rfl
  have lanes : ((s.lanes.put c first).put p counted).put c last =
      (s.lanes.put c last).put p counted := by
    rw [Dictionary.put_comm last counted other (by simp) there, Dictionary.put_put]
  simp only [State.touch, State.recount, State.enroll, lanes, queued, starting, phase]
  have even : ∀ n : Int, n - n = 0 := Int.sub_self
  congr 1
  · rw [even]
    rfl
  · rw [even]
    rfl
  · rw [even]
    rfl
  · rw [even]
    rfl

theorem applySpawn_spec (clock : ctx.time ≤ maxSafeInteger) (rest : Rest strict w.state)
    {p requestId prompt : String} {attempt : Nat} {spec : LaneSpec}
    (valid : (Fact.spawn p attempt requestId spec prompt).valid = true) :
    Meets Ordinary (applySpawn ctx p attempt requestId spec prompt) w fun _ w' =>
      Kept strict (fun _ => False) w.state w'.state := by
  simp only [Fact.valid, Bool.and_eq_true] at valid
  obtain ⟨⟨⟨⟨parent_valid, attempt_valid⟩, request_valid⟩, spec_valid⟩, prompt_valid⟩ := valid
  simp only [isAttempt, decide_eq_true_eq] at attempt_valid
  simp only [applySpawn, meets_bind, meets_getState, meets_ite, meets_pure]
  refine ⟨fun _ => Kept.refl rest, fun new => ?_⟩
  split
  next => exact Kept.refl rest
  next parent chosen =>
    obtain ⟨here, allowed⟩ := Option.filter_eq_some_iff.mp chosen
    simp only [decide_eq_true_eq] at allowed
    obtain ⟨kind, current, open_, staying, running⟩ := allowed
    have going : terminal parent.phase = false := by simpa using open_
    rw [meets_ite]
    refine ⟨fun _ => Kept.refl rest, fun shallow => ?_⟩
    rw [meets_ite]
    refine ⟨fun _ => Kept.refl rest, fun room => ?_⟩
    have named : parent.id = p := rest.id_eq p parent here
    have was := rest.proper p parent here
    have content := was.content
    rw [Lane.contentValid_iff] at content
    obtain ⟨-, unapproved⟩ := rest.running here going staying
    have fresh : w.state.spawnReceipts.get? (receiptKey p attempt requestId) = none := by
      simpa [Dictionary.contains] using new
    rw [meets_bind]
    apply meets_addLane
    intro w₁ c c_valid absent state₁
    have other : c ≠ p := by
      rintro rfl
      rw [absent] at here
      cases here
    simp only [meets_bind, meets_changeState]
    generalize receipted : { w₁ with state := { w₁.state with
      spawnReceipts := w₁.state.spawnReceipts.put (receiptKey p attempt requestId) c } } = w₂
    -- The parent counts the child, which is still queued.
    have state₂ : w₂.state = { w.state with
        lanes := (w.state.lanes.put c (newLane ctx c spec prompt 0 (some parent))).put p
          { parent with children := parent.children + 1 }
        open_ := w.state.open_ + 1
        spawnReceipts := w.state.spawnReceipts.put (receiptKey p attempt requestId) c } := by
      have above : (w.state.lanes.put c (newLane ctx c spec prompt 0 (some parent))).get? p =
          some parent := by
        rw [Dictionary.get?_put_ne _ _ other]
        exact here
      rw [← receipted, state₁]
      simp only [Option.elim, named, Dictionary.modify_of_get? above]
    have here₂ : w₂.state.lanes.get? c = some (newLane ctx c spec prompt 0 (some parent)) := by
      rw [state₂]
      show ((w.state.lanes.put c _).put p _).get? c = _
      rw [Dictionary.get?_put_ne _ _ (Ne.symm other), Dictionary.get?_put_self]
    rw [start, meets_bind]
    apply (Edits.first here₂).changeLane rfl
    intro w₃ timed
    rw [meets_bind]
    apply timed.phase
    intro w₄ starting
    simp only [meets_bind, meets_getLane starting.lane_eq]
    apply starting.intent
    intro w₅ key key_valid unused pending
    have unused' : w.state.intents.get? key = none := by simpa [state₂] using unused
    have long : lengthWithin 1 33024 prompt = true := by
      simp only [lengthWithin, decide_eq_true_eq] at prompt_valid ⊢
      omega
    have enrolled := rest.spawn clock kind running absent c_valid fresh here current attempt_valid.1
      parent_valid request_valid spec_valid long (not_le.mp shallow) (not_le.mp room) key_valid
      unused'
    generalize joined : w.state.enroll c
      { newLane ctx c spec prompt 0 (some parent) with phase := .starting }
      (w.state.intents.put key { id := key, effect := .start c 1 prompt spec none })
      (w.state.spawnReceipts.put (receiptKey p attempt requestId) c) = s at enrolled
    have here₅ : s.lanes.get? p = some parent := by
      rw [← joined]
      show (w.state.lanes.put c _).get? p = _
      rw [Dictionary.get?_put_ne _ _ other]
      exact here
    have edits : Edits s p parent { parent with children := parent.children + 1 } s.intents w₅ := by
      refine ⟨here₅, ?_⟩
      rw [pending.state, state₂]
      refine (enroll_touch absent here ?_ ?_ ?_).trans ?_
      · rfl
      · rfl
      · rfl
      · rw [← joined]
        rfl
    have input_eq : s.input = w.state.input := by rw [← joined]; rfl
    have stop_eq : s.stopReason = w.state.stopReason := by rw [← joined]; rfl
    have tended := enrolled.tended p parent here₅
    have entered : Onward (fun _ => True) (fun _ => False) w.state s := by
      rw [← joined]
      constructor
      · rfl
      · intro k found there _
        refine .inr ⟨found, ?_, rfl⟩
        show (w.state.lanes.put c _).get? k = _
        rw [Dictionary.get?_put_ne]
        · exact there
        · rintro rfl
          rw [absent] at there
          cases there
      · intro k found there success
        rcases get?_enroll there with ⟨rfl, rfl⟩ | ⟨-, old⟩
        · cases success
        · exact .inr ⟨found, old, success⟩
      · exact id
    rw [meets_when]
    constructor
    · intro _
      rw [named, clearChecks, bind_assoc, meets_bind]
      apply edits.changeLane rfl
      intro w₆ unchecked
      rw [meets_bind]
      apply unchecked.dropIntents
      intro w₇ cleared
      apply cleared.phase
      intro w₈ joining
      rw [joining.state]
      refine ⟨?_, entered.trans (Onward.going here₅ going rfl)⟩
      refine enrolled.adopt here₅ going rfl ⟨rfl, rfl, rfl, le_refl _⟩ rfl rfl ?_
        spares_withoutChecks (fun _ _ left _ => (get?_withoutChecks.mp left).1) ?_
      · rw [input_eq, stop_eq]
        exact { was with
          content := by rw [Lane.contentValid_iff]; exact content
          queued := fun h => by cases h
          isOver := fun h => by cases h
          checking := fun h => by cases h
          unbound := fun h => by rcases h with h | h <;> cases h
          success := fun h => by cases h
          approved := fun h => by cases h
          stopping := fun h => by rcases h with h | h <;> cases h
          halted := fun h => by rw [running] at h; cases h }
      · refine tended.sub (fun _ _ left _ => (get?_withoutChecks.mp left).1) ?_ rfl
          (fun _ _ h => by cases h)
        intro key' entry left own suited
        have kept := (get?_withoutChecks.mp left).2
        cases effect : entry.effect with
        | start => exact .inr (.inr (.inr (.inr (.inr rfl))))
        | check => exact absurd ⟨own, by rw [effect]; rfl⟩ kept
        | cancel =>
          rw [effect] at suited
          exact absurd suited staying
        | merge =>
          rw [effect] at suited
          rw [suited.1] at going
          cases going
    · intro undone
      have unchecked : parent.phase ≠ .checking := fun h => undone (was.checking h).1
      have started : parent.phase ≠ .queued := fun h => (was.queued h).1 kind
      rw [edits.state]
      refine ⟨?_, entered.trans (Onward.going here₅ going going)⟩
      refine enrolled.adopt here₅ going going ⟨rfl, rfl, rfl, le_refl _⟩ rfl rfl ?_ (Spares.refl _ _)
        (fun _ _ left _ => left) ?_
      · rw [input_eq, stop_eq]
        exact { was with
          content := by rw [Lane.contentValid_iff]; exact content
          queued := fun h => absurd h started
          isOver := fun h => by
            rw [show terminal parent.phase = true from h] at going
            cases going
          checking := fun h => absurd h unchecked }
      · refine tended.keep (fun strictly => ⟨strictly, fun impossible => impossible.elim⟩) ?_ rfl
          (fun _ => id)
        intro key' entry _ _ suited
        cases effect : entry.effect <;> rw [effect] at suited
        · exact suited
        · exact absurd suited.1 unchecked
        · exact suited
        · exact suited

/-! ### The winner and its merge -/

theorem Rest.retryMerge {s : State} (rest : Rest strict s) (idle : s.mergeStatus ≠ .pending) :
    Rest strict { s with
      mergeStatus := if s.mergeStatus = .failed then .none else s.mergeStatus } := by
  have still : (if s.mergeStatus = .failed then .none else s.mergeStatus) ≠ .pending := by
    split
    · simp
    · exact idle
  exact { rest with
    receipts := rest.receipts.congr rfl rfl rfl
    merging := fun key entry pending merge => absurd (rest.merging key entry pending merge).1 idle
    promised := fun _ pending => absurd pending still
    quiet := fun _ _ pending => absurd pending still }

theorem applyPick_spec (clock : ctx.time ≤ maxSafeInteger) (rest : Rest strict w.state)
    (l : String) (merge : Bool) :
    Meets Ordinary (applyPick ctx l merge) w fun _ w' =>
      Kept strict (fun _ => False) w.state w'.state := by
  simp only [applyPick, meets_bind, meets_getState]
  split
  next => exact Kept.refl rest
  next lane chosen =>
    obtain ⟨here, allowed⟩ := Option.filter_eq_some_iff.mp chosen
    simp only [decide_eq_true_eq] at allowed
    obtain ⟨-, -, success, -, idle, -⟩ := allowed
    have named : lane.id = l := rest.id_eq l lane here
    simp only [named, meets_bind, meets_changeState, meets_emit]
    have retried := rest.retryMerge idle
    have crowned : Rest strict { w.state with
        winner := some l
        mergeStatus := if w.state.mergeStatus = .failed then .none else w.state.mergeStatus } := by
      refine retried.crown here success (.inr ?_)
      show (if w.state.mergeStatus = .failed then MergeStatus.none else w.state.mergeStatus) ≠ _
      split
      · simp
      · exact idle
    refine Meets.mono (cancelAll_spec clock (?_ : Rest strict _) .winner (some l) ?_) ?_
    · exact crowned
    · intro k same
      cases same
      exact ⟨lane, here, by rw [success]; rfl⟩
    · rintro _ w' ⟨rest', stops⟩
      refine Kept.of_subsides ?_ ?_
      · exact { rest' with
          receipts := rest'.receipts.congr rfl rfl rfl
          merging := fun key entry pending type =>
            absurd (rest'.merging key entry pending type).1 stops.unmerged
          requested := fun _ => stops.stopReason_eq }
      · refine Onward.trans ?_ (Onward.trans stops.subsides (Onward.of_lanes rfl rfl id))
        refine Onward.of_lanes rfl rfl ?_
        intro pending
        simp only at pending
        split at pending
        · cases pending
        · exact pending

theorem Rest.requestMerge {s : State} {l key : String} {lane : Lane} {artifact : Artifact}
    (rest : Rest strict s) (idle : s.open_ = 0) (requested : s.mergeRequested = true)
    (unmerged : s.mergeStatus = .none) (won : s.winner = some l)
    (here : s.lanes.get? l = some lane) (made : lane.artifact = some artifact)
    (valid : isOrchestrationId key = true) (absent : s.intents.get? key = none) :
    Rest strict { s with
      mergeStatus := .pending
      intents := s.intents.put key
        { id := key, effect := .merge l lane.attempt artifact.checkpoint } } := by
  obtain ⟨first, there, success⟩ := rest.winner l won
  rw [here] at there
  cases there
  have none_pending : ∀ key' entry, s.intents.get? key' = some entry →
      entry.effect.type ≠ .merge := by
    intro key' entry pending merge
    have status := (rest.merging key' entry pending merge).1
    rw [unmerged] at status
    cases status
  have split_lookup : ∀ key' entry, (s.intents.put key
      { id := key, effect := .merge l lane.attempt artifact.checkpoint }).get? key' = some entry →
      (key' = key ∧ entry = { id := key, effect := .merge l lane.attempt artifact.checkpoint }) ∨
        s.intents.get? key' = some entry := by
    intro key' entry pending
    rw [Dictionary.get?_put] at pending
    split at pending
    next same =>
      cases pending
      exact .inl ⟨same.symm, rfl⟩
    next => exact .inr pending
  have content := (rest.proper l lane here).content
  rw [Lane.contentValid_iff, rest.id_eq l lane here] at content
  refine { rest with
    receipts := rest.receipts.congr rfl rfl rfl
    tended := ?_
    owner := ?_
    merging := ?_
    promised := fun _ _ => ⟨l, won, key, _, Dictionary.get?_put_self .., rfl, rfl⟩
    quiet := fun _ _ _ => idle }
  · intro k found there
    by_cases same : k = l
    · subst same
      rw [here] at there
      cases there
      have bare := (rest.tended k lane here).weaken (False.elim : False → _)
      refine bare.put absent valid rfl ?_ rfl ⟨success, by simp [made]⟩ ?_ ?_
      · have short : lengthWithin 0 512 artifact.checkpoint = true := by
          have sound := content.2.2.2.2.2.2.2.2.2.2.2.2.2.1
          rw [made] at sound
          simp only [Option.all_some, Artifact.valid, Bool.and_eq_true, isRef, lengthWithin,
            decide_eq_true_eq] at sound ⊢
          omega
        simp [Effect.valid, Effect.laneId, Effect.attempt, content, short]
      · rintro ⟨key', entry, pending, -, merge⟩
        exact none_pending key' entry pending merge
      · intro type required
        simp [Lane.required, success] at required
    · exact Tended.of_spares (Spares.put absent rfl) same (rest.tended k found there)
  · intro key' entry pending
    rcases split_lookup key' entry pending with ⟨-, rfl⟩ | old
    · exact Option.isSome_iff_exists.mpr ⟨lane, here⟩
    · exact rest.owner key' entry old
  · intro key' entry pending merge
    rcases split_lookup key' entry pending with ⟨-, rfl⟩ | old
    · exact ⟨rfl, requested, won⟩
    · exact absurd merge (none_pending key' entry old)

/-- The status of the run is brought up to date; only a merge may be asked for. -/
structure Updates (s s' : State) : Prop where
  lanes_eq : s'.lanes = s.lanes
  input_eq : s'.input = s.input
  status_eq : s'.status = runStatus s'
  intents : ∀ key entry, s'.intents.get? key = some entry → entry.effect.type ≠ .merge →
    s.intents.get? key = some entry
  mergeStatus : s'.mergeStatus = s.mergeStatus ∨ s.mergeStatus = .none

theorem updateStatus_spec (rest : Rest strict w.state) :
    Meets Ordinary (updateStatus ctx) w fun _ w' =>
      Rest strict w'.state ∧ Updates w.state w'.state := by
  have updating : ∀ w' : Mutation, Rest strict w'.state → w'.state.lanes = w.state.lanes →
      w'.state.input = w.state.input →
      (∀ key entry, w'.state.intents.get? key = some entry → entry.effect.type ≠ .merge →
        w.state.intents.get? key = some entry) →
      (w'.state.mergeStatus = w.state.mergeStatus ∨ w.state.mergeStatus = .none) →
      Meets Ordinary (do
        let s ← getState
        when (runStatus s ≠ s.status) do
          changeState fun s => { s with status := runStatus s }
          emit (.status (runStatus s))) w' fun _ w'' =>
        Rest strict w''.state ∧ Updates w.state w''.state := by
    intro w' rest' lanes input intents status
    simp only [meets_bind, meets_getState, meets_when, meets_changeState, meets_emit]
    constructor
    · intro _
      exact ⟨{ rest' with receipts := rest'.receipts.congr rfl rfl rfl },
        lanes, input, rfl, intents, status⟩
    · intro same
      have current : w'.state.status = runStatus w'.state := by simpa [eq_comm] using same
      exact ⟨rest', lanes, input, current, intents, status⟩
  simp only [updateStatus, requestMerge, bind_assoc]
  rw [meets_bind, meets_getState, meets_bind, meets_when]
  constructor
  · rintro ⟨idle, requested, unmerged⟩
    split
    next lane chosen =>
      obtain ⟨l, won, here⟩ := Option.bind_eq_some_iff.mp chosen
      rw [meets_whenSome]
      constructor
      · intro artifact made
        rw [meets_bind, meets_changeState]
        apply meets_intent
        intro w' key valid absent state
        rw [rest.id_eq l lane here] at state
        apply updating w'
        · rw [state]
          exact rest.requestMerge idle requested unmerged won here made valid absent
        · rw [state]
        · rw [state]
        · intro key' entry pending type
          rw [state, Dictionary.get?_put] at pending
          split at pending
          next =>
            cases pending
            exact absurd rfl type
          next => exact pending
        · exact .inr unmerged
      · intro _
        exact updating w rest rfl rfl (fun _ _ pending _ => pending) (.inl rfl)
    next => exact updating w rest rfl rfl (fun _ _ pending _ => pending) (.inl rfl)
  · intro _
    exact updating w rest rfl rfl (fun _ _ pending _ => pending) (.inl rfl)

/-! ### Every fact -/

/-- What a fact must be like to leave every intent that something waits for. -/
structure Permitted (s : State) (fact : Fact) : Prop where
  acks : ∀ key, fact = .ack key → Spent s key
  revivals : ∀ l lane status, s.lanes.get? l = some lane →
    fact = .report l lane.attempt (.thread status) → reopens status lane.phase = true →
    s.mergeStatus = .pending → ∃ x, s.winner = some x ∧ Under s x l

/-- The fact approves the work of a lane by the check that is pending for it. -/
def Succeeds (s : State) (l : String) (fact : Fact) : Prop :=
  ∃ lane report, s.lanes.get? l = some lane ∧ fact = .report l lane.attempt report ∧
    Approves s l lane report

theorem applyFact_spec (clock : ctx.time ≤ maxSafeInteger) (rest : Rest strict w.state)
    {fact : Fact} (valid : fact.valid = true) (permitted : strict → Permitted w.state fact) :
    Meets Ordinary (applyFact ctx fact) w fun _ w' =>
      Kept strict (fun l => Succeeds w.state l fact) w.state w'.state := by
  have widen : ∀ {s s' : State}, Kept strict (fun _ => False) s s' →
      Kept strict (fun l => Succeeds w.state l fact) s s' :=
    fun kept => ⟨kept.1, kept.2.mono (fun _ => id) (fun _ => False.elim)⟩
  simp only [applyFact, meets_bind, meets_getState]
  cases fact with
  | ack key =>
    simp only [dropIntent, meets_changeState]
    have acked := rest.acknowledge fun strictly => (permitted strictly).acks key rfl
    exact ⟨acked, Onward.of_lanes rfl rfl id⟩
  | cancel =>
    simp only [meets_when]
    refine ⟨fun _ => ?_, fun _ => Kept.refl rest⟩
    apply Meets.mono (cancelAll_spec clock rest .cancelled none (fun _ h => by cases h))
    rintro _ w' ⟨rest', stops⟩
    exact Kept.of_subsides rest' stops.subsides
  | tick => exact Kept.refl rest
  | spawn =>
    apply Meets.mono (applySpawn_spec clock rest valid)
    exact fun _ _ kept => widen kept
  | pick l merge =>
    apply Meets.mono (applyPick_spec clock rest l merge)
    exact fun _ _ kept => widen kept
  | report l attempt news =>
    simp only [meets_whenSome]
    refine ⟨fun lane chosen => ?_, fun _ => Kept.refl rest⟩
    obtain ⟨here, current⟩ := Option.filter_eq_some_iff.mp chosen
    have same : lane.attempt = attempt := by simpa using current
    subst same
    simp only [Fact.valid, Bool.and_eq_true] at valid
    apply Meets.mono (applyReport_spec clock rest here news valid.2 ?_)
    · rintro _ w' ⟨rest', onward⟩
      refine ⟨rest', onward.mono (fun _ => id) ?_⟩
      rintro k ⟨rfl, approves⟩
      exact ⟨lane, news, here, rfl, approves⟩
    · rintro strictly pending status rfl reviving
      exact (permitted strictly).revivals l lane status here rfl reviving pending

theorem enforceBudget_spec (clock : ctx.time ≤ maxSafeInteger) (rest : Rest strict w.state) :
    Meets Ordinary (enforceBudget ctx) w fun _ w' => Rest strict w'.state ∧
      (w'.state = w.state ∨ overBudget w.state ctx = true ∧
        Stops .budget_exhausted w.state w'.state) := by
  simp only [enforceBudget, meets_bind, meets_getState, meets_when]
  refine ⟨?_, fun _ => ⟨rest, .inl trivial⟩⟩
  rintro ⟨_, _, isOver⟩
  apply Meets.mono (cancelAll_spec clock rest .budget_exhausted none (fun _ h => by cases h))
  rintro _ w' ⟨rest', stops⟩
  exact ⟨rest', .inr ⟨isOver, stops⟩⟩

theorem Rest.nothing_succeeds {s : State} {l : String} {fact : Fact} (rest : Rest strict s)
    (stopped : s.stopReason.isSome = true) : ¬ Succeeds s l fact := by
  rintro ⟨lane, report, here, -, _, _, _, -, -, -, checking, -⟩
  have going : terminal lane.phase = false := by rw [checking]; rfl
  rcases (rest.proper l lane here).halted stopped going with stopping | impossible
  · rw [checking] at stopping
    cases stopping
  · exact impossible

theorem meets_validateClock {Q : PUnit → Mutation → Prop}
    (next : ctx.time ≤ maxSafeInteger → Q ⟨⟩ w) : Meets Ordinary (validateClock ctx) w Q := by
  rw [validateClock, meets_refuse]
  refine ⟨fun _ => by simp [Ordinary], fun sane => next ?_⟩
  simp only [not_or, not_lt] at sane
  unfold Context.time
  omega

theorem foldFact_spec (rest : Rest strict w.state) (fact : Fact)
    (permitted : strict → ∀ s, Rest strict s →
      (s = w.state ∨ overBudget w.state ctx = true ∧ Stops .budget_exhausted w.state s) →
      Permitted s fact) :
    Meets Ordinary (foldFact ctx fact) w fun _ w' => Rest strict w'.state ∧
      w'.state.status = runStatus w'.state ∧
      ∀ l lane', w'.state.lanes.get? l = some lane' → lane'.phase = .succeeded →
        Succeeds w.state l fact ∨
          ∃ lane, w.state.lanes.get? l = some lane ∧ lane.phase = .succeeded := by
  rw [foldFact, meets_bind]
  apply meets_validateClock
  intro clock
  rw [meets_bind, meets_refuse]
  refine ⟨fun _ => trivial, fun valid => ?_⟩
  rw [meets_bind]
  apply Meets.mono (enforceBudget_spec clock rest)
  rintro _ w₁ ⟨rest₁, budget⟩
  rw [meets_bind]
  apply Meets.mono (applyFact_spec clock rest₁ (by simpa using valid)
    (fun strictly => permitted strictly w₁.state rest₁ budget))
  rintro _ w₂ ⟨rest₂, second⟩
  apply Meets.mono (updateStatus_spec rest₂)
  rintro _ w₃ ⟨rest₃, updates⟩
  refine ⟨rest₃, updates.status_eq, ?_⟩
  intro l lane' there success
  rw [updates.lanes_eq] at there
  rcases budget with same | ⟨-, stops⟩
  · rw [same] at second
    exact second.success l lane' there success
  · -- A run that was stopped approves nothing.
    rcases second.success l lane' there success with succeeds | ⟨lane, there₁, success₁⟩
    · exact absurd succeeds (rest₁.nothing_succeeds (by rw [stops.stopReason_eq]; rfl))
    · rcases stops.subsides.success l lane there₁ success₁ with impossible | before
      · exact impossible.elim
      · exact .inr before

/-! ### A new run -/

theorem pipelinePrompt_valid (stage : Nat) {prompt : String}
    (valid : lengthWithin 1 32768 prompt = true) :
    lengthWithin 1 33024 (pipelinePrompt stage prompt) = true := by
  simp only [lengthWithin, decide_eq_true_eq] at valid ⊢
  have header : utf16Length "\n\nTask:\n" = 8 := (utf16Length_ofList _).trans rfl
  have first : utf16Length
      "Implement the task. Return a checkpoint, summary and test results." ≤ 200 :=
    (utf16Length_ofList _).trans_le (by decide +kernel)
  have second : utf16Length ("Review the input checkpoint and test results. " ++
      "Return a checkpoint and a summary of issues for the fix stage.") ≤ 200 := by
    rw [utf16Length_append]
    show _ ≤ 100 + 100
    exact Nat.add_le_add ((utf16Length_ofList _).trans_le (by decide +kernel))
      ((utf16Length_ofList _).trans_le (by decide +kernel))
  have third : utf16Length ("Fix the issues in the input review artifact. " ++
      "Return a checkpoint, summary and test results.") ≤ 200 := by
    rw [utf16Length_append]
    show _ ≤ 100 + 100
    exact Nat.add_le_add ((utf16Length_ofList _).trans_le (by decide +kernel))
      ((utf16Length_ofList _).trans_le (by decide +kernel))
  unfold pipelinePrompt
  simp only [utf16Length_append (_ ++ _) prompt, utf16Length_append _ "\n\nTask:\n", header]
  split
  · omega
  · split <;> omega

theorem enroll_touch_self (s : State) (l : String) (first last : Lane)
    (before after : Dictionary Intent) (receipts : Dictionary String)
    (queued : first.phase = .queued) (starting : last.phase = .starting) :
    (s.enroll l first before receipts).touch l first last after =
      s.enroll l last after receipts := by
  simp only [State.touch, State.recount, State.enroll, Dictionary.put_put, queued, starting]
  congr 1 <;> exact Int.add_zero _

theorem Rest.root {s : State} {l prompt : String} {spec : LaneSpec} {stage : Nat} {next : LanePhase}
    {intents : Dictionary Intent} (clock : ctx.time ≤ maxSafeInteger) (rest : Rest strict s)
    (running : s.stopReason = none) (absent : s.lanes.get? l = none)
    (valid : isOrchestrationId l = true) (spec_valid : spec.valid = true)
    (prompt_valid : lengthWithin 1 33024 prompt = true) (staged : stage ≤ maxSafeInteger)
    (room : s.lanes.keys.length < s.input.template.budget.maxLanes)
    (new : (next = .queued ∧ s.input.template.kind ≠ .coordinator) ∨ next = .starting)
    (spares : Spares l s.intents intents)
    (tended : Tended strict intents l
      { newLane ctx l spec prompt stage none with phase := next }) :
    Rest strict (s.enroll l { newLane ctx l spec prompt stage none with phase := next } intents
      s.spawnReceipts) := by
  have head := rest.head
  rw [State.headValid_iff] at head
  have budget := head.2.2.1
  simp only [Create.valid, Template.valid, Budget.valid, Bool.and_eq_true,
    decide_eq_true_eq] at budget
  have content := newLane_valid clock valid spec_valid prompt_valid staged
    (fun lane (h : (none : Option Lane) = some lane) => by cases h)
  rw [Lane.contentValid_iff] at content
  have phases : next = .queued ∨ next = .starting := new.imp_left And.left
  have going : terminal next = false := by rcases phases with h | h <;> rw [h] <;> rfl
  have top : shift (fun _ => 0) ({ newLane ctx l spec prompt stage none with
      phase := next } : Lane).parentId 1 = fun _ => 0 := by
    funext k
    simp [shift, newLane]
  have enrolled : Inv { debt := shift (fun _ => 0) ({ newLane ctx l spec prompt stage none with
      phase := next } : Lane).parentId 1, strict } (s.enroll l
        { newLane ctx l spec prompt stage none with phase := next } intents s.spawnReceipts) := by
    refine rest.enroll absent rfl running room phases rfl rfl (fun p h => by cases h) (fun _ => rfl)
      ?_ spares tended ?_
    · exact {
        content := by
          rw [Lane.contentValid_iff]
          exact content
        attempts := by
          show 1 ≤ _
          omega
        deep := Nat.zero_le _
        queued := fun h => by
          rcases new with ⟨-, kind⟩ | starting
          · exact ⟨kind, rfl⟩
          · rw [show next = .queued from h] at starting
            cases starting
        isOver := fun h => by
          rw [show terminal next = true from h] at going
          cases going
        checking := fun h => by rcases phases with h' | h' <;> rw [h'] at h <;> cases h
        unbound := fun _ => rfl
        bound := rfl
        success := fun h => by rcases phases with h' | h' <;> rw [h'] at h <;> cases h
        approved := fun h => by cases h
        stopping := fun h => by
          rcases phases with h' | h' <;> rw [h'] at h <;> rcases h with h | h <;> cases h
        halted := fun h => by rw [running] at h; cases h }
    · -- Receipts are of spawned lanes only.
      constructor
      · intro key child receipt
        obtain ⟨kind, parentId, attempt, requestId, parent, kid, key_eq, valid₁, valid₂, positive,
          there, le, kidThere, kin⟩ := rest.receipts.holds key child receipt
        have still : ∀ k found, s.lanes.get? k = some found → (s.lanes.put l
            { newLane ctx l spec prompt stage none with phase := next }).get? k = some found := by
          intro k found here
          rw [Dictionary.get?_put_ne]
          · exact here
          · rintro rfl
            rw [absent] at here
            cases here
        exact ⟨kind, parentId, attempt, requestId, parent, kid, key_eq, valid₁, valid₂, positive,
          still _ _ there, le, still _ _ kidThere, kin⟩
      · exact rest.receipts.once
      · intro k found there below
        rcases get?_enroll there with ⟨rfl, rfl⟩ | ⟨-, old⟩
        · cases below
        · exact rest.receipts.every k found old below
  rw [top] at enrolled
  exact enrolled

/-- What holds while the first lanes are added. -/
structure Beginning (strict : Prop) (input : Create) (left : List (LaneSpec × Nat)) (s : State) :
    Prop where
  rest : Rest strict s
  input_eq : s.input = input
  running : s.stopReason = none
  unwaiting : s.waiting = 0
  open_eq : s.open_ = s.lanes.keys.length
  status_eq : s.status = .running
  unwon : s.winner = none ∧ s.mergeStatus = .none
  starts : ∀ key entry, s.intents.get? key = some entry → entry.effect.type = .start
  unfinished : ∀ l lane, s.lanes.get? l = some lane → terminal lane.phase = false
  total : s.lanes.keys.length + left.length = input.template.lanes.length
  specs : ∀ entry ∈ left, entry.1.valid = true ∧ entry.2 ≤ maxSafeInteger

theorem startLane_spec (clock : ctx.time ≤ maxSafeInteger) {input : Create} {spec : LaneSpec}
    {stage : Nat} {left : List (LaneSpec × Nat)}
    (beginning : Beginning strict input ((spec, stage) :: left) w.state) :
    Meets Ordinary (startLane ctx input (spec, stage)) w fun _ w' =>
      Beginning strict input left w'.state := by
  obtain ⟨spec_valid, staged⟩ := beginning.specs (spec, stage) (List.mem_cons_self ..)
  have head := beginning.rest.head
  rw [State.headValid_iff, beginning.input_eq] at head
  have valid := head.2.2.1
  simp only [Create.valid, Template.valid, Bool.and_eq_true, decide_eq_true_eq] at valid
  have total := beginning.total
  simp only [List.length_cons] at total
  have room : w.state.lanes.keys.length < w.state.input.template.budget.maxLanes := by
    rw [beginning.input_eq]
    omega
  generalize prompted : (if input.template.kind = .pipeline then pipelinePrompt stage input.prompt
    else input.prompt) = prompt
  have prompt_valid : lengthWithin 1 33024 prompt = true := by
    rw [← prompted]
    split
    · exact pipelinePrompt_valid stage valid.1.1.1.2
    · have long := valid.1.1.1.2
      simp only [lengthWithin, decide_eq_true_eq] at long ⊢
      omega
  -- Whatever phase the lane begins in, the rest of the state is as it was.
  have begun : ∀ (l : String) (phase : LanePhase) (intents : Dictionary Intent),
      w.state.lanes.get? l = none → (phase = .queued ∨ phase = .starting) →
      (∀ key entry, intents.get? key = some entry → entry.effect.type = .start) →
      Rest strict (w.state.enroll l
        { newLane ctx l spec prompt stage none with phase } intents w.state.spawnReceipts) →
      Beginning strict input left (w.state.enroll l
        { newLane ctx l spec prompt stage none with phase } intents w.state.spawnReceipts) := by
    intro l phase intents absent phases starts kept
    have length : (w.state.lanes.put l
        { newLane ctx l spec prompt stage none with phase }).keys.length =
        w.state.lanes.keys.length + 1 := Dictionary.length_keys_put _ absent
    exact {
      rest := kept
      input_eq := beginning.input_eq
      running := beginning.running
      unwaiting := beginning.unwaiting
      open_eq := by
        show w.state.open_ + 1 = ((w.state.lanes.put l _).keys.length : Int)
        rw [length, beginning.open_eq]
        rfl
      status_eq := beginning.status_eq
      unwon := beginning.unwon
      starts
      unfinished := fun k found there => by
        rcases get?_enroll there with ⟨-, rfl⟩ | ⟨-, old⟩
        · rcases phases with h | h <;> rw [h] <;> rfl
        · exact beginning.unfinished k found old
      total := by
        show (w.state.lanes.put l _).keys.length + _ = _
        rw [length]
        omega
      specs := fun entry member => beginning.specs entry (List.mem_cons_of_mem _ member) }
  simp only [startLane, prompted, meets_bind]
  apply meets_addLane
  intro w₁ l l_valid absent state₁
  simp only [Option.elim] at state₁
  have bare : ∀ key entry, w.state.intents.get? key = some entry → entry.effect.laneId ≠ l := by
    rintro key entry pending rfl
    have owned := beginning.rest.owner key entry pending
    rw [absent] at owned
    cases owned
  rw [meets_when]
  constructor
  · intro _
    have here₁ : w₁.state.lanes.get? l = some (newLane ctx l spec prompt stage none) := by
      rw [state₁]
      exact Dictionary.get?_put_self ..
    rw [start, meets_bind]
    apply (Edits.first here₁).changeLane rfl
    intro w₂ timed
    rw [meets_bind]
    apply timed.phase
    intro w₃ starting
    simp only [meets_bind, meets_getLane starting.lane_eq]
    apply starting.intent
    intro w₄ key key_valid unused pending
    have unused' : w.state.intents.get? key = none := by simpa [state₁] using unused
    have final : w₄.state = w.state.enroll l
        { newLane ctx l spec prompt stage none with phase := .starting }
        (w.state.intents.put key { id := key, effect := .start l 1 prompt spec none })
        w.state.spawnReceipts := by
      rw [pending.state, state₁]
      have joined := enroll_touch_self w.state l (newLane ctx l spec prompt stage none)
        { newLane ctx l spec prompt stage none with phase := .starting } w.state.intents
        (w.state.intents.put key { id := key, effect := .start l 1 prompt spec none })
        w.state.spawnReceipts rfl rfl
      refine Eq.trans ?_ joined
      rfl
    rw [final]
    refine begun l .starting _ absent (.inr rfl) ?_ ?_
    · intro key' entry left
      rw [Dictionary.get?_put] at left
      split at left
      next =>
        cases left
        rfl
      next => exact beginning.starts key' entry left
    · refine beginning.rest.root clock beginning.running absent l_valid spec_valid prompt_valid
        staged room (.inr rfl) (Spares.put unused' rfl) ?_
      refine Tended.put (Tended.bare bare fun impossible => impossible.elim) unused' key_valid rfl ?_
        rfl (.inl rfl) ?_ ?_
      · have short : lengthWithin 0 33024 prompt = true := by
          simp only [lengthWithin, decide_eq_true_eq] at prompt_valid ⊢
          omega
        simp [Effect.valid, Effect.laneId, Effect.attempt, l_valid, spec_valid, short, isAttempt]
      · rintro ⟨key', entry, waiting, own, -⟩
        exact bare key' entry waiting own
      · intro type required
        cases required
        exact .inl rfl
  · intro waits
    have kind : w.state.input.template.kind ≠ .coordinator := by
      rw [beginning.input_eq]
      intro coordinator
      apply waits
      rw [coordinator]
      exact .inl (by simp)
    have final : w₁.state = w.state.enroll l
        { newLane ctx l spec prompt stage none with phase := .queued } w.state.intents
        w.state.spawnReceipts := by
      rw [state₁]
      rfl
    rw [final]
    refine begun l .queued _ absent (.inl rfl) beginning.starts ?_
    refine beginning.rest.root clock beginning.running absent l_valid spec_valid prompt_valid
      staged room (.inl ⟨rfl, kind⟩) (Spares.refl _ _) (Tended.bare bare fun _ => rfl)

theorem Beginning.first {id runId : String} {input : Create} (clock : ctx.time ≤ maxSafeInteger)
    (id_valid : isOrchestrationId id = true) (runId_valid : isOrchestrationId runId = true)
    (valid : input.valid = true) :
    Beginning strict input input.template.lanes.zipIdx
      { id, runId, input, startedAt := ctx.time } := by
  have template := valid
  simp only [Create.valid, Template.valid, Budget.valid, Bool.and_eq_true,
    decide_eq_true_eq] at template
  have unused : ∀ {P : Prop} {α : Type} {k : String} {v : α},
      (Dictionary.empty : Dictionary α).get? k = some v → P :=
    fun here => by rw [Dictionary.get?_empty] at here; cases here
  constructor
  case rest =>
    constructor
    case head =>
      rw [State.headValid_iff]
      have unspent : Usage.valid {} = true := by decide +kernel
      exact ⟨id_valid, runId_valid, valid, clock, unspent, rfl, rfl⟩
    case receipts => exact ⟨fun _ _ => unused, fun _ _ _ => unused, fun _ _ => unused⟩
    case small => exact Nat.zero_le _
    case open_eq => rfl
    case waiting_eq => rfl
    case succeeded_eq => rfl
    case failed_eq => rfl
    case id_eq => exact fun _ _ => unused
    case parent => exact fun _ _ _ => unused
    case root => exact fun _ _ => unused
    case children_eq => exact fun _ _ => unused
    case failedChildren_eq => exact fun _ _ => unused
    case proper => exact fun _ _ => unused
    case tended => exact fun _ _ => unused
    case owner => exact fun _ _ => unused
    case merging => exact fun _ _ => unused
    case requested => exact fun h => by cases h
    case winner => exact fun _ h => by cases h
    case promised => exact fun _ h => by cases h
    case quiet => exact fun _ _ h => by cases h
  case input_eq => rfl
  case running => rfl
  case unwaiting => rfl
  case open_eq => rfl
  case status_eq => rfl
  case unwon => exact ⟨rfl, rfl⟩
  case starts => exact fun _ _ => unused
  case unfinished => exact fun _ _ => unused
  case total =>
    rw [List.length_zipIdx]
    exact Nat.zero_add _
  case specs =>
    rintro ⟨spec, stage⟩ member
    obtain ⟨-, short, there⟩ := List.mem_zipIdx member
    have specs := template.2.1.1.1.1.2
    rw [List.all_eq_true] at specs
    refine ⟨specs spec ?_, ?_⟩
    · rw [there]
      exact List.getElem_mem _
    · have few := template.2.1.1.1.1.1.2
      have large : 64 ≤ maxSafeInteger := by decide
      show stage ≤ _
      omega

theorem initializeRun_spec (ctx : Context) (strict : Prop) {id : String} {input : Create}
    (id_valid : isOrchestrationId id = true) (valid : input.valid = true) (drawn : Nat) :
    match initializeRun ctx id input drawn with
    | .ok m => Beginning strict input [] m.state
    | .error e => Ordinary e := by
  have run : Meets Ordinary (do
      validateClock ctx
      let runId ← nextId ctx .run
      changeState fun s => { s with runId }
      (input.template.lanes.zipIdx).forM (startLane ctx input)
      emit (.status (← getState).status))
      { state := { id, runId := "", input, startedAt := ctx.time }, drawn }
      fun _ w' => Beginning strict input [] w'.state := by
    rw [meets_bind]
    apply meets_validateClock
    intro clock
    simp only [meets_bind, nextId, meets_get, meets_set, meets_ite, meets_pure, meets_throw,
      meets_changeState]
    refine ⟨fun runId_valid => ?_, fun _ => trivial⟩
    have loop := meets_forM (startLane ctx input)
      (fun left w => Beginning strict input left w.state)
      (fun entry left w beginning => startLane_spec clock beginning)
      input.template.lanes.zipIdx
      { state := { id, runId := ctx.ids .run drawn, input, startedAt := ctx.time },
        drawn := drawn + 1 }
      (Beginning.first clock id_valid runId_valid valid)
    apply Meets.mono loop
    intro _ w' beginning
    rw [meets_getState, meets_emit]
    exact beginning
  unfold initializeRun
  dsimp only
  unfold Meets at run
  split at run
  next a w' done => rw [done]; exact run
  next e failed => rw [failed]; exact run

end

end Ace.Orchestrator
