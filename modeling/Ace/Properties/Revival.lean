import Ace.Properties.LaneOutcomes

/-!
# Taking up finished lanes

A lane that was over can turn out to be at work. `reopen` takes it up with its ancestors, and
stops all of them again in a run that stops. While it goes up the tree the lanes below are not
counted yet: the ghost of the invariant says for which parents.
-/

namespace Ace.Orchestrator

open Script Script.Command

/-- `l` is `x` or below it, and every lane from `l` up to `x` is over. -/
inductive Under (s : State) (x : String) : String → Prop where
  | self {lane : Lane} (here : s.lanes.get? x = some lane) (isOver : terminal lane.phase = true) :
      Under s x x
  | child {l p : String} {lane : Lane} (here : s.lanes.get? l = some lane)
      (isOver : terminal lane.phase = true) (nested : lane.parentId = some p) (up : Under s x p) :
      Under s x l

def Alive (s : State) (l : String) : Prop :=
  ∃ lane, s.lanes.get? l = some lane ∧ terminal lane.phase = false ∧ lane.phase ≠ .queued

/-- What `reopen` comes to. -/
structure Reopened (g : Ghost) (l : String) (s s' : State) : Prop where
  inv : Inv { g with loose := fun k => g.loose k ∨ k = l, noisy := True } s'
  onward : Onward (fun _ => True) (fun _ => False) s s'
  alive : ∀ k, Alive s k → Alive s' k
  working : Alive s' l
  stopping : s'.stopReason.isSome = true → ∀ lane, s'.lanes.get? l = some lane →
    terminal lane.phase = false → lane.phase = .cancelling
  unmerged : ∀ x, s.winner = some x → Under s x l → s'.mergeStatus ≠ .pending

theorem Inv.noisier {g : Ghost} {s : State} (inv : Inv g s) : Inv { g with noisy := True } s :=
  { inv with quiet := fun _ silent => absurd trivial silent }

/-! ### The lane itself -/

/-- The state in which a lane that is taken up is no winner. -/
def State.dethrone (s : State) (l : String) : State :=
  if s.winner = some l then { { s with mergeRequested := false }.unmerge with winner := none }
  else s

section Dethrone

variable (s : State) (l : String)

@[simp] theorem dethrone_lanes : (s.dethrone l).lanes = s.lanes := by
  unfold State.dethrone
  split <;> simp

@[simp] theorem dethrone_input : (s.dethrone l).input = s.input := by
  unfold State.dethrone
  split <;> simp

theorem dethrone_winner : (s.dethrone l).winner ≠ some l := by
  unfold State.dethrone
  split
  · exact fun h => by cases h
  · assumption

theorem dethrone_of_other {x : String} (won : s.winner = some x) (other : x ≠ l) :
    s.dethrone l = s := by
  unfold State.dethrone
  rw [if_neg]
  rw [won]
  intro same
  cases same
  exact other rfl

theorem dethrone_mergeStatus (won : s.winner = some l) : (s.dethrone l).mergeStatus ≠ .pending := by
  unfold State.dethrone
  rw [if_pos won]
  exact unmerge_mergeStatus _

theorem dethrone_mergeStatus_le (pending : (s.dethrone l).mergeStatus = .pending) :
    s.mergeStatus = .pending := by
  unfold State.dethrone at pending
  split at pending
  · exact absurd pending (unmerge_mergeStatus _)
  · exact pending

theorem dethrone_touch (lane now : Lane) :
    (s.touch l lane now s.intents).dethrone l =
      (s.dethrone l).touch l lane now (s.dethrone l).intents := by
  unfold State.dethrone
  by_cases won : s.winner = some l
  · rw [touch_winner, if_pos won, if_pos won]
    unfold State.unmerge
    by_cases pending : s.mergeStatus = .pending <;> simp [State.touch, State.recount, pending]
  · rw [touch_winner, if_neg won, if_neg won]

end Dethrone

theorem meets_revokeWinner {w : Mutation} {l : String} {Q : PUnit → Mutation → Prop} :
    Meets Ordinary (revokeWinner l) w Q ↔ Q ⟨⟩ { w with state := w.state.dethrone l } := by
  by_cases won : w.state.winner = some l <;>
    simp [revokeWinner, meets_bind, meets_getState, meets_when, meets_changeState, meets_dropMerge,
      State.dethrone, won]

theorem Inv.dethrone {g : Ghost} {s : State} (inv : Inv g s) (l : String) : Inv g (s.dethrone l) := by
  unfold State.dethrone
  split
  · obtain ⟨idle, unmerged⟩ := inv.unmerge
    have silent := unmerge_mergeStatus { s with mergeRequested := false }
    exact { idle with
      head := by
        have head := idle.head
        rw [State.headValid_iff] at head ⊢
        exact ⟨head.1, head.2.1, head.2.2.1, head.2.2.2.1, head.2.2.2.2.1, rfl, head.2.2.2.2.2.2⟩
      receipts := idle.receipts.congr rfl rfl rfl
      merging := fun key entry pending merge => absurd merge (unmerged key entry pending)
      winner := fun k won => by cases won
      promised := fun _ pending => absurd pending silent }
  · exact inv

theorem Inv.revive {g : Ghost} {s : State} {l : String} {lane : Lane} (inv : Inv g s)
    (here : s.lanes.get? l = some lane) (isOver : terminal lane.phase = true)
    (other : s.winner ≠ some l) :
    Inv { g with
        debt := shift g.debt lane.parentId 1
        stale := shift g.stale lane.parentId (isFailure lane)
        loose := fun k => g.loose k ∨ k = l, noisy := True }
      (s.touch l lane { lane with phase := .working, endedAt := none } s.intents) := by
  have was := inv.proper l lane here
  have content := was.content
  rw [Lane.contentValid_iff] at content
  -- Nothing is pending for a lane that is over and did not win.
  have bare : ∀ key entry, s.intents.get? key = some entry → entry.effect.laneId ≠ l := by
    intro key entry pending own
    have suited := ((inv.tended l lane here).suits key entry pending own).2
    cases effect : entry.effect with
    | start =>
      rw [effect] at suited
      rcases suited with h | h | h | h | h | h <;> rw [h] at isOver <;> cases isOver
    | check =>
      rw [effect] at suited
      rw [suited.1] at isOver
      cases isOver
    | cancel =>
      rw [effect] at suited
      rw [show lane.phase = .cancelling from suited] at isOver
      cases isOver
    | merge =>
      have won := (inv.merging key entry pending (by rw [effect]; rfl)).2.2
      rw [own] at won
      exact other won
  have place : SamePlace lane { lane with phase := .working, endedAt := none } :=
    ⟨rfl, rfl, rfl, le_refl _⟩
  have touched := inv.noisier.touch here place
    (fun k _ loosely => (Or.inl loosely : g.loose k ∨ k = l))
    { was with
      content := by
        rw [Lane.contentValid_iff]
        simp [content]
      queued := fun h => by cases h
      isOver := fun h => by cases h
      checking := fun h => by cases h
      unbound := fun h => by rcases h with h | h <;> cases h
      success := fun h => by cases h
      approved := fun passed => by
        right
        refine ⟨.inr rfl, rfl, ?_⟩
        rcases was.approved passed with (done | stopping | stopped | ⟨-, done⟩) | ⟨-, going, -⟩
        · exact .inl (was.success done).1
        · exact .inr (was.stopping (.inl stopping))
        · exact .inr (was.stopping (.inr stopped))
        · exact .inl done
        · rw [isOver] at going
          cases going
      stopping := fun h => by rcases h with h | h <;> cases h
      halted := fun _ _ => .inr (.inr rfl) }
    (Spares.refl _ _)
    (Tended.bare bare fun _ => rfl) (fun _ _ pending _ _ => pending)
    (fun won => absurd won other) (fun _ silent => absurd trivial silent)
  have opened : isOpen { lane with phase := .working, endedAt := none } - isOpen lane = 1 := by
    rw [isOpen, isOpen, isOver]
    rfl
  have failure : isFailure lane - isFailure { lane with phase := .working, endedAt := none } =
      isFailure lane := by
    simp [isFailure, terminal]
  simp only [Ghost.after, opened, failure, Int.sub_self, shift_zero] at touched
  exact touched

/-! ### Its parent -/

def rejoined (phase : LanePhase) : LanePhase := if phase = .cancelling then .cancelling else .joining

theorem Inv.rejoin {g : Ghost} {s : State} {l p : String} {parent : Lane} {failures : Int}
    (inv : Inv { g with
      debt := shift g.debt (some p) 1, stale := shift g.stale (some p) failures
      loose := fun k => (g.loose k ∨ k = l) ∨ k = p, noisy := True } s)
    (here : s.lanes.get? p = some parent) (going : terminal parent.phase = false)
    (stopping : s.stopReason.isSome = true → parent.phase = .cancelling) :
    Inv { g with loose := fun k => g.loose k ∨ k = l, noisy := True }
      (s.touch p parent { parent with
          children := parent.children + 1, checksPassed := none
          failedChildren := parent.failedChildren - failures, phase := rejoined parent.phase }
        (withoutChecks p s.intents)) := by
  have was := inv.proper p parent here
  have content := was.content
  rw [Lane.contentValid_iff] at content
  have calm : rejoined parent.phase = .cancelling ∧ parent.phase = .cancelling ∨
      rejoined parent.phase = .joining ∧ parent.phase ≠ .cancelling := by
    unfold rejoined
    by_cases h : parent.phase = .cancelling <;> simp [h]
  have goes : terminal (rejoined parent.phase) = false := by
    rcases calm with ⟨h, -⟩ | ⟨h, -⟩ <;> rw [h] <;> rfl
  have place : SamePlace parent { parent with
      children := parent.children + 1, checksPassed := none
      failedChildren := parent.failedChildren - failures, phase := rejoined parent.phase } :=
    ⟨rfl, rfl, rfl, le_refl _⟩
  have touched := inv.touch here place
    (fun k other loosely => (loosely.resolve_right other : g.loose k ∨ k = l))
    { was with
      content := by
        rw [Lane.contentValid_iff]
        exact content
      queued := fun h => by rcases calm with ⟨h', -⟩ | ⟨h', -⟩ <;> rw [h'] at h <;> cases h
      isOver := fun h => by
        rw [show terminal (rejoined parent.phase) = true from h] at goes
        cases goes
      checking := fun h => by rcases calm with ⟨h', -⟩ | ⟨h', -⟩ <;> rw [h'] at h <;> cases h
      unbound := fun h => by
        rcases calm with ⟨h', -⟩ | ⟨h', -⟩ <;> rw [h'] at h <;> rcases h with h | h <;> cases h
      success := fun h => by
        rw [show rejoined parent.phase = .succeeded from h] at goes
        cases goes
      approved := fun h => by cases h
      stopping := fun h => by
        rcases calm with ⟨-, h'⟩ | ⟨h', -⟩
        · exact was.stopping (.inl h')
        · rw [h'] at h
          rcases h with h | h <;> cases h
      halted := fun stopped _ => .inl (by simp [rejoined, stopping stopped]) }
    spares_withoutChecks ?_ (fun _ _ pending _ _ => (get?_withoutChecks.mp pending).1) ?_
    (fun _ silent => absurd trivial silent)
  · have opened : isOpen { parent with
        children := parent.children + 1, checksPassed := none
        failedChildren := parent.failedChildren - failures, phase := rejoined parent.phase } -
          isOpen parent = 0 := by
      simp [isOpen, goes, going]
    have failure : isFailure parent - isFailure { parent with
        children := parent.children + 1, checksPassed := none
        failedChildren := parent.failedChildren - failures, phase := rejoined parent.phase } = 0 := by
      simp [isFailure, goes, going]
    have first : parent.children - (parent.children + 1) = -1 := by omega
    have second : parent.failedChildren - failures - parent.failedChildren = -failures := by omega
    have cancel : ∀ (f : String → Int) (x : Int), shift (shift f (some p) x) (some p) (-x) = f := by
      intro f x
      funext k
      simp only [shift]
      split <;> omega
    simp only [Ghost.after, opened, failure, first, second, shift_zero, cancel] at touched
    exact touched
  · refine (inv.tended p parent here).sub (fun _ _ pending _ => (get?_withoutChecks.mp pending).1)
      ?_ rfl ?_
    · intro key entry pending own suited
      have unchecked : entry.effect.type ≠ .check := fun check =>
        (get?_withoutChecks.mp pending).2 ⟨own, check⟩
      cases effect : entry.effect with
      | start =>
        rw [effect] at suited
        rcases calm with ⟨-, h⟩ | ⟨h, -⟩
        · rcases suited with h' | h' | h' | h' | h' | h' <;> rw [h] at h' <;> cases h'
        · exact .inr (.inr (.inr (.inr (.inr h))))
      | check =>
        rw [effect] at unchecked
        exact absurd rfl unchecked
      | cancel =>
        rw [effect] at suited
        show rejoined parent.phase = .cancelling
        simp [rejoined, show parent.phase = .cancelling from suited]
      | merge =>
        rw [effect] at suited
        rw [suited.1] at going
        cases going
    · intro strictly type required
      rcases calm with ⟨h, h'⟩ | ⟨h, -⟩
      · have waiting : parent.required = some type := by
          unfold Lane.required at required ⊢
          rw [h] at required
          rw [h']
          exact required
        obtain ⟨key, entry, pending, own, typed⟩ :=
          (inv.tended p parent here).owed ⟨strictly.1, fun _ => h'⟩ type waiting
        refine ⟨key, entry, get?_withoutChecks.mpr ⟨pending, ?_⟩, own, typed⟩
        rintro ⟨-, check⟩
        rw [check] at typed
        subst typed
        simp [Lane.required, h'] at waiting
      · unfold Lane.required at required
        rw [h] at required
        cases required
  · intro won
    obtain ⟨first, there, success⟩ := inv.winner p won
    rw [here] at there
    cases there
    rw [success] at going
    cases going

section

variable {ctx : Context} {w : Mutation}

theorem rejoinParent_spec {g : Ghost} {l p : String} {parent : Lane} {unsuccessful : Bool}
    (inv : Inv { g with
      debt := shift g.debt (some p) 1, stale := shift g.stale (some p) unsuccessful.toInt
      loose := fun k => (g.loose k ∨ k = l) ∨ k = p, noisy := True } w.state)
    (here : w.state.lanes.get? p = some parent) (going : terminal parent.phase = false)
    (stopping : w.state.stopReason.isSome = true → parent.phase = .cancelling)
    {Q : PUnit → Mutation → Prop}
    (next : ∀ w', Inv { g with loose := fun k => g.loose k ∨ k = l, noisy := True } w'.state →
      (∃ now intents, w'.state = w.state.touch p parent now intents ∧
        now.phase = rejoined parent.phase) → Q ⟨⟩ w') :
    Meets Ordinary (rejoinParent p unsuccessful) w Q := by
  rw [rejoinParent, meets_bind]
  apply (Edits.first here).changeLane rfl
  intro w₁ counted
  rw [clearChecks, bind_assoc, meets_bind]
  apply counted.changeLane rfl
  intro w₂ unchecked
  rw [meets_bind]
  apply unchecked.dropIntents
  intro w₃ cleared
  -- Whether or not the failure was counted, the counter is as it should be.
  have recounted : Meets Ordinary (when (unsuccessful = true) <| changeLane p fun parent =>
      { parent with failedChildren := parent.failedChildren - 1 }) w₃ fun _ w₄ =>
      Edits w.state p parent { parent with
        children := parent.children + 1, checksPassed := none
        failedChildren := parent.failedChildren - unsuccessful.toInt }
        (withoutChecks p w.state.intents) w₄ := by
    rw [meets_when]
    constructor
    · rintro rfl
      exact cleared.changeLane rfl fun _ h => h
    · intro h
      have : unsuccessful = false := by simpa using h
      subst this
      rw [show parent.failedChildren - false.toInt = parent.failedChildren from Int.sub_zero _]
      exact cleared
  rw [meets_bind]
  apply Meets.mono recounted
  intro _ w₄ edits
  simp only [meets_bind, meets_getLane edits.lane_eq, meets_when]
  have last := inv.rejoin here going stopping
  constructor
  · intro staying
    apply edits.phase
    intro w₅ joined
    have phase : rejoined parent.phase = .joining := if_neg staying
    rw [phase] at last
    apply next
    · rw [joined.state]
      exact last
    · exact ⟨_, _, joined.state, phase.symm⟩
  · intro h
    have same : parent.phase = .cancelling := by simpa using h
    have phase : rejoined parent.phase = parent.phase := by simp [rejoined, same]
    rw [phase] at last
    apply next
    · rw [edits.state]
      exact last
    · exact ⟨_, _, edits.state, phase.symm⟩

/-! ### The whole way up -/

theorem Calms.alive {p q : LanePhase} (calm : Calms p q) (going : terminal p = false)
    (started : p ≠ .queued) : terminal q = false ∧ q ≠ .queued := by
  rcases calm with rfl | ⟨rfl, -, -⟩ | ⟨-, queued⟩
  · exact ⟨going, started⟩
  · exact ⟨rfl, by simp⟩
  · exact absurd queued started

/-- What stopping a lane that was taken up comes to. -/
structure Restopped (g : Ghost) (l : String) (s s' : State) : Prop where
  inv : Inv { g with loose := fun k => g.loose k ∨ k = l, noisy := True } s'
  subsides : Subsides s s'
  alive : ∀ k, Alive s k → Alive s' k
  stopping : s'.stopReason.isSome = true → ∀ lane, s'.lanes.get? l = some lane →
    terminal lane.phase = false → lane.phase = .cancelling

theorem stopReopened_spec (clock : ctx.time ≤ maxSafeInteger) {g : Ghost} {l : String}
    (inv : Inv { g with loose := fun k => g.loose k ∨ k = l, noisy := True } w.state)
    (alive : Alive w.state l) :
    Meets Ordinary (stopReopened ctx l) w fun _ w' => Restopped g l w.state w'.state := by
  have drops := (finish_finishes clock 0).drops
  obtain ⟨lane, here, going, started⟩ := alive
  simp only [stopReopened, meets_bind, meets_getState, meets_ite, meets_when]
  constructor
  · intro stopped
    apply Meets.mono (cancelLaneWith_spec clock drops inv here going stopped)
    rintro _ w' ⟨inv', halts⟩
    constructor
    · exact inv'.tighten fun k _ _ loosely tight => absurd loosely.1 tight
    · exact halts.subsides
    · rintro k ⟨found, there, goes, queued⟩
      obtain ⟨found', there', calm, -⟩ := halts.calms k found there
      exact ⟨found', there', calm.alive goes queued⟩
    · intro stopped' lane' there goes
      rcases (inv'.proper l lane' there).halted stopped' goes with stopping | ⟨-, impossible⟩
      · exact stopping
      · exact absurd rfl impossible
  · intro running
    constructor
    · intro _
      apply Meets.mono (cancelAllWith_spec clock drops inv .budget_exhausted none
        (fun _ h => by cases h))
      rintro _ w' ⟨inv', stops⟩
      constructor
      · exact inv'.tighten fun k _ _ impossible => impossible.elim
      · exact stops.subsides
      · rintro k ⟨found, there, goes, queued⟩
        obtain ⟨found', there', calm, -⟩ := stops.calms k found there
        exact ⟨found', there', calm.alive goes queued⟩
      · intro stopped' lane' there goes
        rcases (inv'.proper l lane' there).halted stopped' goes with stopping | impossible
        · exact stopping
        · exact impossible.elim
    · intro _
      exact ⟨inv, Onward.refl _, fun _ => id, fun stopped => absurd stopped running⟩

theorem Under.of_touch {g : Ghost} {s : State} {x l k : String} {lane now : Lane}
    {intents : Dictionary Intent} (inv : Inv g s) (under : Under s x k) {found : Lane}
    (there : s.lanes.get? k = some found) (shallower : found.depth < lane.depth)
    (here : s.lanes.get? l = some lane) : Under (s.touch l lane now intents) x k := by
  induction under generalizing found with
  | self first isOver =>
    rw [first] at there
    cases there
    have other : l ≠ x := by
      rintro rfl
      rw [here] at first
      cases first
      omega
    exact .self (by rw [touch_lanes, Dictionary.get?_put_ne _ _ other]; exact first) isOver
  | @child l' p lane' first isOver nested up ih =>
    rw [first] at there
    cases there
    have other : l ≠ l' := by
      rintro rfl
      rw [here] at first
      cases first
      omega
    obtain ⟨-, parent, above, depth⟩ := inv.parent l' lane' p first nested
    exact .child (by rw [touch_lanes, Dictionary.get?_put_ne _ _ other]; exact first) isOver nested
      (ih above (by omega))

theorem Alive.touch {s : State} {l k : String} {lane now : Lane} {intents : Dictionary Intent}
    (alive : Alive s k) (goes : terminal now.phase = false) (started : now.phase ≠ .queued) :
    Alive (s.touch l lane now intents) k := by
  obtain ⟨found, there, going, queued⟩ := alive
  by_cases same : l = k
  · subst same
    exact ⟨now, Dictionary.get?_put_self .., goes, started⟩
  · exact ⟨found, by rw [touch_lanes, Dictionary.get?_put_ne _ _ same]; exact there, going, queued⟩

theorem Reopened.refl {g : Ghost} {s : State} {l : String} {lane : Lane} (inv : Inv g s)
    (here : s.lanes.get? l = some lane)
    (deeper : ∀ k found, s.lanes.get? k = some found → g.loose k → lane.depth < found.depth)
    (going : terminal lane.phase = false) (started : lane.phase ≠ .queued) :
    Reopened g l s s where
  inv := inv.noisier.tighten fun _ _ _ loosely tight => absurd (.inl loosely) tight
  onward := Onward.refl s
  alive _ := id
  working := ⟨lane, here, going, started⟩
  stopping stopped found there goes := by
    rcases (inv.proper l found there).halted stopped goes with stopping | loosely
    · exact stopping
    · rw [here] at there
      cases there
      exact absurd (deeper l lane here loosely) (Nat.lt_irrefl _)
  unmerged x _ under := by
    cases under with
    | self first isOver =>
      rw [here] at first
      cases first
      rw [going] at isOver
      cases isOver
    | child first isOver =>
      rw [here] at first
      cases first
      rw [going] at isOver
      cases isOver

/-- The ghost while the parent of a revived lane has not taken notice. -/
def Ghost.reviving (g : Ghost) (l : String) (lane : Lane) : Ghost :=
  { g with
    debt := shift g.debt lane.parentId 1
    stale := shift g.stale lane.parentId (isFailure lane)
    loose := fun k => g.loose k ∨ k = l
    noisy := True }

/-- What taking up the parent, if there is one, comes to. -/
structure Noticed (g : Ghost) (l : String) (s s' : State) : Prop where
  inv : Inv { g with loose := fun k => g.loose k ∨ k = l, noisy := True } s'
  onward : Onward (fun _ => True) (fun _ => False) s s'
  alive : ∀ k, Alive s k → Alive s' k
  unmerged : ∀ x lane p, s.lanes.get? l = some lane → lane.parentId = some p →
    s.winner = some x → Under s x p → s'.mergeStatus ≠ .pending

theorem notice_spec {reopen : String → Reducer PUnit} {g : Ghost} {l : String} {lane now : Lane}
    (inv : Inv (g.reviving l lane) w.state) (here : w.state.lanes.get? l = some now)
    (kin : now.parentId = lane.parentId)
    (deeper : ∀ k found, w.state.lanes.get? k = some found → g.loose k → now.depth < found.depth)
    (isOver : terminal lane.phase = true)
    (opens : ∀ (g : Ghost) (w : Mutation) p parent, Inv g w.state →
      w.state.lanes.get? p = some parent → parent.depth + 1 = now.depth → parent.phase ≠ .queued →
      (∀ k found, w.state.lanes.get? k = some found → g.loose k → parent.depth < found.depth) →
      Meets Ordinary (reopen p) w fun _ w' => Reopened g p w.state w'.state) :
    Meets Ordinary (whenSome (lane.parentId.filter w.state.lanes.contains) fun parentId => do
      reopen parentId
      rejoinParent parentId (lane.phase ≠ .succeeded)) w fun _ w' =>
        Noticed g l w.state w'.state := by
  rw [meets_whenSome]
  constructor
  · intro p chosen
    have nested : lane.parentId = some p := (Option.filter_eq_some_iff.mp chosen).1
    obtain ⟨kind, parent, there, depth⟩ := inv.parent l now p here (kin.trans nested)
    have started : parent.phase ≠ .queued := fun queued =>
      absurd kind ((inv.proper p parent there).queued queued).1
    rw [meets_bind]
    refine Meets.mono (opens _ w p parent inv there depth started ?_) ?_
    · rintro k found there' (loosely | rfl)
      · have := deeper k found there' loosely
        omega
      · rw [here] at there'
        cases there'
        omega
    rintro _ w₁ up
    obtain ⟨parent₁, there₁, going₁, started₁⟩ := up.working
    have failures : isFailure lane = (decide (lane.phase ≠ .succeeded)).toInt := by
      simp [isFailure, isOver, bne, BEq.beq]
    have owed := up.inv
    simp only [Ghost.reviving, nested, failures] at owed
    apply rejoinParent_spec owed there₁ going₁ (fun stopped => up.stopping stopped _ there₁ going₁)
    rintro w₂ inv₂ ⟨last, intents, state₂, phase₂⟩
    have goes : terminal last.phase = false := by
      rw [phase₂, rejoined]
      split <;> rfl
    have joined : last.phase ≠ .queued := by
      rw [phase₂, rejoined]
      split <;> simp
    constructor
    · exact inv₂
    · apply up.onward.trans
      rw [state₂]
      exact Onward.going there₁ going₁ goes
    · intro k alive
      rw [state₂]
      exact (up.alive k alive).touch goes joined
    · intro x found p' there' nested' won under
      rw [here] at there'
      cases there'
      rw [kin, nested] at nested'
      cases nested'
      rw [state₂, touch_mergeStatus]
      exact up.unmerged x won under
  · intro missing
    have top : lane.parentId = none := by
      cases nested : lane.parentId with
      | none => rfl
      | some p =>
        obtain ⟨-, parent, there, -⟩ := inv.parent l now p here (kin.trans nested)
        rw [nested] at missing
        simp [Option.filter, Dictionary.contains, there] at missing
    have none_owed : ∀ (f : String → Int) (x : Int), shift f none x = f := by
      intro f x
      funext k
      simp [shift]
    constructor
    · have settled := inv
      simp only [Ghost.reviving, top, none_owed] at settled
      exact settled
    · exact Onward.refl _
    · exact fun _ => id
    · intro x found p there nested
      rw [here] at there
      cases there
      rw [kin, top] at nested
      cases nested

theorem reopenWithin_spec (clock : ctx.time ≤ maxSafeInteger) (fuel : Nat) (g : Ghost)
    (w : Mutation) (l : String) (lane : Lane) (inv : Inv g w.state)
    (here : w.state.lanes.get? l = some lane) (depth : lane.depth < fuel)
    (started : lane.phase ≠ .queued)
    (deeper : ∀ k found, w.state.lanes.get? k = some found → g.loose k →
      lane.depth < found.depth) :
    Meets Ordinary (reopenWithin ctx fuel l) w fun _ w' => Reopened g l w.state w'.state := by
  induction fuel generalizing g w l lane with
  | zero => omega
  | succ fuel ih =>
    simp only [reopenWithin, reopenWith, meets_bind, meets_getLane here, meets_ite, meets_pure]
    constructor
    · intro going
      exact Reopened.refl inv here deeper (by simpa using going) started
    intro h
    have isOver : terminal lane.phase = true := by simpa using h
    apply (Edits.first here).phase
    intro w₁ working
    apply working.changeLane rfl
    intro w₂ edits
    rw [meets_revokeWinner]
    simp only [meets_getState]
    -- The lane is at work and no winner; its parent does not know yet.
    have state₂ : w₂.state.dethrone l = (w.state.dethrone l).touch l lane
        { lane with phase := .working, endedAt := none } (w.state.dethrone l).intents := by
      rw [edits.state, dethrone_touch]
    have here' : (w.state.dethrone l).lanes.get? l = some lane := by simpa using here
    have revived : Inv (g.reviving l lane) (w₂.state.dethrone l) := by
      rw [state₂]
      exact (inv.dethrone l).revive here' isOver (dethrone_winner _ _)
    have onward : Onward (fun _ => True) (fun _ => False) w.state (w₂.state.dethrone l) := by
      rw [state₂]
      refine Onward.trans (Onward.of_lanes (dethrone_lanes _ l) (dethrone_input _ l)
        (dethrone_mergeStatus_le _ l)) ?_
      exact Onward.touch here' (fun _ => .inl trivial) (fun success => by cases success)
    have alive : ∀ k, Alive w.state k → Alive (w₂.state.dethrone l) k := by
      intro k lives
      rw [state₂]
      apply Alive.touch _ rfl (by simp)
      simpa [Alive] using lives
    have there : (w₂.state.dethrone l).lanes.get? l =
        some { lane with phase := .working, endedAt := none } := by
      rw [state₂]
      exact Dictionary.get?_put_self ..
    refine Meets.mono (notice_spec (w := { w₂ with state := w₂.state.dethrone l }) revived there
      rfl ?_ isOver ?_) ?_
    · intro k found there' loosely
      rw [show w₂.state.dethrone l = _ from state₂] at there'
      rcases get?_touch there' with ⟨rfl, rfl⟩ | ⟨-, old⟩
      · exact absurd (deeper k lane here loosely) (Nat.lt_irrefl _)
      · exact deeper k found (by simpa using old) loosely
    · intro g' w' p parent inv' there' depth' started' deeper'
      exact ih g' w' p parent inv' there' (by simp only at depth'; omega) started' deeper'
    · rintro _ w₃ noticed
      have living : Alive w₃.state l :=
        noticed.alive l ⟨_, there, rfl, by simp⟩
      apply Meets.mono (stopReopened_spec clock noticed.inv living)
      intro _ w₄ restopped
      constructor
      · exact restopped.inv
      · exact onward.trans (noticed.onward.trans
          (restopped.subsides.mono (fun _ => False.elim) (fun _ => id)))
      · intro k lives
        exact restopped.alive k (noticed.alive k (alive k lives))
      · exact restopped.alive l living
      · exact restopped.stopping
      · intro x won under pending
        have pending₃ := restopped.subsides.merge pending
        have pending₂ := noticed.onward.merge pending₃
        by_cases same : x = l
        · subst same
          rw [state₂, touch_mergeStatus] at pending₂
          exact dethrone_mergeStatus _ _ won pending₂
        · have plain : w.state.dethrone l = w.state := dethrone_of_other _ _ won same
          cases under with
          | self => exact same rfl
          | @child _ p _ first _ nested up =>
            rw [here] at first
            cases first
            obtain ⟨-, parent, above, deep⟩ := inv.parent l lane p here nested
            refine noticed.unmerged x _ p there nested ?_ ?_ pending₃
            · show (w₂.state.dethrone l).winner = some x
              rw [state₂, touch_winner, plain]
              exact won
            · show Under (w₂.state.dethrone l) x p
              rw [state₂, plain]
              exact up.of_touch inv above (by omega) here

theorem reopen_spec (clock : ctx.time ≤ maxSafeInteger) {strict : Prop} {l : String} {lane : Lane}
    (rest : Rest strict w.state) (here : w.state.lanes.get? l = some lane)
    (started : lane.phase ≠ .queued) :
    Meets Ordinary (reopen ctx l) w fun _ w' => Reopened { strict } l w.state w'.state := by
  rw [reopen, meets_bind, meets_getLane here]
  exact reopenWithin_spec clock _ _ w l lane rest here (Nat.lt_succ_self _) started
    (fun _ _ _ impossible => impossible.elim)

end

end Ace.Orchestrator
