import Ace.Properties.RaceFailures
import Mathlib.Logic.Relation

/-!
# A race of paths has one winner and one outcome

Transports call back while the code is calling them, so a state has the calls that have not
returned. Every step is a chain of moves, as long as no path closes, for the first time, after
another has won: the code tells of such a close as of a failure.

## Main result

`oneOutcome_of_reached`: one winner, no start after a win or a close, a failure of a route once
and before any win, and one close when every route has failed, with a revocation if one was heard.
`lateFailure_breaks` is a run in which a path that lost the race is told of as failed.
-/

namespace Ace.PathRace

variable {routes : Nat} {race race' : Race}

/-! ### What an attempt promises -/

structure OneOutcome (routes : Nat) (race : Race) : Prop where
  wonOnce : race.effects.countP Effect.isWon ≤ 1
  openedOnce : race.effects.countP Effect.isOpen ≤ 1
  wonRoute : ∀ route, Effect.won route ∈ race.effects → race.winner.bind race.routeOf = some route
  openedRoute : Effect.open ∈ race.effects → ∃ route, Effect.won route ∈ race.effects
  messages : ∀ path payload, Effect.message path payload ∈ race.effects → race.winner = some path
  othersClosed : ∀ route, Effect.won route ∈ race.effects → ∀ path < race.started.length,
    race.winner ≠ some path → Effect.closes path ∈ race.effects
  noStart : race.effects.Pairwise fun later earlier => earlier.settles → later.starts = false
  failedOnce : race.failedRoutes.Nodup
  noFailure : race.effects.Pairwise fun later earlier =>
    earlier.isWins → later.failure? = none
  closedOnce : race.winner = none → Effect.shut ∉ race.effects →
    race.effects.countP Effect.isClose ≤ 1
  closedLast : race.winner = none → ∀ effect ∈ race.effects, effect.isClose →
    ∀ route < routes, route ∈ race.failedRoutes
  closes : race.winner = none → Effect.shut ∉ race.effects → race.asked → race.calls = [] →
    (∀ route < routes, route ∈ race.failedRoutes) → race.effects.countP Effect.isClose = 1
  revoked : race.winner = none → ∀ code reason refused,
    Effect.close code reason refused ∈ race.effects →
    (∃ route cause, (route, some cause) ∈ race.failures ∧ isRevocation cause) →
    isRevocation ⟨code, reason.getD ""⟩
  refused : race.winner = none → ∀ code reason refused,
    Effect.close code reason refused ∈ race.effects → 4000 ≤ code →
    isRevocation ⟨code, reason.getD ""⟩ ∨
      ∀ failure ∈ race.failures, ∃ cause, failure.2 = some cause ∧ 4000 ≤ cause.code

/-! ### Steps as moves -/

abbrev Moves (routes : Nat) : Race → Race → Prop := Relation.ReflTransGen (Move routes)

theorem Inv.moves (inv : Inv routes race) (moves : Moves routes race race') : Inv routes race' := by
  induction moves with
  | refl => exact inv
  | tail _ move ih => exact ih.move move

/-- The last path that stands is about to fail, and no route is left. -/
def Race.lastStanding (routes : Nat) (race : Race) (path : Nat) : Prop :=
  routes ≤ race.next ∧ race.hasFailed path = false ∧
    ∀ other < race.started.length, other ≠ path → race.hasFailed other

/-- What the code does not guard against. A path that has not failed closes after another has won,
and the race is settled while a route makes its transport. -/
def Clean (routes : Nat) (race : Race) : Action → Prop
  | .pathCloses path _ _ =>
    (race.winner.isSome → race.winner = some path ∨ race.hasFailed path) ∧
      (race.making → ¬race.lastStanding routes path)
  | .pathOpens _ => race.making → race.winner.isSome ∨ race.closed
  | .close => race.making = false
  | _ => True

theorem exhausted_iff : race.exhausted routes ↔ race.winner = none ∧ race.ended routes := by
  simp [Race.exhausted, Race.ended, and_assoc]

theorem lost_moves (asked : race.asked) (idle : race.ended routes → race.making = false) :
    Moves routes race (race.lost routes) := by
  rw [Race.lost]
  split
  next ends =>
    rw [Bool.and_eq_true, Bool.not_eq_true', exhausted_iff] at ends
    obtain ⟨going, open_, ended⟩ := ends
    cases args : race.lostClose with
    | close code reason refused =>
      exact .single (.finish open_ ended (idle ended) asked (.inl going) (.inr args))
    | _ =>
      rw [Race.lostClose] at args
      split at args <;> [split at args; skip] <;> cases args
  · exact .refl

theorem start_moves (idle : race.making = false) (asked : race.asked) :
    Moves routes race (race.start routes) := by
  refine .head .disarm ?_
  simp only [Race.start]
  split
  · exact .refl
  next going =>
    simp only [Bool.or_eq_true, not_or, Bool.not_eq_true, Option.isSome_eq_false_iff,
      Option.isNone_iff_eq_none] at going
    split
    next left => exact .single (.create going.1 going.2 rfl left idle asked)
    next none_ =>
      refine .head (.skip (by simpa using none_) idle asked) ?_
      exact lost_moves asked fun _ => idle

theorem hasFailed_eq {path : Nat} {entry : Path} (found : race.started[path]? = some entry) :
    race.hasFailed path = entry.failed := by
  simp [Race.hasFailed, found]

theorem fail_moves {path code : Nat} {reason : Option String}
    (clean : Clean routes race (.pathCloses path code reason)) (other : race.winner ≠ some path) :
    Moves routes race (race.fail path code reason) := by
  obtain ⟨early, standing⟩ := clean
  rw [Race.fail]
  split
  · exact .refl
  next entry found =>
    split
    · exact .refl
    next alive =>
      rw [Bool.or_eq_true, not_or, Bool.not_eq_true] at alive
      have open_ : race.winner = none := by
        rw [← Option.not_isSome_iff_eq_none]
        intro won
        rcases early won with same | failed
        · exact other same
        · rw [hasFailed_eq found, alive.1] at failed
          exact absurd failed (by decide)
      have others : race.making → ¬Race.ended routes
          { race with started := race.started.set path { entry with failed := true } } := by
        rintro making ⟨none_, all⟩
        refine standing making ⟨none_, (hasFailed_eq found).trans alive.1, ?_⟩
        intro index known apart
        rw [hasFailed_eq (List.getElem?_eq_getElem known)]
        refine all _ (List.mem_of_getElem? (i := index) ?_)
        rw [List.getElem?_set_ne (Ne.symm apart), List.getElem?_eq_getElem known]
      have move := @Move.fails routes race path entry ⟨code, reason.getD ""⟩ open_ found alive.1
        others
      simp only
      split
      next high =>
        simp only [high, if_true] at move
        exact .single move
      next low =>
        simp only [low, if_false] at move
        exact .single move

theorem closeFrom_moves (inv : WinnerInv race) {keep : Option Nat} {index : Nat}
    {rest : List Call} (top : race.calls = .closing keep index :: rest) :
    Moves routes race ({ race with calls := rest }.closeFrom keep index) := by
  unfold Race.closeFrom
  change Moves routes race (if entryAt keep index < race.started.length then _ else _)
  split
  next left => exact .single (.closes top left)
  next done =>
    cases keep with
    | none => exact .single (.pop top rfl)
    | some path =>
      have fits : Call.Fits race (.closing (some path) index) :=
        inv.calls _ (top ▸ List.mem_cons_self)
      have known := inv.started path fits.1
      have named : race.routeOf path = some race.started[path].route := by
        simp [Race.routeOf, known]
      have move := @Move.wins routes race _ _ _ _ top (by omega) named
      change Moves routes race ({ race with calls := rest }.call
        (.won ((race.routeOf path).getD 0)) .winning)
      rw [named]
      exact .single move

theorem pathOpens_moves (inv : Inv routes race) {path : Nat} (known : path < race.started.length)
    (clean : Clean routes race (.pathOpens path)) : Moves routes race (race.pathOpens path) := by
  rw [Race.pathOpens]
  split
  next settled =>
    split
    · exact .refl
    · exact .single (.late (by simpa using settled))
  next going =>
    simp only [Bool.or_eq_true, not_or, Bool.not_eq_true, Option.isSome_eq_false_iff,
      Option.isNone_iff_eq_none] at going
    have idle : race.making = false := by
      by_contra making
      have settled := clean (by simpa using making)
      simp [going.1, going.2] at settled
    have takes := @Move.takes routes race path going.1 going.2 idle known
    exact .head takes (closeFrom_moves (inv.move takes).winner rfl)

theorem MakingInv.asked (inv : MakingInv routes race) {call : Call} {rest : List Call}
    (top : race.calls = call :: rest) (loud : call.isQuiet = false) : race.asked := by
  by_contra unasked
  have quiet := (inv.fresh (by simpa using unasked)).2.2.2 call (top ▸ List.mem_cons_self)
  exact absurd (loud.symm.trans quiet) (by decide)

theorem MakingInv.rest_idle (inv : MakingInv routes race) {call : Call} {rest : List Call}
    (top : race.calls = call :: rest) (other : call ≠ .failing) :
    rest.any Call.isCreating = false := by
  by_contra making
  exact other ((top ▸ inv.nested : Nested (call :: rest)).1 (by simpa using making))

theorem resume_moves (inv : Inv routes race) {call : Call} {rest : List Call}
    (top : race.calls = call :: rest) :
    Moves routes race ({ race with calls := rest }.resume routes call) := by
  cases call with
  | creating route => exact .single (.enter top)
  | failingCreation =>
    exact .head (.pop top rfl)
      (start_moves (inv.making.rest_idle top (by decide)) (inv.making.asked top rfl))
  | opening =>
    refine .head (.pop top rfl) ?_
    simp only [Race.resume]
    split
    next left =>
      simp only [Bool.and_eq_true, Option.isNone_iff_eq_none, decide_eq_true_eq] at left
      exact .single (.arm left.1 left.2 (inv.making.rest_idle top (by decide))
        (inv.making.asked top rfl))
    · exact .refl
  | closing keep next => exact closeFrom_moves inv.winner top
  | winning => exact .single (.opens top)
  | failing =>
    refine .head (.pop top rfl) ?_
    simp only [Race.resume]
    split
    next on =>
      rw [Bool.and_eq_true] at on
      refine start_moves ?_ (inv.making.asked top rfl)
      by_contra making
      have idle := (inv.making.facts (by
        rw [Race.making, top]
        simpa [Race.making, Call.isCreating] using making)).2.2.1
      exact absurd (idle.symm.trans on.2) (by decide)
    · refine lost_moves (inv.making.asked top rfl) fun ended => ?_
      by_contra making
      exact inv.making.held _ _ top (by simpa [Race.making] using making) ended
  | last => exact .single (.pop top rfl)

theorem step_moves (inv : Inv routes race) {action : Action} (clean : Clean routes race action)
    (steps : step routes race action = some race') : Moves routes race race' := by
  cases action with
  | «open» =>
    simp only [step] at steps
    split at steps
    · cases steps
    next unasked =>
      cases steps
      have fresh : race.asked = false := by simpa using unasked
      obtain ⟨none_, open_, shut, quiet⟩ := inv.making.fresh fresh
      have idle : race.making = false := by
        rw [Race.making, List.any_eq_false]
        intro call member creating
        have isQuiet := quiet call member
        cases call <;> simp [Call.isCreating, Call.isQuiet] at creating isQuiet
      refine .head (.ask fresh) ?_
      simp only [Race.openAll]
      split
      next empty =>
        have ended : Race.ended routes { race with asked := true } :=
          ⟨by omega, by simp [none_]⟩
        -- Nothing but the connection's own call closes an attempt that was not opened.
        have going : race.closed = false ∨ .shut ∈ race.effects := by
          cases closed : race.closed with
          | false => exact .inl rfl
          | true => exact .inr (shut closed)
        exact .single (.finish open_ ended idle rfl going (.inl ⟨empty, rfl⟩))
      · exact start_moves idle rfl
  | close =>
    simp only [step, Option.some.injEq] at steps
    have shut := @Move.shut routes race clean
    exact steps ▸ .head shut (closeFrom_moves (inv.move shut).winner rfl)
  | fires =>
    simp only [step] at steps
    split at steps
    next on =>
      cases steps
      have idle : race.making = false := by
        by_contra making
        exact absurd ((inv.making.facts (by simpa using making)).2.2.1.symm.trans on) (by decide)
      exact start_moves idle (inv.making.armed on).2
    · cases steps
  | pathOpens path =>
    simp only [step] at steps
    split at steps
    next known =>
      cases steps
      exact pathOpens_moves inv known clean
    · cases steps
  | pathSays path payload =>
    simp only [step] at steps
    split at steps
    · cases steps
      rw [Race.pathSays]
      split
      next from_ => exact .single (.heard from_)
      · exact .refl
    · cases steps
  | pathCloses path code reason =>
    simp only [step] at steps
    split at steps
    · cases steps
      rw [Race.pathCloses]
      split
      next from_ => exact .single (.forwards from_)
      next other => exact fail_moves clean other
    · cases steps
  | returns =>
    simp only [step] at steps
    split at steps
    · cases steps
    next top =>
      cases steps
      exact resume_moves inv top
  | throws =>
    simp only [step] at steps
    split at steps
    next top =>
      cases steps
      exact .single (.creationFails top)
    · cases steps

/-! ### The end comes -/

/-- A call after which the attempt looks whether it is over, or starts another route. -/
def Call.goesOn : Call → Bool
  | .creating _ | .failingCreation | .failing => true
  | _ => false

/-- An attempt that is over and was not closed is about to be. -/
def Waits (routes : Nat) (race : Race) : Prop :=
  race.winner = none → race.closed = false → race.asked → race.ended routes →
    ∃ call ∈ race.calls, call.goesOn

theorem waits_lost : Waits routes (race.lost routes) := by
  rw [Race.lost]
  split
  · exact fun _ closed => by simp at closed
  next goesOn =>
    intro open_ going _ ended
    rw [Bool.and_eq_true, Bool.not_eq_true', exhausted_iff] at goesOn
    exact absurd ⟨going, open_, ended⟩ goesOn

theorem waits_start : Waits routes (race.start routes) := by
  simp only [Race.start]
  split
  next settled =>
    intro open_ going
    simp only [Bool.or_eq_true, Option.isSome_iff_exists] at settled
    simp only at open_ going
    simp [open_, going] at settled
  · split
    · exact fun _ _ _ _ => ⟨_, List.mem_cons_self, rfl⟩
    · exact waits_lost

theorem Waits.call (waits : Waits routes race) {effect : Effect} {call : Call} :
    Waits routes (race.call effect call) := by
  intro open_ going asked ended
  obtain ⟨found, member, goesOn⟩ := waits open_ going asked ended
  exact ⟨found, List.mem_cons_of_mem _ member, goesOn⟩

theorem Waits.fail (waits : Waits routes race) {path code : Nat} {reason : Option String} :
    Waits routes (race.fail path code reason) := by
  rw [Race.fail]
  split
  · exact waits
  · split
    · exact waits
    · exact fun _ _ _ _ => ⟨_, List.mem_cons_self, rfl⟩

theorem Waits.closeFrom (waits : Waits routes race) {keep : Option Nat} {index : Nat} :
    Waits routes (race.closeFrom keep index) := by
  unfold Race.closeFrom
  change Waits routes (if entryAt keep index < race.started.length then _ else _)
  split
  · exact waits.call
  · split
    · exact waits
    · exact waits.call

theorem Waits.drop (waits : Waits routes race) {call : Call} {rest : List Call}
    (top : race.calls = call :: rest) (plain : call.goesOn = false) :
    Waits routes { race with calls := rest } := by
  intro open_ going asked ended
  obtain ⟨found, member, goesOn⟩ := waits open_ going asked ended
  rcases List.mem_cons.mp (top ▸ member) with rfl | below
  · exact absurd (plain.symm.trans goesOn) (by decide)
  · exact ⟨found, below, goesOn⟩

theorem Waits.resume (waits : Waits routes race) {call : Call} {rest : List Call}
    (top : race.calls = call :: rest) :
    Waits routes ({ race with calls := rest }.resume routes call) := by
  cases call with
  | creating route =>
    -- The new path has not failed.
    intro _ _ _ ended
    have failed := ended.2 ⟨route, false⟩ (by simp [Race.resume])
    cases failed
  | failingCreation => exact waits_start
  | opening =>
    have below := waits.drop top rfl
    simp only [Race.resume]
    split
    · exact below
    · exact below
  | closing keep next => exact (waits.drop top rfl).closeFrom
  | winning => exact (waits.drop top rfl).call
  | failing =>
    simp only [Race.resume]
    split
    · exact waits_start
    · exact waits_lost
  | last => exact waits.drop top rfl

theorem Waits.step (waits : Waits routes race) {action : Action}
    (steps : step routes race action = some race') : Waits routes race' := by
  cases action with
  | «open» =>
    simp only [PathRace.step] at steps
    split at steps
    · cases steps
    · cases steps
      simp only [Race.openAll]
      split
      · exact fun _ closed => by simp at closed
      · exact waits_start
  | close =>
    simp only [PathRace.step, Option.some.injEq] at steps
    subst steps
    apply Waits.closeFrom
    exact fun _ closed => by simp at closed
  | fires =>
    simp only [PathRace.step] at steps
    split at steps
    · cases steps
      exact waits_start
    · cases steps
  | pathOpens path =>
    simp only [PathRace.step] at steps
    split at steps
    · cases steps
      rw [Race.pathOpens]
      split
      · split
        · exact waits
        · exact waits.call
      · exact Waits.closeFrom fun open_ => by simp at open_
    · cases steps
  | pathSays path payload =>
    simp only [PathRace.step] at steps
    split at steps
    · cases steps
      rw [Race.pathSays]
      split
      · exact waits.call
      · exact waits
    · cases steps
  | pathCloses path code reason =>
    simp only [PathRace.step] at steps
    split at steps
    · cases steps
      rw [Race.pathCloses]
      split
      · exact waits.call
      · exact waits.fail
    · cases steps
  | returns =>
    simp only [PathRace.step] at steps
    split at steps
    · cases steps
    next top =>
      cases steps
      exact waits.resume top
  | throws =>
    simp only [PathRace.step] at steps
    split at steps
    · cases steps
      exact fun _ _ _ _ => ⟨_, List.mem_cons_self, rfl⟩
    · cases steps

/-! ### Every run -/

/-- What a run reaches whose steps are all clean. -/
inductive Reached (routes : Nat) : Race → Prop where
  | start : Reached routes {}
  | step {race race' : Race} {action : Action} (before : Reached routes race)
      (clean : Clean routes race action) (steps : step routes race action = some race') :
      Reached routes race'

theorem Reached.inv (reached : Reached routes race) : Inv routes race := by
  induction reached with
  | start => exact .start
  | step _ clean steps ih => exact ih.moves (step_moves ih clean steps)

theorem Reached.waits (reached : Reached routes race) : Waits routes race := by
  induction reached with
  | start => exact fun _ _ asked => by cases asked
  | step _ _ steps ih => exact ih.step steps

theorem FailureInv.all_failed (inv : FailureInv routes race) (ended : race.ended routes)
    (idle : race.making = false) : ∀ route < routes, route ∈ race.failedRoutes := by
  intro route known
  rcases inv.covered route (Nat.lt_of_lt_of_le known ended.1) known with told | started | creating
  · exact told
  · obtain ⟨path, listed, rfl⟩ := started
    exact inv.told path listed (ended.2 path listed)
  · exact absurd creating (not_mem_of_idle idle route)

theorem FailureInv.ended (inv : FailureInv routes race)
    (all : ∀ route < routes, route ∈ race.failedRoutes) : race.ended routes := by
  constructor
  · by_contra more
    have early := (inv.known race.next (all race.next (by omega))).1
    omega
  · intro path listed
    have known := inv.placed path listed
    exact (inv.known path.route (all _ known.2.1)).2.2.2 path listed rfl

theorem Inv.oneOutcome (inv : Inv routes race) (waits : Waits routes race) :
    OneOutcome routes race := by
  have idleOf : race.closed → race.making = false := by
    intro closed
    by_contra making
    have going := (inv.making.facts (by simpa using making)).2.1
    exact absurd (going.symm.trans closed) (by decide)
  have bit : ∀ b : Bool, b.toNat ≤ 1 := by decide
  have won := inv.winner.won
  have opened := inv.winner.opened
  have most := bit race.winner.isSome
  constructor
  case wonOnce => omega
  case openedOnce => omega
  case wonRoute => exact fun route told => (inv.winner.effects _ told).1
  case openedRoute => exact fun told => inv.winner.effects _ told
  case messages => exact fun path payload told => inv.winner.effects _ told
  case othersClosed => exact fun route told => (inv.winner.effects _ told).2
  case noStart => exact inv.settled.noStart
  case failedOnce => exact inv.failure.once
  case noFailure => exact inv.settled.noFailure
  case closedOnce =>
    intro open_ notShut
    rw [inv.ended.count open_ notShut]
    exact bit _
  case closedLast =>
    intro open_ effect member isClose
    obtain ⟨closed, ended⟩ := inv.ended.ended open_ effect member isClose
    exact inv.failure.all_failed ended (idleOf closed)
  case closes =>
    intro open_ notShut asked quiet all
    rw [inv.ended.count open_ notShut]
    by_contra going
    obtain ⟨call, member, -⟩ := waits open_ (by simpa using going) asked (inv.failure.ended all)
    simp [quiet] at member
  case revoked =>
    intro open_ code reason refused told heard
    obtain ⟨route, cause, failed, revocation⟩ := heard
    obtain ⟨held, known, revoked⟩ := inv.refusal.revoked route cause failed revocation
    rcases inv.ended.args open_ code reason refused told with ⟨empty, -⟩ | args
    · have known := (inv.failure.known route (List.mem_map.mpr ⟨_, failed, rfl⟩)).2.1
      omega
    · simp only [Race.lostClose, known, revoked, Bool.or_true, if_true] at args
      cases args
      exact revoked
  case refused =>
    intro open_ code reason refused told high
    rcases inv.ended.args open_ code reason refused told with ⟨-, low⟩ | args
    · omega
    · rw [Race.lostClose] at args
      split at args
      · split at args
        next bare =>
          cases args
          rcases Bool.or_eq_true .. |>.mp bare with notDropped | revocation
          · exact .inr (inv.refusal.dropped (by simpa using notDropped))
          · exact .inl revocation
        · cases args
          omega
      · cases args
        omega

/-- In a run whose steps are all clean the race has one winner and one outcome. -/
theorem oneOutcome_of_reached (reached : Reached routes race) : OneOutcome routes race :=
  reached.inv.oneOutcome reached.waits

instance {action : Action} : Decidable (Clean routes race action) :=
  match action with
  | .pathCloses path _ _ => inferInstanceAs (Decidable
    ((race.winner.isSome → race.winner = some path ∨ race.hasFailed path) ∧
      (race.making → ¬(routes ≤ race.next ∧ race.hasFailed path = false ∧
        ∀ other < race.started.length, other ≠ path → race.hasFailed other))))
  | .pathOpens _ => inferInstanceAs (Decidable (race.making → race.winner.isSome ∨ race.closed))
  | .close => inferInstanceAs (Decidable (race.making = false))
  | .open | .fires | .pathSays _ _ | .returns | .throws => isTrue trivial

/-- A run that stops where a step is not clean. -/
def cleanRun (routes : Nat) (actions : List Action) : Option Race :=
  actions.foldlM
    (fun race action => if Clean routes race action then step routes race action else none) {}

theorem reached_of_foldlM {actions : List Action} (before : Reached routes race)
    (runs : actions.foldlM (fun race action =>
      if Clean routes race action then step routes race action else none) race = some race') :
    Reached routes race' := by
  induction actions generalizing race with
  | nil =>
    cases runs
    exact before
  | cons action actions ih =>
    rw [List.foldlM_cons, Option.bind_eq_bind, Option.bind_eq_some_iff] at runs
    obtain ⟨next, taken, rest⟩ := runs
    split at taken
    next clean => exact ih (before.step clean taken) rest
    · cases taken

theorem reached_of_cleanRun {actions : List Action} (runs : cleanRun routes actions = some race) :
    Reached routes race := reached_of_foldlM .start runs

/-- The first path drops, and the second, started at once, wins. -/
def secondPath : List Action :=
  [.open, .returns, .returns, .pathCloses 0 1006 none, .returns, .returns, .returns, .pathOpens 1,
    .returns, .returns]

theorem oneOutcome_second_path :
    ∃ race, cleanRun 2 secondPath = some race ∧ race.winner = some 1 ∧ OneOutcome 2 race :=
  ⟨_, rfl, rfl, oneOutcome_of_reached (@reached_of_cleanRun _ _ secondPath rfl)⟩

/-- Two paths, of which the first opens and the second is closed for it. The second's close is
told of as a failure, after the win. -/
def lateFailure : List Action :=
  [.open, .returns, .returns, .fires, .returns, .returns, .pathOpens 0, .returns, .returns,
    .returns, .pathCloses 1 1006 none]

theorem lateFailure_breaks :
    ∃ race, run 2 lateFailure = some race ∧ ¬OneOutcome 2 race := by
  refine ⟨_, rfl, fun outcome => ?_⟩
  have ordered := outcome.noFailure
  revert ordered
  decide

end Ace.PathRace
