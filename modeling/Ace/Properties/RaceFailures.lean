import Ace.Properties.RaceMoves

/-!
# Failures, refusals and the end of a race

Every route fails at most once and is accounted for, the refusal that is kept is one that a path
was heard to give, and the attempt ends itself only when every route has failed.
-/

namespace Ace.PathRace

open Race (call_next call_started call_effects call_calls)

variable {routes : Nat} {race race' : Race}

/-! ### Nothing starts once the race is settled -/

structure SettledInv (race : Race) : Prop where
  settled : ∀ effect ∈ race.effects, effect.settles → race.winner.isSome ∨ race.closed
  noStart : race.effects.Pairwise fun later earlier => earlier.settles → later.starts = false
  noFailure : race.effects.Pairwise fun later earlier => earlier.isWins → later.failure? = none

theorem SettledInv.cons (inv : SettledInv race) {effect : Effect}
    (effects : race'.effects = effect :: race.effects)
    (winner : race.winner.isSome → race'.winner.isSome) (closed : race.closed → race'.closed)
    (settles : effect.settles → race'.winner.isSome ∨ race'.closed)
    (starts : effect.starts → race.winner = none ∧ race.closed = false)
    (fails : effect.failure?.isSome → ∀ other ∈ race.effects, other.isWins = false) :
    SettledInv race' := by
  constructor
  case settled =>
    rw [effects]
    intro other member settling
    rcases List.mem_cons.mp member with rfl | before
    · exact settles settling
    · exact (inv.settled other before settling).imp winner closed
  case noStart =>
    rw [effects, List.pairwise_cons]
    refine ⟨fun other before settling => ?_, inv.noStart⟩
    by_contra starting
    obtain ⟨open_, going⟩ := starts (by simpa using starting)
    simpa [open_, going] using inv.settled other before settling
  case noFailure =>
    rw [effects, List.pairwise_cons]
    refine ⟨fun other before wins => ?_, inv.noFailure⟩
    by_contra failing
    have plain := fails (Option.isSome_iff_ne_none.mpr failing) other before
    exact absurd (plain.symm.trans wins) (by decide)

theorem SettledInv.congr (inv : SettledInv race) (effects : race'.effects = race.effects)
    (winner : race'.winner = race.winner) (closed : race'.closed = race.closed) :
    SettledInv race' where
  settled := by simpa only [effects, winner, closed] using inv.settled
  noStart := effects ▸ inv.noStart
  noFailure := effects ▸ inv.noFailure

theorem WinnerInv.no_wins (inv : WinnerInv race) (open_ : race.winner = none) :
    ∀ effect ∈ race.effects, effect.isWins = false := by
  intro effect member
  have aside := (inv.aside open_).1 effect member
  cases effect with
  | wins path => simp [Effect.isAside] at aside
  | _ => rfl

theorem SettledInv.move (inv : SettledInv race) (winnerInv : WinnerInv race)
    (makingInv : MakingInv routes race) (move : Move routes race race') : SettledInv race' := by
  cases move with
  | ask | disarm | arm | skip | pop => exact inv.congr rfl rfl rfl
  | create open_ going =>
    refine inv.cons rfl ?_ ?_ ?_ (fun _ => ⟨open_, going⟩) ?_ <;>
      simp [Effect.settles, Effect.failure?]
  | enter top =>
    obtain ⟨open_, going, -⟩ := makingInv.facts (Race.making_of_top top)
    refine inv.cons rfl ?_ ?_ ?_ (fun _ => ⟨open_, going⟩) ?_ <;>
      simp [Effect.settles, Effect.failure?]
  | creationFails top =>
    obtain ⟨open_, -⟩ := makingInv.facts (Race.making_of_top top)
    refine inv.cons rfl ?_ ?_ ?_ ?_ (fun _ => winnerInv.no_wins open_) <;>
      simp [Effect.settles, Effect.starts]
  | fails open_ =>
    refine inv.cons rfl ?_ ?_ ?_ ?_ (fun _ => winnerInv.no_wins open_) <;>
      simp [Effect.settles, Effect.starts]
  | forwards from_ =>
    refine inv.cons rfl ?_ ?_ ?_ ?_ ?_ <;> simp [from_, Effect.starts, Effect.failure?]
  | finish | takes | shut | closes | wins | opens | heard | late =>
    refine inv.cons rfl ?_ ?_ ?_ ?_ ?_ <;>
      simp [Effect.settles, Effect.starts, Effect.failure?]

/-! ### Failures -/

structure FailureInv (routes : Nat) (race : Race) : Prop where
  placed : ∀ path ∈ race.started, path.route < race.next ∧ path.route < routes ∧
    .creating path.route ∉ race.calls
  distinct : (race.started.map (·.route)).Nodup
  once : race.failedRoutes.Nodup
  known : ∀ route ∈ race.failedRoutes, route < race.next ∧ route < routes ∧
    .creating route ∉ race.calls ∧ ∀ path ∈ race.started, path.route = route → path.failed
  told : ∀ path ∈ race.started, path.failed → path.route ∈ race.failedRoutes
  covered : ∀ route < race.next, route < routes → route ∈ race.failedRoutes ∨
    (∃ path ∈ race.started, path.route = route) ∨ .creating route ∈ race.calls

theorem failedRoutes_cons {effect : Effect} (effects : race'.effects = effect :: race.effects)
    (other : effect.failure? = none) : race'.failedRoutes = race.failedRoutes := by
  rw [Race.failedRoutes, Race.failures, effects, List.filterMap_cons_none other]
  rfl

theorem failedRoutes_failed {route : Nat} {cause : Option Refusal}
    (effects : race'.effects = .failed route cause :: race.effects) :
    race'.failedRoutes = route :: race.failedRoutes := by
  rw [Race.failedRoutes, Race.failures, effects]
  rfl

theorem FailureInv.congr (inv : FailureInv routes race) (next : race'.next = race.next)
    (started : race'.started = race.started) (failed : race'.failedRoutes = race.failedRoutes)
    (calls : ∀ route, .creating route ∈ race'.calls ↔ .creating route ∈ race.calls) :
    FailureInv routes race' := by
  constructor
  case placed => simpa only [next, started, calls] using inv.placed
  case distinct => simpa only [started] using inv.distinct
  case once => simpa only [failed] using inv.once
  case known => simpa only [next, started, failed, calls] using inv.known
  case told => simpa only [started, failed] using inv.told
  case covered => simpa only [next, started, failed, calls] using inv.covered

theorem FailureInv.create (inv : FailureInv routes race) (idle : race.making = false)
    (left : race.next < routes) : FailureInv routes
      ({ race with next := race.next + 1 }.call (.creates race.next) (.creating race.next)) := by
  have none_ := not_mem_of_idle idle
  have failed : ({ race with next := race.next + 1 }.call (.creates race.next)
      (.creating race.next)).failedRoutes = race.failedRoutes := failedRoutes_cons rfl rfl
  constructor
  case placed =>
    intro path member
    obtain ⟨before, known, -⟩ := inv.placed path member
    refine ⟨Nat.lt_succ_of_lt before, known, fun making => ?_⟩
    rcases List.mem_cons.mp making with same | other
    · have same := Call.creating.inj same
      omega
    · exact none_ _ other
  case distinct => exact inv.distinct
  case once => exact failed ▸ inv.once
  case known =>
    rw [failed]
    intro route member
    obtain ⟨before, known, -, all⟩ := inv.known route member
    refine ⟨Nat.lt_succ_of_lt before, known, fun making => ?_, all⟩
    rcases List.mem_cons.mp making with same | other
    · have same := Call.creating.inj same
      omega
    · exact none_ _ other
  case told => exact failed ▸ inv.told
  case covered =>
    rw [failed]
    intro route before known
    rcases Nat.lt_succ_iff_lt_or_eq.mp before with earlier | rfl
    · rcases inv.covered route earlier known with told | path | making
      · exact .inl told
      · exact .inr (.inl path)
      · exact absurd making (none_ route)
    · exact .inr (.inr List.mem_cons_self)

theorem FailureInv.enter (inv : FailureInv routes race) (makingInv : MakingInv routes race)
    {route : Nat} {rest : List Call} (top : race.calls = .creating route :: rest) :
    FailureInv routes
      ({ race with calls := rest, started := race.started ++ [({ route, failed := false } : Path)] }.call
        (.opens race.started.length) .opening) := by
  have making : .creating route ∈ race.calls := top ▸ List.mem_cons_self
  obtain ⟨-, -, -, last, left⟩ := makingInv.making route making
  have rest_ : ∀ other, .creating other ∉ rest := by
    intro other member
    have same := (top ▸ makingInv.nested : Nested (.creating route :: rest)).1
      (List.any_eq_true.mpr ⟨_, member, rfl⟩)
    cases same
  have calls : ∀ other, Call.creating other ∉ Call.opening :: rest := by
    intro other member
    rcases List.mem_cons.mp member with same | before
    · cases same
    · exact rest_ other before
  have failed : ({ race with calls := rest, started := race.started ++
      [({ route, failed := false } : Path)] }.call (.opens race.started.length)
        .opening).failedRoutes = race.failedRoutes := failedRoutes_cons rfl rfl
  have apart : ∀ path ∈ race.started, path.route ≠ route := by
    rintro path member rfl
    exact (inv.placed path member).2.2 making
  constructor
  case placed =>
    intro path member
    rcases List.mem_append.mp member with before | new
    · obtain ⟨early, known, -⟩ := inv.placed path before
      exact ⟨early, known, calls _⟩
    · cases List.mem_singleton.mp new
      exact ⟨by simp only [call_next]; omega, left, calls _⟩
  case distinct =>
    simp only [call_started, List.map_append, List.nodup_append]
    refine ⟨inv.distinct, by simp, ?_⟩
    rintro _ member _ new rfl
    obtain ⟨path, before, same⟩ := List.mem_map.mp member
    rw [List.map_singleton, List.mem_singleton] at new
    exact apart path before (same.trans new)
  case once => exact failed ▸ inv.once
  case known =>
    rw [failed]
    intro other member
    obtain ⟨before, known, notMaking, all⟩ := inv.known other member
    refine ⟨before, known, calls other, fun path listed same => ?_⟩
    rcases List.mem_append.mp listed with earlier | new
    · exact all path earlier same
    · cases List.mem_singleton.mp new
      exact absurd (same ▸ making) notMaking
  case told =>
    rw [failed]
    intro path listed isFailed
    rcases List.mem_append.mp listed with earlier | new
    · exact inv.told path earlier isFailed
    · cases List.mem_singleton.mp new
      cases isFailed
  case covered =>
    rw [failed]
    intro other before known
    rcases inv.covered other before known with told | path | creating
    · exact .inl told
    · obtain ⟨path, listed, same⟩ := path
      exact .inr (.inl ⟨path, List.mem_append_left _ listed, same⟩)
    · rcases List.mem_cons.mp (top ▸ creating) with same | below
      · exact .inr (.inl ⟨_, List.mem_append_right _ List.mem_cons_self, (Call.creating.inj same).symm⟩)
      · exact absurd below (rest_ other)

theorem FailureInv.creationFails (inv : FailureInv routes race)
    (makingInv : MakingInv routes race) {route : Nat} {rest : List Call}
    (top : race.calls = .creating route :: rest) :
    FailureInv routes ({ race with calls := rest, dropped := true }.call (.failed route none)
      .failingCreation) := by
  have making : .creating route ∈ race.calls := top ▸ List.mem_cons_self
  obtain ⟨-, -, -, last, left⟩ := makingInv.making route making
  have calls : ∀ other, Call.creating other ∉ Call.failingCreation :: rest := by
    intro other member
    rcases List.mem_cons.mp member with same | before
    · cases same
    · have same := (top ▸ makingInv.nested : Nested (.creating route :: rest)).1
        (List.any_eq_true.mpr ⟨_, before, rfl⟩)
      cases same
  have failed : ({ race with calls := rest, dropped := true }.call (.failed route none)
      .failingCreation).failedRoutes = route :: race.failedRoutes := failedRoutes_failed rfl
  have apart : ∀ path ∈ race.started, path.route ≠ route := by
    rintro path member rfl
    exact (inv.placed path member).2.2 making
  constructor
  case placed =>
    intro path member
    obtain ⟨early, known, -⟩ := inv.placed path member
    exact ⟨early, known, calls _⟩
  case distinct => exact inv.distinct
  case once =>
    rw [failed, List.nodup_cons]
    exact ⟨fun member => (inv.known route member).2.2.1 making, inv.once⟩
  case known =>
    rw [failed]
    intro other member
    rcases List.mem_cons.mp member with rfl | before
    · exact ⟨by simp only [call_next]; omega, left, calls _,
        fun path listed same => absurd same (apart path listed)⟩
    · obtain ⟨early, known, -, all⟩ := inv.known other before
      exact ⟨early, known, calls _, all⟩
  case told =>
    rw [failed]
    exact fun path listed isFailed => List.mem_cons_of_mem _ (inv.told path listed isFailed)
  case covered =>
    rw [failed]
    intro other before known
    rcases inv.covered other before known with told | path | creating
    · exact .inl (List.mem_cons_of_mem _ told)
    · exact .inr (.inl path)
    · rcases List.mem_cons.mp (top ▸ creating) with same | below
      · exact .inl (Call.creating.inj same ▸ List.mem_cons_self)
      · exact absurd (List.mem_cons_of_mem _ below) (calls other)

theorem FailureInv.fails (inv : FailureInv routes race) {path : Nat} {entry : Path}
    {cause : Option Refusal} (found : race.started[path]? = some entry)
    (alive : entry.failed = false) {refusal : Option Refusal} {dropped : Bool} :
    FailureInv routes
      ({ race with
          refusal, dropped
          started := race.started.set path { entry with failed := true } }.call
        (.failed entry.route cause) .failing) := by
  have listed := List.mem_of_getElem? found
  have failed : ({ race with
      refusal, dropped, started := race.started.set path { entry with failed := true } }.call
        (.failed entry.route cause) .failing).failedRoutes = entry.route :: race.failedRoutes :=
    failedRoutes_failed rfl
  have calls : ∀ other, Call.creating other ∈ Call.failing :: race.calls ↔
      .creating other ∈ race.calls := by simp
  have places := map_route_fail found
  -- Every path keeps its route, and no other path has this one.
  have others : ∀ other ∈ race.started.set path { entry with failed := true },
      other = { entry with failed := true } ∨
        other ∈ race.started ∧ other.route ≠ entry.route := by
    intro other member
    obtain ⟨index, at_⟩ := List.mem_iff_getElem?.mp member
    rw [List.getElem?_set] at at_
    split at at_
    · split at at_
      · exact .inl (Option.some.inj at_).symm
      · cases at_
    next differ =>
      refine .inr ⟨List.mem_of_getElem? at_, fun same => differ ?_⟩
      have known : path < (race.started.map (·.route)).length := by
        simpa using (List.getElem?_eq_some_iff.mp found).1
      refine (List.getElem?_inj known inv.distinct).mp ?_
      rw [List.getElem?_map, List.getElem?_map, found, at_]
      simp [same]
  constructor
  case placed =>
    intro other member
    rw [call_calls, calls]
    rcases others other member with rfl | ⟨before, -⟩
    · exact inv.placed entry listed
    · exact inv.placed other before
  case distinct => simpa only [call_started, places] using inv.distinct
  case once =>
    rw [failed, List.nodup_cons]
    refine ⟨fun member => ?_, inv.once⟩
    have isFailed := (inv.known _ member).2.2.2 entry listed rfl
    exact absurd (alive.symm.trans isFailed) (by decide)
  case known =>
    rw [failed]
    intro route member
    rw [call_calls, calls]
    rcases List.mem_cons.mp member with rfl | before
    · obtain ⟨early, known, idle⟩ := inv.placed entry listed
      refine ⟨early, known, idle, fun other member same => ?_⟩
      rcases others other member with rfl | ⟨-, apart⟩
      · rfl
      · exact absurd same apart
    · obtain ⟨early, known, idle, all⟩ := inv.known route before
      refine ⟨early, known, idle, fun other member same => ?_⟩
      rcases others other member with rfl | ⟨earlier, -⟩
      · rfl
      · exact all other earlier same
  case told =>
    rw [failed]
    intro other member isFailed
    rcases others other member with rfl | ⟨earlier, -⟩
    · exact List.mem_cons_self
    · exact List.mem_cons_of_mem _ (inv.told other earlier isFailed)
  case covered =>
    rw [failed]
    intro route before known
    rw [call_calls, calls]
    rcases inv.covered route before known with told | started | creating
    · exact .inl (List.mem_cons_of_mem _ told)
    · refine .inr (.inl (List.mem_map.mp ?_))
      rw [call_started, places]
      exact List.mem_map.mpr started
    · exact .inr (.inr creating)

theorem FailureInv.move (inv : FailureInv routes race) (makingInv : MakingInv routes race)
    (move : Move routes race race') : FailureInv routes race' := by
  cases move with
  | ask | disarm | arm => exact inv.congr rfl rfl rfl fun _ => .rfl
  | skip none_ =>
    constructor
    case placed =>
      intro path member
      obtain ⟨early, known, idle⟩ := inv.placed path member
      exact ⟨Nat.lt_succ_of_lt early, known, idle⟩
    case distinct => exact inv.distinct
    case once => exact inv.once
    case known =>
      intro route member
      obtain ⟨early, known, rest⟩ := inv.known route member
      exact ⟨Nat.lt_succ_of_lt early, known, rest⟩
    case told => exact inv.told
    case covered => exact fun route _ known => inv.covered route (by omega) known
  | create _ _ _ left idle => exact inv.create idle left
  | pop top plain =>
    refine inv.congr rfl rfl rfl fun route => ?_
    rw [top, List.mem_cons]
    refine ⟨.inr, fun member => member.resolve_left ?_⟩
    rintro rfl
    simp [Call.isPlain] at plain
  | enter top => exact inv.enter makingInv top
  | creationFails top => exact inv.creationFails makingInv top
  | fails _ found alive => exact inv.fails found alive
  | takes | shut => exact inv.congr rfl rfl (failedRoutes_cons rfl rfl) fun _ => by simp
  | closes top | wins top | opens top =>
    refine inv.congr rfl rfl (failedRoutes_cons rfl rfl) fun _ => ?_
    rw [top]
    simp
  | finish | heard | forwards | late =>
    exact inv.congr rfl rfl (failedRoutes_cons rfl rfl) fun _ => by simp

/-! ### The refusal that is kept -/

structure RefusalInv (race : Race) : Prop where
  held : ∀ refusal, race.refusal = some refusal → 4000 ≤ refusal.code ∧
    ∃ route, (route, some refusal) ∈ race.failures
  revoked : ∀ route cause, (route, some cause) ∈ race.failures → isRevocation cause →
    ∃ refusal, race.refusal = some refusal ∧ isRevocation refusal
  dropped : race.dropped = false → ∀ failure ∈ race.failures,
    ∃ cause, failure.2 = some cause ∧ 4000 ≤ cause.code

theorem isRevocation_iff {refusal : Refusal} :
    isRevocation refusal ↔ refusal = ⟨4003, "Device revoked"⟩ := decide_eq_true_iff

theorem final_revocation {refusal : Refusal} (revocation : isRevocation refusal) :
    final refusal.code := by
  rw [isRevocation_iff] at revocation
  rw [revocation]
  decide

theorem refused_cases (race : Race) (refusal : Refusal) :
    race.refused refusal = some refusal ∨
      ∃ held, race.refusal = some held ∧ race.refused refusal = some held := by
  rw [Race.refused]
  split
  next held known =>
    split
    · exact .inr ⟨held, known, rfl⟩
    · exact .inl rfl
  · exact .inl rfl

theorem refused_keeps {held refusal : Refusal} (known : race.refusal = some held)
    (revocation : isRevocation held) : race.refused refusal = some held := by
  simp [Race.refused, known, revocation]

theorem refused_takes {refusal : Refusal} (revocation : isRevocation refusal) :
    ∃ kept, race.refused refusal = some kept ∧ isRevocation kept := by
  rw [Race.refused]
  split
  next held known =>
    split
    next keeps =>
      simp only [final_revocation revocation, Bool.not_true, Bool.and_false, Bool.or_false] at keeps
      exact ⟨held, rfl, keeps⟩
    · exact ⟨refusal, rfl, revocation⟩
  · exact ⟨refusal, rfl, revocation⟩

theorem failures_cons {effect : Effect} (effects : race'.effects = effect :: race.effects)
    (other : effect.failure? = none) : race'.failures = race.failures := by
  rw [Race.failures, effects, List.filterMap_cons_none other]
  rfl

theorem failures_failed {route : Nat} {cause : Option Refusal}
    (effects : race'.effects = .failed route cause :: race.effects) :
    race'.failures = (route, cause) :: race.failures := by
  rw [Race.failures, effects]
  rfl

theorem RefusalInv.congr (inv : RefusalInv race) (refusal : race'.refusal = race.refusal)
    (dropped : race'.dropped = race.dropped) (failures : race'.failures = race.failures) :
    RefusalInv race' where
  held := by simpa only [refusal, failures] using inv.held
  revoked := by simpa only [refusal, failures] using inv.revoked
  dropped := by simpa only [dropped, failures] using inv.dropped

theorem RefusalInv.drops (inv : RefusalInv race) {route : Nat} {cause : Option Refusal}
    (plain : ∀ refusal, cause = some refusal → refusal.code < 4000)
    (refusal : race'.refusal = race.refusal) (dropped : race'.dropped = true)
    (failures : race'.failures = (route, cause) :: race.failures) : RefusalInv race' := by
  constructor
  case held =>
    rw [refusal, failures]
    intro kept known
    obtain ⟨code, route, member⟩ := inv.held kept known
    exact ⟨code, route, List.mem_cons_of_mem _ member⟩
  case revoked =>
    rw [refusal, failures]
    intro route heard member revocation
    rcases List.mem_cons.mp member with same | before
    · have low := plain heard (Prod.mk.inj same).2.symm
      rw [isRevocation_iff] at revocation
      simp [revocation] at low
    · exact inv.revoked route heard before revocation
  case dropped => simp [dropped]

theorem RefusalInv.refuses (inv : RefusalInv race) {route : Nat} {cause : Refusal}
    (high : 4000 ≤ cause.code) (refusal : race'.refusal = race.refused cause)
    (dropped : race'.dropped = race.dropped)
    (failures : race'.failures = (route, some cause) :: race.failures) : RefusalInv race' := by
  constructor
  case held =>
    rw [refusal, failures]
    intro kept known
    rcases refused_cases race cause with new | ⟨held, was, same⟩
    · cases known.symm.trans new
      exact ⟨high, route, List.mem_cons_self⟩
    · cases known.symm.trans same
      obtain ⟨code, route, member⟩ := inv.held _ was
      exact ⟨code, route, List.mem_cons_of_mem _ member⟩
  case revoked =>
    rw [refusal, failures]
    intro route heard member revocation
    rcases List.mem_cons.mp member with same | before
    · cases (Option.some.inj (Prod.mk.inj same).2)
      exact refused_takes revocation
    · obtain ⟨held, was, revoked⟩ := inv.revoked route heard before revocation
      exact ⟨held, refused_keeps was revoked, revoked⟩
  case dropped =>
    rw [dropped, failures]
    intro notDropped failure member
    rcases List.mem_cons.mp member with rfl | before
    · exact ⟨cause, rfl, high⟩
    · exact inv.dropped notDropped failure before

theorem RefusalInv.move (inv : RefusalInv race) (move : Move routes race race') :
    RefusalInv race' := by
  cases move with
  | ask | disarm | arm | skip | pop => exact inv.congr rfl rfl rfl
  | creationFails => exact inv.drops (by simp) rfl rfl (failures_failed rfl)
  | fails =>
    rename_i refusal _ _ _ _
    by_cases high : 4000 ≤ refusal.code
    · exact inv.refuses high (if_pos high) (if_pos high) (failures_failed rfl)
    · refine inv.drops ?_ (if_neg high) (if_neg high) (failures_failed rfl)
      rintro _ ⟨⟩
      omega
  | create | finish | enter | takes | closes | wins | opens | shut | heard | forwards | late =>
    exact inv.congr rfl rfl (failures_cons rfl rfl)

/-! ### The end -/

structure EndInv (routes : Nat) (race : Race) : Prop where
  count : race.winner = none → Effect.shut ∉ race.effects →
    race.effects.countP Effect.isClose = race.closed.toNat
  ended : race.winner = none → ∀ effect ∈ race.effects, effect.isClose →
    race.closed ∧ race.ended routes
  args : race.winner = none → ∀ code reason refused, Effect.close code reason refused ∈ race.effects →
    routes = 0 ∧ code = 1006 ∨ race.lostClose = .close code reason refused

theorem EndInv.keeps (inv : EndInv routes race) (winner : race'.winner = none → race.winner = none)
    (effects : ∀ effect, effect.isClose → effect ∈ race'.effects → effect ∈ race.effects)
    (count : Effect.shut ∉ race'.effects → Effect.shut ∉ race.effects ∧
      race'.effects.countP Effect.isClose = race.effects.countP Effect.isClose ∧
      race'.closed = race.closed)
    (ended : race.winner = none → race.closed → race.ended routes →
      race'.closed ∧ race'.ended routes ∧ race'.lostClose = race.lostClose) :
    EndInv routes race' := by
  constructor
  case count =>
    intro open_ notShut
    obtain ⟨before, same, closed⟩ := count notShut
    rw [same, closed]
    exact inv.count (winner open_) before
  case ended =>
    intro open_ effect member isClose
    obtain ⟨closed, isOver⟩ := inv.ended (winner open_) effect (effects effect isClose member) isClose
    exact ⟨(ended (winner open_) closed isOver).1, (ended (winner open_) closed isOver).2.1⟩
  case args =>
    intro open_ code reason refused member
    have before := effects _ rfl member
    obtain ⟨closed, isOver⟩ := inv.ended (winner open_) _ before rfl
    rw [(ended (winner open_) closed isOver).2.2]
    exact inv.args (winner open_) code reason refused before

theorem EndInv.finish (inv : EndInv routes race) {code : Nat} {reason : Option String}
    {refused : Option Refusal} (open_ : race.winner = none) (ended : race.ended routes)
    (going : race.closed = false ∨ Effect.shut ∈ race.effects)
    (args : routes = 0 ∧ code = 1006 ∨ race.lostClose = .close code reason refused) :
    EndInv routes ({ race with closed := true }.call (.close code reason refused) .last) := by
  constructor
  case count =>
    intro _ notShut
    rw [call_effects, List.mem_cons, not_or] at notShut
    have count := inv.count open_ notShut.2
    rw [going.resolve_right notShut.2] at count
    rw [call_effects, List.countP_cons_of_pos rfl, count]
    rfl
  case ended => exact fun _ _ _ _ => ⟨rfl, ended⟩
  case args =>
    intro _ code' reason' refused' member
    rcases List.mem_cons.mp member with same | before
    · cases same
      exact args
    · exact inv.args open_ code' reason' refused' before

theorem mem_cons_of_isClose {effect other : Effect} {effects : List Effect}
    (plain : other.isClose = false) (isClose : effect.isClose)
    (member : effect ∈ other :: effects) : effect ∈ effects := by
  rcases List.mem_cons.mp member with rfl | before
  · exact absurd (plain.symm.trans isClose) (by decide)
  · exact before

theorem EndInv.move (inv : EndInv routes race) (makingInv : MakingInv routes race)
    (move : Move routes race race') : EndInv routes race' := by
  have same : race.closed → race.ended routes → race.closed ∧ race.ended routes ∧
      race.lostClose = race.lostClose := fun closed ended => ⟨closed, ended, rfl⟩
  cases move with
  | ask | disarm | arm | pop =>
    exact inv.keeps id (fun _ _ => id) (fun notShut => ⟨notShut, rfl, rfl⟩) fun _ => same
  | skip =>
    refine inv.keeps id (fun _ _ => id) (fun notShut => ⟨notShut, rfl, rfl⟩) fun _ closed ended => ?_
    exact ⟨closed, ⟨Nat.le_succ_of_le ended.1, ended.2⟩, rfl⟩
  | create _ going =>
    refine inv.keeps id (fun _ => mem_cons_of_isClose rfl) (fun notShut => ?_) fun _ closed _ => ?_
    · simpa [Effect.isClose] using notShut
    · exact absurd (going.symm.trans closed) (by decide)
  | finish open_ ended _ _ going args => exact inv.finish open_ ended going args
  | enter top | creationFails top =>
    have going := (makingInv.facts (Race.making_of_top top)).2.1
    refine inv.keeps id (fun _ => mem_cons_of_isClose rfl) (fun notShut => ?_) fun _ closed _ => ?_
    · simpa [Effect.isClose] using notShut
    · exact absurd (going.symm.trans closed) (by decide)
  | fails _ found alive =>
    refine inv.keeps id (fun _ => mem_cons_of_isClose rfl) (fun notShut => ?_) fun _ _ ended => ?_
    · simpa [Effect.isClose] using notShut
    · exact absurd (alive.symm.trans (ended.2 _ (List.mem_of_getElem? found))) (by decide)
  | takes => exact ⟨nofun, nofun, nofun⟩
  | shut =>
    refine inv.keeps id (fun _ => mem_cons_of_isClose rfl) (fun notShut => ?_) fun _ _ ended => ?_
    · simp at notShut
    · exact ⟨rfl, ended, rfl⟩
  | forwards from_ =>
    constructor <;> simp [from_]
  | closes | wins | opens | heard | late =>
    refine inv.keeps id (fun _ => mem_cons_of_isClose rfl) (fun notShut => ?_) fun _ => same
    simpa [Effect.isClose] using notShut

/-! ### Everything at once -/

structure Inv (routes : Nat) (race : Race) : Prop where
  winner : WinnerInv race
  making : MakingInv routes race
  settled : SettledInv race
  failure : FailureInv routes race
  refusal : RefusalInv race
  ended : EndInv routes race

theorem Inv.start : Inv routes {} where
  winner := .of_aside rfl (by simp) (by simp)
  making := .of_idle rfl nofun fun _ => ⟨rfl, rfl, nofun, nofun⟩
  settled := ⟨nofun, .nil, .nil⟩
  failure := ⟨nofun, .nil, .nil, nofun, nofun, nofun⟩
  refusal := ⟨nofun, nofun, nofun⟩
  ended := ⟨fun _ _ => rfl, nofun, nofun⟩

theorem Inv.move (inv : Inv routes race) (move : Move routes race race') : Inv routes race' where
  winner := inv.winner.move (fun making => (inv.making.facts making).1) move
  making := inv.making.move move
  settled := inv.settled.move inv.winner inv.making move
  failure := inv.failure.move inv.making move
  refusal := inv.refusal.move move
  ended := inv.ended.move inv.making move

end Ace.PathRace
