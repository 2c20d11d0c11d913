import Ace.Client.PathRace

/-!
# What a step of a race is made of

A step is a chain of moves, each a small change of the state with what it takes for granted. What
holds of every reachable state is proved move by move: of the winner and of what is told of it,
and of a route that is making its transport.
-/

namespace Ace.PathRace

open Race (call_next call_started call_effects call_calls)

/-! ### What an effect is about -/

def Effect.isWon : Effect → Bool
  | .won _ => true
  | _ => false

def Effect.isOpen : Effect → Bool
  | .open => true
  | _ => false

def Effect.isClose : Effect → Bool
  | .close _ _ _ => true
  | _ => false

def Effect.starts : Effect → Bool
  | .creates _ | .opens _ => true
  | _ => false

/-- A route has won, or the attempt is closed. -/
def Effect.settles : Effect → Bool
  | .wins _ | .close _ _ _ | .shut => true
  | _ => false

def Effect.isWins : Effect → Bool
  | .wins _ => true
  | _ => false

def Effect.failure? : Effect → Option (Nat × Option Refusal)
  | .failed route cause => some (route, cause)
  | _ => none

/-- The failures that the attempt told of. -/
def Race.failures (race : Race) : List (Nat × Option Refusal) :=
  race.effects.filterMap Effect.failure?

def Race.failedRoutes (race : Race) : List Nat := race.failures.map Prod.fst

/-! ### The winner -/

def Call.isClosingOthers : Call → Bool
  | .closing (some _) _ => true
  | _ => false

def Call.isWinning : Call → Bool
  | .winning => true
  | _ => false

/-- What an effect says about the winner. -/
def Effect.Fits (race : Race) : Effect → Prop
  | .wins path => race.winner = some path
  | .message path _ => race.winner = some path
  | .won route => race.winner.bind race.routeOf = some route ∧
    ∀ path < race.started.length, race.winner ≠ some path → .closes path ∈ race.effects
  | .open => ∃ route, .won route ∈ race.effects
  | _ => True

/-- How far `closeAll(keep)` is. -/
def Call.Fits (race : Race) : Call → Prop
  | .closing (some keep) index => race.winner = some keep ∧
    ∀ path < index, path ≠ keep → .closes path ∈ race.effects
  | .winning => ∃ route, .won route ∈ race.effects
  | _ => True

/-- The winner is told of once the other paths are closed, and then the attempt opens. -/
structure WinnerInv (race : Race) : Prop where
  started : ∀ path, race.winner = some path → path < race.started.length
  won : race.effects.countP Effect.isWon + race.calls.countP Call.isClosingOthers =
    race.winner.isSome.toNat
  opened : race.effects.countP Effect.isOpen + race.calls.countP Call.isWinning =
    race.effects.countP Effect.isWon
  effects : ∀ effect ∈ race.effects, effect.Fits race
  calls : ∀ call ∈ race.calls, call.Fits race

/-! ### What a step is made of -/

def Call.isCreating : Call → Bool
  | .creating _ => true
  | _ => false

def Race.making (race : Race) : Bool := race.calls.any Call.isCreating

/-- A call that nothing of the attempt's outcome hangs on. -/
def Call.isPlain : Call → Bool
  | .creating _ | .closing (some _) _ | .winning => false
  | _ => true

/-- The next entry of `closeAll(keep)`. -/
def entryAt (keep : Option Nat) (index : Nat) : Nat :=
  if keep = some index then index + 1 else index

/-- Every path of an attempt has failed and no route is left. -/
def Race.ended (routes : Nat) (race : Race) : Prop :=
  routes ≤ race.next ∧ ∀ path ∈ race.started, path.failed

/-- The pieces that steps are made of, each with what it takes for granted. -/
inductive Move (routes : Nat) (race : Race) : Race → Prop where
  | ask (fresh : race.asked = false) : Move routes race { race with asked := true }
  | disarm : Move routes race { race with armed := false }
  | arm (open_ : race.winner = none) (left : race.next < routes) (idle : race.making = false)
      (asked : race.asked) : Move routes race { race with armed := true }
  | skip (none_ : routes ≤ race.next) (idle : race.making = false) (asked : race.asked) :
      Move routes race { race with next := race.next + 1 }
  | create (open_ : race.winner = none) (going : race.closed = false) (off : race.armed = false)
      (left : race.next < routes) (idle : race.making = false) (asked : race.asked) :
      Move routes race
        ({ race with next := race.next + 1 }.call (.creates race.next) (.creating race.next))
  | finish {code : Nat} {reason : Option String} {refused : Option Refusal}
      (open_ : race.winner = none) (ended : race.ended routes) (idle : race.making = false)
      (asked : race.asked) (going : race.closed = false ∨ Effect.shut ∈ race.effects)
      (args : routes = 0 ∧ code = 1006 ∨ race.lostClose = .close code reason refused) :
      Move routes race ({ race with closed := true }.call (.close code reason refused) .last)
  | pop {call : Call} {rest : List Call} (top : race.calls = call :: rest) (plain : call.isPlain) :
      Move routes race { race with calls := rest }
  | enter {route : Nat} {rest : List Call} (top : race.calls = .creating route :: rest) :
      Move routes race
        ({ race with calls := rest, started := race.started ++ [({ route, failed := false } : Path)] }.call
          (.opens race.started.length) .opening)
  | creationFails {route : Nat} {rest : List Call} (top : race.calls = .creating route :: rest) :
      Move routes race
        ({ race with calls := rest, dropped := true }.call (.failed route none) .failingCreation)
  | fails {path : Nat} {entry : Path} {refusal : Refusal}
      (open_ : race.winner = none) (found : race.started[path]? = some entry)
      (alive : entry.failed = false)
      (others : race.making → ¬Race.ended routes
        { race with started := race.started.set path { entry with failed := true } }) :
      Move routes race
        ({ race with
            refusal := if 4000 ≤ refusal.code then race.refused refusal else race.refusal
            dropped := if 4000 ≤ refusal.code then race.dropped else true
            started := race.started.set path { entry with failed := true } }.call
          (.failed entry.route (some refusal)) .failing)
  | takes {path : Nat} (open_ : race.winner = none) (going : race.closed = false)
      (idle : race.making = false) (known : path < race.started.length) :
      Move routes race
        { race with
          winner := some path, armed := false, effects := .wins path :: race.effects
          calls := .closing (some path) 0 :: race.calls }
  | closes {keep : Option Nat} {index : Nat} {rest : List Call}
      (top : race.calls = .closing keep index :: rest)
      (left : entryAt keep index < race.started.length) :
      Move routes race
        ({ race with calls := rest }.call (.closes (entryAt keep index))
          (.closing keep (entryAt keep index + 1)))
  | wins {path index route : Nat} {rest : List Call}
      (top : race.calls = .closing (some path) index :: rest)
      (done : race.started.length ≤ entryAt (some path) index)
      (named : race.routeOf path = some route) :
      Move routes race ({ race with calls := rest }.call (.won route) .winning)
  | opens {rest : List Call} (top : race.calls = .winning :: rest) :
      Move routes race ({ race with calls := rest }.call .open .last)
  | shut (idle : race.making = false) :
      Move routes race
        { race with
          closed := true, armed := false, effects := .shut :: race.effects
          calls := .closing none 0 :: race.calls }
  | heard {path : Nat} {payload : Payload} (from_ : race.winner = some path) :
      Move routes race (race.call (.message path payload) .last)
  | forwards {path code : Nat} {reason : Option String} (from_ : race.winner = some path) :
      Move routes race (race.call (.close code reason none) .last)
  | late {path : Nat} (settled : race.winner.isSome ∨ race.closed) :
      Move routes race (race.call (.closes path) .last)

variable {routes : Nat} {race race' : Race}

/-- An effect that the winner has no part in. -/
def Effect.isAside : Effect → Bool
  | .wins _ | .won _ | .open | .message _ _ => false
  | _ => true

def Call.isAside : Call → Bool
  | .closing (some _) _ | .winning => false
  | _ => true

theorem Effect.Fits.mono {effect : Effect} (fits : effect.Fits race)
    (winner : race'.winner = race.winner) (routeOf : race'.routeOf = race.routeOf)
    (length : race'.started.length = race.started.length)
    (more : ∀ effect ∈ race.effects, effect ∈ race'.effects) : effect.Fits race' := by
  cases effect with
  | wins path => exact winner.trans fits
  | message path payload => exact winner.trans fits
  | won route =>
    refine ⟨by rw [winner, routeOf]; exact fits.1, ?_⟩
    intro path known other
    exact more _ (fits.2 path (length ▸ known) (winner ▸ other))
  | «open» => exact fits.imp fun route member => more _ member
  | _ => trivial

theorem Call.Fits.mono {call : Call} (fits : call.Fits race) (winner : race'.winner = race.winner)
    (more : ∀ effect ∈ race.effects, effect ∈ race'.effects) : call.Fits race' := by
  match call with
  | .closing (some keep) index =>
    exact ⟨winner.trans fits.1, fun path early other => more _ (fits.2 path early other)⟩
  | .winning => exact fits.imp fun route member => more _ member
  | .closing none _ | .creating _ | .failingCreation | .opening | .failing | .last => trivial

theorem WinnerInv.aside (inv : WinnerInv race) (open_ : race.winner = none) :
    (∀ effect ∈ race.effects, effect.isAside) ∧ ∀ call ∈ race.calls, call.isAside := by
  have notWon : ∀ route, Effect.won route ∉ race.effects := by
    intro route member
    have fits := (inv.effects _ member).1
    simp [open_] at fits
  constructor
  · intro effect member
    have fits := inv.effects effect member
    cases effect with
    | wins path => simp [Effect.Fits, open_] at fits
    | message path payload => simp [Effect.Fits, open_] at fits
    | won route => exact absurd member (notWon route)
    | «open» => exact absurd fits.choose_spec (notWon _)
    | _ => rfl
  · intro call member
    have fits := inv.calls call member
    match call with
    | .closing (some keep) index => simp [Call.Fits, open_] at fits
    | .winning => exact absurd fits.choose_spec (notWon _)
    | .closing none _ | .creating _ | .failingCreation | .opening | .failing | .last => rfl

theorem Effect.of_aside (race : Race) {effect : Effect} (aside : effect.isAside) :
    effect.isWon = false ∧ effect.isOpen = false ∧ effect.Fits race := by
  cases effect with
  | wins path => simp [Effect.isAside] at aside
  | message path payload => simp [Effect.isAside] at aside
  | won route => simp [Effect.isAside] at aside
  | «open» => simp [Effect.isAside] at aside
  | _ => exact ⟨rfl, rfl, trivial⟩

theorem Call.of_aside (race : Race) {call : Call} (aside : call.isAside) :
    call.isClosingOthers = false ∧ call.isWinning = false ∧ call.Fits race := by
  match call with
  | .closing (some keep) index => simp [Call.isAside] at aside
  | .winning => simp [Call.isAside] at aside
  | .closing none _ | .creating _ | .failingCreation | .opening | .failing | .last =>
    exact ⟨rfl, rfl, trivial⟩

theorem WinnerInv.of_aside (open_ : race.winner = none)
    (effects : ∀ effect ∈ race.effects, effect.isAside)
    (calls : ∀ call ∈ race.calls, call.isAside) : WinnerInv race := by
  have notWon : race.effects.countP Effect.isWon = 0 := by
    rw [List.countP_eq_zero]
    intro effect member
    simp [(Effect.of_aside race (effects effect member)).1]
  have notOpen : race.effects.countP Effect.isOpen = 0 := by
    rw [List.countP_eq_zero]
    intro effect member
    simp [(Effect.of_aside race (effects effect member)).2.1]
  have notClosing : race.calls.countP Call.isClosingOthers = 0 := by
    rw [List.countP_eq_zero]
    intro call member
    simp [(Call.of_aside race (calls call member)).1]
  have notWinning : race.calls.countP Call.isWinning = 0 := by
    rw [List.countP_eq_zero]
    intro call member
    simp [(Call.of_aside race (calls call member)).2.1]
  constructor
  case started => simp [open_]
  case won => simp [notWon, notClosing, open_]
  case opened => rw [notOpen, notWinning, notWon]
  case effects => exact fun effect member => (Effect.of_aside _ (effects effect member)).2.2
  case calls => exact fun call member => (Call.of_aside _ (calls call member)).2.2

theorem WinnerInv.congr (inv : WinnerInv race) (winner : race'.winner = race.winner)
    (started : race'.started.map (·.route) = race.started.map (·.route))
    (effects : race'.effects = race.effects) (calls : race'.calls = race.calls) :
    WinnerInv race' := by
  have length : race'.started.length = race.started.length := by
    simpa using congrArg List.length started
  have routeOf : race'.routeOf = race.routeOf := by
    funext path
    simpa [Race.routeOf] using congrArg (·[path]?) started
  constructor
  case started => simpa only [winner, length] using inv.started
  case won => simpa only [winner, effects, calls] using inv.won
  case opened => simpa only [effects, calls] using inv.opened
  case effects =>
    rw [effects]
    intro effect member
    exact (inv.effects effect member).mono winner routeOf length fun _ => effects ▸ id
  case calls =>
    rw [calls]
    intro call member
    exact (inv.calls call member).mono winner fun _ => effects ▸ id

theorem WinnerInv.call (inv : WinnerInv race) {effect : Effect} {call : Call}
    (notWon : effect.isWon = false) (notOpen : effect.isOpen = false) (fits : effect.Fits race)
    (aside : call.isAside) : WinnerInv (race.call effect call) := by
  obtain ⟨notClosing, notWinning, -⟩ := Call.of_aside race aside
  have more : ∀ other ∈ race.effects, other ∈ (race.call effect call).effects :=
    fun other => List.mem_cons_of_mem effect
  constructor
  case started => exact inv.started
  case won => simpa [List.countP_cons, notWon, notClosing] using inv.won
  case opened => simpa [List.countP_cons, notWon, notOpen, notWinning] using inv.opened
  case effects =>
    intro other member
    rcases List.mem_cons.mp member with rfl | before
    · exact fits.mono rfl rfl rfl more
    · exact (inv.effects other before).mono rfl rfl rfl more
  case calls =>
    intro other member
    rcases List.mem_cons.mp member with rfl | before
    · exact (Call.of_aside _ aside).2.2
    · exact (inv.calls other before).mono rfl more

theorem WinnerInv.callAside {effect : Effect} {call : Call} (aside : effect.isAside)
    (aside' : call.isAside) (inv : WinnerInv race) : WinnerInv (race.call effect call) := by
  obtain ⟨notWon, notOpen, fits⟩ := Effect.of_aside race aside
  exact inv.call notWon notOpen fits aside'

theorem WinnerInv.drop (inv : WinnerInv race) {call : Call} {rest : List Call}
    (top : race.calls = call :: rest) (aside : call.isAside) :
    WinnerInv { race with calls := rest } := by
  obtain ⟨notClosing, notWinning, -⟩ := Call.of_aside race aside
  have won := inv.won
  have opened := inv.opened
  rw [top] at won opened
  constructor
  case started => exact inv.started
  case won => simpa [List.countP_cons, notClosing] using won
  case opened => simpa [List.countP_cons, notWinning] using opened
  case effects =>
    intro effect member
    exact (inv.effects effect member).mono rfl rfl rfl fun _ => id
  case calls =>
    intro other member
    exact (inv.calls other (top ▸ List.mem_cons_of_mem call member)).mono rfl fun _ => id

theorem WinnerInv.takes (inv : WinnerInv race) (open_ : race.winner = none) {path : Nat}
    (known : path < race.started.length) :
    WinnerInv { race with
      winner := some path, armed := false, effects := .wins path :: race.effects
      calls := .closing (some path) 0 :: race.calls } := by
  obtain ⟨effects, calls⟩ := inv.aside open_
  have won := inv.won
  have opened := inv.opened
  have winner : race.winner.isSome.toNat = 0 := by rw [open_]; rfl
  constructor
  case started =>
    rintro _ ⟨⟩
    exact known
  case won =>
    simp [List.countP_cons, Effect.isWon, Call.isClosingOthers]
    omega
  case opened => simpa [List.countP_cons, Effect.isWon, Effect.isOpen, Call.isWinning] using opened
  case effects =>
    intro effect member
    rcases List.mem_cons.mp member with rfl | before
    · rfl
    · exact (Effect.of_aside _ (effects effect before)).2.2
  case calls =>
    intro call member
    rcases List.mem_cons.mp member with rfl | before
    · exact ⟨rfl, by simp⟩
    · exact (Call.of_aside _ (calls call before)).2.2

theorem WinnerInv.closes (inv : WinnerInv race) {keep : Option Nat} {index : Nat}
    {rest : List Call} (top : race.calls = .closing keep index :: rest) :
    WinnerInv ({ race with calls := rest }.call (.closes (entryAt keep index))
      (.closing keep (entryAt keep index + 1))) := by
  have won := inv.won
  have opened := inv.opened
  rw [top] at won opened
  have same : (Call.closing keep (entryAt keep index + 1)).isClosingOthers =
      (Call.closing keep index).isClosingOthers := by
    cases keep <;> rfl
  have more : ∀ effect ∈ race.effects, effect ∈ ({ race with calls := rest }.call
      (.closes (entryAt keep index)) (.closing keep (entryAt keep index + 1))).effects :=
    fun effect => List.mem_cons_of_mem _
  constructor
  case started => exact inv.started
  case won => simpa [List.countP_cons, Effect.isWon, same] using won
  case opened => simpa [List.countP_cons, Effect.isWon, Effect.isOpen, Call.isWinning] using opened
  case effects =>
    intro effect member
    rcases List.mem_cons.mp member with rfl | before
    · trivial
    · exact (inv.effects effect before).mono rfl rfl rfl more
  case calls =>
    intro call member
    rcases List.mem_cons.mp member with rfl | before
    · cases keep with
      | none => trivial
      | some keep =>
        obtain ⟨winner, others⟩ := inv.calls _ (top ▸ List.mem_cons_self)
        refine ⟨winner, fun path early other => ?_⟩
        rcases Nat.lt_or_ge path index with passed | reached
        · exact more _ (others path passed other)
        · have this : path = entryAt (some keep) index := by
            rw [entryAt] at early ⊢
            split at early <;> grind
          exact this ▸ List.mem_cons_self
    · exact (inv.calls call (top ▸ List.mem_cons_of_mem _ before)).mono rfl more

theorem WinnerInv.wins (inv : WinnerInv race) {path index route : Nat} {rest : List Call}
    (top : race.calls = .closing (some path) index :: rest)
    (done : race.started.length ≤ entryAt (some path) index)
    (named : race.routeOf path = some route) :
    WinnerInv ({ race with calls := rest }.call (.won route) .winning) := by
  obtain ⟨winner, others⟩ := inv.calls _ (top ▸ List.mem_cons_self)
  have won := inv.won
  have opened := inv.opened
  rw [top] at won opened
  have more : ∀ effect ∈ race.effects, effect ∈
      ({ race with calls := rest }.call (.won route) .winning).effects :=
    fun effect => List.mem_cons_of_mem _
  constructor
  case started => exact inv.started
  case won =>
    simp [List.countP_cons, Effect.isWon, Call.isClosingOthers] at won ⊢
    omega
  case opened =>
    simp [List.countP_cons, Effect.isWon, Effect.isOpen, Call.isWinning] at opened ⊢
    omega
  case effects =>
    intro effect member
    rcases List.mem_cons.mp member with rfl | before
    · refine ⟨?_, fun other known apart => more _ ?_⟩
      · change race.winner.bind race.routeOf = some route
        rw [winner]
        exact named
      have differ : other ≠ path := fun same => apart (same ▸ winner)
      apply others other _ differ
      rw [entryAt] at done
      change other < race.started.length at known
      split at done <;> grind
    · exact (inv.effects effect before).mono rfl rfl rfl more
  case calls =>
    intro call member
    rcases List.mem_cons.mp member with rfl | before
    · exact ⟨route, List.mem_cons_self⟩
    · exact (inv.calls call (top ▸ List.mem_cons_of_mem _ before)).mono rfl more

theorem WinnerInv.opens (inv : WinnerInv race) {rest : List Call}
    (top : race.calls = .winning :: rest) :
    WinnerInv ({ race with calls := rest }.call .open .last) := by
  have won := inv.won
  have opened := inv.opened
  rw [top] at won opened
  have more : ∀ effect ∈ race.effects,
      effect ∈ ({ race with calls := rest }.call .open .last).effects :=
    fun effect => List.mem_cons_of_mem _
  constructor
  case started => exact inv.started
  case won => simpa [List.countP_cons, Effect.isWon, Call.isClosingOthers] using won
  case opened =>
    simp [List.countP_cons, Effect.isWon, Effect.isOpen, Call.isWinning] at opened ⊢
    omega
  case effects =>
    intro effect member
    rcases List.mem_cons.mp member with rfl | before
    · obtain ⟨route, told⟩ := inv.calls _ (top ▸ List.mem_cons_self)
      exact ⟨route, more _ told⟩
    · exact (inv.effects effect before).mono rfl rfl rfl more
  case calls =>
    intro call member
    rcases List.mem_cons.mp member with rfl | before
    · trivial
    · exact (inv.calls call (top ▸ List.mem_cons_of_mem _ before)).mono rfl more

theorem Race.making_of_top {route : Nat} {rest : List Call}
    (top : race.calls = .creating route :: rest) : race.making := by
  simp [Race.making, top, Call.isCreating]

theorem map_route_fail {started : List Path} {path : Nat} {entry : Path}
    (found : started[path]? = some entry) :
    (started.set path { entry with failed := true }).map (·.route) = started.map (·.route) := by
  rw [List.map_set]
  refine List.ext_getElem? fun i => ?_
  rw [List.getElem?_set]
  split
  next here =>
    subst here
    rw [List.length_map, List.getElem?_map, found]
    exact if_pos (List.getElem?_eq_some_iff.mp found).1
  · rfl

theorem WinnerInv.move (inv : WinnerInv race) (open_ : race.making → race.winner = none)
    (move : Move routes race race') : WinnerInv race' := by
  cases move with
  | ask | disarm | arm | skip => exact inv.congr rfl rfl rfl rfl
  | create | finish => exact .callAside rfl rfl (inv.congr rfl rfl rfl rfl)
  | pop top plain =>
    refine inv.drop top ?_
    unfold Call.isPlain at plain
    split at plain <;> simp_all [Call.isAside]
  | enter top =>
    obtain ⟨effects, calls⟩ := inv.aside (open_ (Race.making_of_top top))
    refine .of_aside (open_ (Race.making_of_top top)) ?_ ?_
    · simpa [Effect.isAside] using effects
    · rw [top] at calls
      simpa [Call.isAside] using calls
  | creationFails top =>
    exact .callAside rfl rfl ((inv.drop top rfl).congr rfl rfl rfl rfl)
  | @fails path entry refusal _ found _ _ =>
    exact .callAside rfl rfl (inv.congr rfl (map_route_fail found) rfl rfl)
  | takes open_ _ _ known => exact inv.takes open_ known
  | closes top _ => exact inv.closes top
  | wins top done named => exact inv.wins top done named
  | opens top => exact inv.opens top
  | shut =>
    have shut : WinnerInv (race.call .shut (.closing none 0)) := inv.callAside rfl rfl
    exact shut.congr rfl rfl rfl rfl
  | heard from_ => exact inv.call rfl rfl from_ rfl
  | forwards | late => exact inv.callAside rfl rfl

/-! ### A route that makes its transport -/

/-- Only failures are told of while a route makes its transport. -/
def Nested : List Call → Prop
  | [] => True
  | call :: rest => (rest.any Call.isCreating → call = .failing) ∧ Nested rest

/-- A call that can run before the attempt is opened. -/
def Call.isQuiet : Call → Bool
  | .closing none _ | .last => true
  | _ => false

structure MakingInv (routes : Nat) (race : Race) : Prop where
  making : ∀ route, Call.creating route ∈ race.calls → race.winner = none ∧
    race.closed = false ∧ race.armed = false ∧ route + 1 = race.next ∧ route < routes
  nested : Nested race.calls
  held : ∀ call rest, race.calls = call :: rest → rest.any Call.isCreating → ¬race.ended routes
  armed : race.armed → race.next < routes ∧ race.asked
  fresh : race.asked = false → race.started = [] ∧ race.winner = none ∧
    (race.closed → .shut ∈ race.effects) ∧ ∀ call ∈ race.calls, call.isQuiet

theorem not_mem_of_idle (idle : race.making = false) (route : Nat) :
    Call.creating route ∉ race.calls := by
  intro member
  have making : race.making = true := List.any_eq_true.mpr ⟨_, member, rfl⟩
  simp [idle] at making

theorem nested_of_idle {calls : List Call} (idle : calls.any Call.isCreating = false) :
    Nested calls := by
  induction calls with
  | nil => trivial
  | cons call rest ih =>
    rw [List.any_cons, Bool.or_eq_false_iff] at idle
    exact ⟨fun making => by simp [idle.2] at making, ih idle.2⟩

theorem MakingInv.of_idle (idle : race.making = false)
    (armed : race.armed → race.next < routes ∧ race.asked)
    (fresh : race.asked = false → race.started = [] ∧ race.winner = none ∧
      (race.closed → .shut ∈ race.effects) ∧ ∀ call ∈ race.calls, call.isQuiet) :
    MakingInv routes race where
  making route member := absurd member (not_mem_of_idle idle route)
  nested := nested_of_idle idle
  held call rest top making := by
    rw [Race.making, top, List.any_cons, making, Bool.or_true] at idle
    exact absurd idle (by decide)
  armed := armed
  fresh := fresh

theorem MakingInv.facts (inv : MakingInv routes race) (making : race.making) :
    race.winner = none ∧ race.closed = false ∧ race.armed = false ∧ race.asked ∧
      ∃ route, route + 1 = race.next ∧ route < routes ∧ .creating route ∈ race.calls := by
  obtain ⟨call, member, creating⟩ := List.any_eq_true.mp making
  cases call with
  | creating route =>
    obtain ⟨open_, going, off, last, left⟩ := inv.making route member
    refine ⟨open_, going, off, ?_, route, last, left, member⟩
    by_contra unasked
    have quiet := (inv.fresh (by simpa using unasked)).2.2.2 _ member
    cases quiet
  | _ => simp [Call.isCreating] at creating

theorem MakingInv.keeps (inv : MakingInv routes race) (idle : race'.making = false)
    (armed : race'.armed → race.armed) (next : race'.next = race.next)
    (asked : race'.asked = race.asked)
    (fresh : race'.asked = false → race.started = [] → (race.closed → .shut ∈ race.effects) →
      (∀ call ∈ race.calls, call.isQuiet) → race'.started = [] ∧
        (race.winner = none → race'.winner = none) ∧
        (race'.closed → .shut ∈ race'.effects) ∧ ∀ call ∈ race'.calls, call.isQuiet) :
    MakingInv routes race' := by
  refine .of_idle idle (fun on => ?_) fun unasked => ?_
  · rw [next, asked]
    exact inv.armed (armed on)
  · obtain ⟨none_, open_, closed, quiet⟩ := inv.fresh (asked ▸ unasked)
    obtain ⟨none', open', rest⟩ := fresh unasked none_ closed quiet
    exact ⟨none', open' open_, rest⟩

theorem making_rest {call : Call} {rest : List Call} (top : race.calls = call :: rest)
    (idle : race.making = false) : rest.any Call.isCreating = false := by
  rw [Race.making, top, List.any_cons, Bool.or_eq_false_iff] at idle
  exact idle.2

theorem MakingInv.move_idle (inv : MakingInv routes race) (idle : race.making = false)
    (move : Move routes race race') : MakingInv routes race' := by
  have armed := inv.armed
  cases move with
  | ask => exact .of_idle idle (fun on => ⟨(armed on).1, rfl⟩) (by simp)
  | disarm => exact inv.keeps idle (by simp) rfl rfl fun _ a b c => ⟨a, id, b, c⟩
  | arm open_ left _ asked => exact .of_idle idle (fun _ => ⟨left, asked⟩) (by simp [asked])
  | skip none_ _ asked =>
    refine .of_idle idle (fun on => ?_) (by simp [asked])
    have left := (armed on).1
    omega
  | create open_ going off left _ asked =>
    constructor
    case making =>
      intro route member
      rcases List.mem_cons.mp member with same | before
      · cases same
        exact ⟨open_, going, off, rfl, left⟩
      · exact absurd before (not_mem_of_idle idle route)
    case nested => exact ⟨fun making => absurd (idle.symm.trans making) (by decide),
      nested_of_idle idle⟩
    case held =>
      rintro call rest top making
      cases top
      exact absurd (idle.symm.trans making) (by decide)
    case armed =>
      intro on
      exact absurd (off.symm.trans on) (by decide)
    case fresh =>
      intro unasked
      exact absurd (unasked.symm.trans asked) (by decide)
  | finish _ _ _ asked =>
    refine inv.keeps idle id rfl rfl fun unasked => ?_
    exact absurd (unasked.symm.trans asked) (by decide)
  | heard | forwards | late =>
    refine inv.keeps idle id rfl rfl fun _ none_ shut quiet => ⟨none_, id, ?_, ?_⟩
    · exact fun closed => List.mem_cons_of_mem _ (shut closed)
    · exact List.forall_mem_cons.mpr ⟨rfl, quiet⟩
  | pop top _ =>
    refine inv.keeps (making_rest top idle) id rfl rfl fun _ none_ shut quiet => ?_
    rw [top] at quiet
    exact ⟨none_, id, shut, (List.forall_mem_cons.mp quiet).2⟩
  | enter top | creationFails top =>
    exact absurd (idle.symm.trans (Race.making_of_top top)) (by decide)
  | fails _ found =>
    refine inv.keeps idle id rfl rfl fun _ none_ => ?_
    simp [none_] at found
  | takes _ _ _ known =>
    refine inv.keeps idle (by simp) rfl rfl fun _ none_ => ?_
    simp [none_] at known
  | closes top left =>
    have idle' := making_rest top idle
    refine inv.keeps idle' id rfl rfl fun _ none_ => ?_
    simp [none_] at left
  | wins top _ named =>
    have idle' := making_rest top idle
    refine inv.keeps idle' id rfl rfl fun _ none_ => ?_
    simp [Race.routeOf, none_] at named
  | opens top =>
    have idle' := making_rest top idle
    refine inv.keeps idle' id rfl rfl fun _ _ _ quiet => ?_
    rw [top] at quiet
    cases (List.forall_mem_cons.mp quiet).1
  | shut =>
    refine inv.keeps idle (by simp) rfl rfl fun _ none_ _ quiet => ⟨none_, id, ?_, ?_⟩
    · exact fun _ => List.mem_cons_self
    · exact List.forall_mem_cons.mpr ⟨rfl, quiet⟩

/-- While a route makes its transport a path can fail, and that is told of; then the transport is
made or it is not. -/
theorem MakingInv.move_making (inv : MakingInv routes race) (making : race.making)
    (move : Move routes race race') : MakingInv routes race' := by
  obtain ⟨open_, going, off, asked, -⟩ := inv.facts making
  have notIdle : race.making ≠ false := by simp [making]
  -- What is above the route's call on the stack is a failure.
  have only : ∀ {call rest}, race.calls = call :: rest → call.isCreating = false →
      call = .failing ∧ rest.any Call.isCreating := by
    intro call rest top other
    rw [Race.making, top, List.any_cons, other, Bool.false_or] at making
    exact ⟨((top ▸ inv.nested : Nested (call :: rest)).1 making), making⟩
  -- Below a route's call is no other.
  have alone : ∀ {route rest}, race.calls = .creating route :: rest →
      rest.any Call.isCreating = false := by
    intro route rest top
    by_contra more
    have same := (top ▸ inv.nested : Nested (.creating route :: rest)).1 (by simpa using more)
    cases same
  cases move with
  | ask fresh => exact absurd (fresh.symm.trans asked) (by decide)
  | disarm =>
    exact { making := fun route member => by
              obtain ⟨a, b, -, d⟩ := inv.making route member
              exact ⟨a, b, rfl, d⟩
            nested := inv.nested, held := inv.held, armed := by simp
            fresh := fun unasked => inv.fresh unasked }
  | arm _ _ idle | skip _ idle | create _ _ _ _ idle | finish _ _ idle | takes _ _ idle
  | shut idle => exact absurd idle notIdle
  | @pop call rest top plain =>
    have other : call.isCreating = false := by
      cases call with
      | creating => simp [Call.isPlain] at plain
      | _ => rfl
    have below := (only top other).2
    constructor
    case making => exact fun route member => inv.making route (top ▸ List.mem_cons_of_mem _ member)
    case nested => exact (top ▸ inv.nested : Nested (call :: rest)).2
    case held => exact fun _ _ _ _ => inv.held call rest top below
    case armed => exact inv.armed
    case fresh => exact fun unasked => absurd (unasked.symm.trans asked) (by decide)
  | enter top | creationFails top =>
    have idle := alone top
    exact .of_idle idle (fun on => absurd (off.symm.trans on) (by decide))
      fun unasked => absurd (unasked.symm.trans asked) (by decide)
  | fails _ _ _ others =>
    constructor
    case making =>
      intro route member
      rcases List.mem_cons.mp member with same | before
      · cases same
      · exact inv.making route before
    case nested => exact ⟨fun _ => rfl, inv.nested⟩
    case held => exact fun _ _ _ _ => others making
    case armed => exact inv.armed
    case fresh => exact fun unasked => absurd (unasked.symm.trans asked) (by decide)
  | closes top _ | wins top _ _ | opens top => simpa using (only top rfl).1
  | heard from_ | forwards from_ => simp [open_] at from_
  | late settled => simp [open_, going] at settled

theorem MakingInv.move (inv : MakingInv routes race) (move : Move routes race race') :
    MakingInv routes race' := by
  cases making : race.making with
  | false => exact inv.move_idle making move
  | true => exact inv.move_making making move

end Ace.PathRace
