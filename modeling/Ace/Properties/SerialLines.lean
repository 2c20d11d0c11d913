import Ace.Git.SerialLock
import Mathlib.Algebra.GroupWithZero.Nat

/-!
# A line is first come, first served

Every call waits for the one that came right before it, and no call ends before those ahead of it.
So among the calls of one line at most one is between its turn and its end, and once nothing is left
to happen by itself, the first call that has not ended has had its turn.

## Main result

`serial_fair`
-/

namespace Ace.Git.SerialLock

open Script

variable {s s' : Locks} {a : Act}

/-! ### Steps -/

inductive Next (s : Locks) (call : Call) : Act → Phase → Prop
  | abort (i : Nat) (waiting : call.phase = .waiting) : Next s call (.abort i) .cancelled
  | arrive (i : Nat) (waiting : call.phase = .waiting) (ahead : ended s call.previous) :
      Next s call (.arrive i) .turn
  | enter (i : Nat) (turn : call.phase = .turn) : Next s call (.enter i) .leasing
  | start (i : Nat) (leasing : call.phase = .leasing) : Next s call (.start i) .running
  | refuse (i : Nat) (leasing : call.phase = .leasing) : Next s call (.refuse i) (.settled false)
  | finish (i : Nat) (running : call.phase = .running) : Next s call (.finish i) .ending
  | settle (i : Nat) (ok : Bool) (ending : call.phase = .ending) :
      Next s call (.settle i ok) (.settled ok)
  | reject (i : Nat) (cancelled : call.phase = .cancelled) : Next s call (.reject i) .passing
  | pass (i : Nat) (passing : call.phase = .passing) (ahead : ended s call.previous) :
      Next s call (.pass i) .gone

def moved (s : Locks) (i : Nat) (call : Call) (phase : Phase) : Locks :=
  if phase.released then release s i call phase else setPhase s i call phase

def called (s : Locks) (key : String) (signal aborted : Bool) : Locks :=
  { calls := s.calls ++
      [{ key, previous := s.pending.get? key, signal
         phase := if signal && aborted then .cancelled else .waiting }]
    pending := s.pending.set key s.calls.length }

theorem act_cases {i : Nat} {call : Call} (isOf : a.of = some i)
    (acts : act s i call a = some s') :
    s' = s ∧ a.isOwn = false ∨ ∃ phase, Next s call a phase ∧ s' = moved s i call phase := by
  cases a with
  | call => cases isOf
  | abort j =>
    rw [act] at acts
    split at acts
    · cases acts
      split
      next waiting => exact .inr ⟨_, .abort j waiting, rfl⟩
      · exact .inl ⟨rfl, rfl⟩
    · cases acts
  | arrive j =>
    rw [act] at acts
    split at acts
    next waiting =>
      cases acts
      exact .inr ⟨_, .arrive j waiting.1 waiting.2, rfl⟩
    · cases acts
  | pass j =>
    rw [act] at acts
    split at acts
    next passing =>
      cases acts
      exact .inr ⟨_, .pass j passing.1 passing.2, rfl⟩
    · cases acts
  | enter j | start j | refuse j | finish j | settle j ok | reject j =>
    rw [act] at acts
    split at acts
    next phase =>
      cases acts
      right
      first
        | exact ⟨_, .enter j phase, rfl⟩
        | exact ⟨_, .start j phase, rfl⟩
        | exact ⟨_, .refuse j phase, rfl⟩
        | exact ⟨_, .finish j phase, rfl⟩
        | exact ⟨_, .settle j ok phase, rfl⟩
        | exact ⟨_, .reject j phase, rfl⟩
    · cases acts

theorem step_cases (steps : step s a = some s') :
    (∃ key signal aborted, a = .call key signal aborted ∧ s' = called s key signal aborted) ∨
      s' = s ∧ a.isOwn = false ∨
      ∃ i call phase, a.of = some i ∧ s.calls[i]? = some call ∧ Next s call a phase ∧
        s' = moved s i call phase := by
  cases a with
  | call key signal aborted =>
    cases steps
    exact .inl ⟨key, signal, aborted, rfl, rfl⟩
  | abort i | arrive i | enter i | start i | refuse i | finish i | settle i | reject i | pass i =>
    right
    change (s.calls[i]?).bind _ = some s' at steps
    cases found : s.calls[i]? with
    | none =>
      rw [found] at steps
      cases steps
    | some call =>
      rw [found, Option.bind_some] at steps
      exact (act_cases rfl steps).imp_right fun ⟨phase, next, same⟩ =>
        ⟨i, call, phase, rfl, found, next, same⟩

/-! ### What moves -/

@[simp] theorem moved_calls (s : Locks) (i : Nat) (call : Call) (phase : Phase) :
    (moved s i call phase).calls = s.calls.set i { call with phase } := by
  rw [moved]
  split
  · rw [release]
    split <;> rfl
  · rfl

theorem moved_pending (s : Locks) (i : Nat) (call : Call) (phase : Phase) :
    (moved s i call phase).pending =
      if phase.released ∧ s.pending.get? call.key = some i then s.pending.delete call.key
      else s.pending := by
  rw [moved]
  by_cases released : phase.released = true
  · rw [if_pos released, release]
    change (if s.pending.get? call.key = some i then _ else _ : Locks).pending = _
    split
    next last =>
      rw [if_pos ⟨released, last⟩]
      rfl
    next other =>
      rw [if_neg fun both => other both.2]
      rfl
  · rw [if_neg released, if_neg fun both => released both.1]
    rfl

theorem moved_get {i : Nat} {call : Call} (found : s.calls[i]? = some call) (phase : Phase)
    (j : Nat) : (moved s i call phase).calls[j]? =
      if i = j then some { call with phase } else s.calls[j]? := by
  rw [moved_calls, List.getElem?_set]
  have bound := (List.getElem?_eq_some_iff.mp found).1
  by_cases same : i = j
  · subst same
    rw [if_pos rfl, if_pos rfl, if_pos bound]
  · rw [if_neg same, if_neg same]

theorem next_released {call : Call} {phase : Phase} (next : Next s call a phase) :
    call.phase.released = false := by
  cases next with
  | abort _ h | arrive _ h | enter _ h | start _ h | refuse _ h | finish _ h | settle _ _ h
  | reject _ h | pass _ h => rw [h]; rfl

theorem moved_released {i : Nat} {call : Call} {phase : Phase} (found : s.calls[i]? = some call)
    (next : Next s call a phase) {p : Option Nat} (before : ended s p) :
    ended (moved s i call phase) p := by
  cases p with
  | none => rfl
  | some p =>
    rw [ended] at before ⊢
    rw [moved_get found]
    split
    next same =>
      subst same
      rw [found] at before
      simp only [Option.any_some] at before
      rw [next_released next] at before
      cases before
    · exact before

/-! ### The invariant -/

/-- A call whose turn has come, at some time. -/
def Phase.past : Phase → Bool
  | .waiting | .cancelled | .passing => false
  | _ => true

/-- Calls of the same line have the same key. -/
def SameLine (s : Locks) (j : Nat) (key : String) : Prop :=
  ∃ call, s.calls[j]? = some call ∧ call.key = key

def Released (s : Locks) (j : Nat) : Prop := ended s (some j)

structure Inv (s : Locks) : Prop where
  /-- A call waits for the one right before it; if for none, all before it have ended. -/
  previous : ∀ (i : Nat) (call : Call), s.calls[i]? = some call →
    match call.previous with
    | none => ∀ j < i, SameLine s j call.key → Released s j
    | some p => p < i ∧ SameLine s p call.key ∧ ∀ j, p < j → j < i → ¬SameLine s j call.key
  past : ∀ (i : Nat) (call : Call), s.calls[i]? = some call → call.phase.past → ended s call.previous
  /-- The map has the last call of every line that has not ended. -/
  last : ∀ key i, s.pending.get? key = some i →
    SameLine s i key ∧ ¬Released s i ∧ ∀ j, i < j → ¬SameLine s j key
  empty : ∀ key, s.pending.get? key = none → ∀ j, SameLine s j key → Released s j

theorem inv_start : Inv {} := by
  refine ⟨?_, ?_, ?_, ?_⟩
  · intro i call found
    cases found
  · intro i call found
    cases found
  · intro key i found
    cases found
  · rintro key - j ⟨call, found, _⟩
    cases found

theorem released_iff {j : Nat} {call : Call} (found : s.calls[j]? = some call) :
    Released s j ↔ call.phase.released = true := by
  rw [Released, ended, found]
  rfl

theorem released_past {phase : Phase} (released : phase.released = true) : phase.past = true := by
  cases phase with
  | settled | gone => rfl
  | waiting | turn | leasing | running | ending | cancelled | passing => cases released

theorem ahead_released (inv : Inv s) : ∀ {i : Nat} {call : Call}, s.calls[i]? = some call →
    ended s call.previous → ∀ j < i, SameLine s j call.key → Released s j := by
  intro i
  induction i using Nat.strongRecOn with
  | ind i ih =>
    intro call found ahead j before line
    have previous := inv.previous i call found
    cases isPrevious : call.previous with
    | none =>
      rw [isPrevious] at previous
      exact previous j before line
    | some p =>
      rw [isPrevious] at previous ahead
      obtain ⟨earlier, ⟨call', found', sameKey⟩, none_⟩ := previous
      rcases Nat.lt_trichotomy j p with less | same | more
      · have released := (released_iff found').mp ahead
        have ahead' := inv.past p call' found' (released_past released)
        rw [← sameKey] at line
        exact ih p earlier found' ahead' j less line
      · rw [same]
        exact ahead
      · exact absurd line (none_ j more before)

theorem sameLine_moved {i : Nat} {call : Call} (found : s.calls[i]? = some call) (phase : Phase)
    (j : Nat) (key : String) : SameLine (moved s i call phase) j key ↔ SameLine s j key := by
  rw [SameLine, SameLine, moved_get found]
  split
  next same =>
    subst same
    simp [found]
  · rfl

theorem next_past {call : Call} {phase : Phase} (next : Next s call a phase)
    (past : phase.past = true) : call.phase.past = true ∨ ended s call.previous := by
  cases next with
  | abort | reject => cases past
  | arrive _ _ ahead | pass _ _ ahead => exact .inr ahead
  | enter _ h | start _ h | refuse _ h | finish _ h | settle _ _ h =>
    left
    rw [h]
    rfl

theorem released_moved {i : Nat} {call : Call} (found : s.calls[i]? = some call) (phase : Phase)
    (j : Nat) : Released (moved s i call phase) j ↔
      if i = j then phase.released = true else Released s j := by
  rw [Released, ended, moved_get found]
  split
  · rfl
  · rfl

theorem next_ahead (inv : Inv s) {i : Nat} {call : Call} {phase : Phase}
    (found : s.calls[i]? = some call) (next : Next s call a phase) (past : phase.past = true) :
    ended s call.previous := by
  rcases next_past next past with already | ahead
  · exact inv.past i call found already
  · exact ahead

theorem moved_inv (inv : Inv s) {i : Nat} {call : Call} {phase : Phase}
    (found : s.calls[i]? = some call) (next : Next s call a phase) :
    Inv (moved s i call phase) := by
  have line := sameLine_moved found phase
  have kept : ∀ {p}, ended s p → ended (moved s i call phase) p := moved_released found next
  have own : SameLine s i call.key := ⟨call, found, rfl⟩
  refine ⟨?_, ?_, ?_, ?_⟩
  · intro j call' found'
    rw [moved_get found] at found'
    have before : ∃ old, s.calls[j]? = some old ∧ old.key = call'.key ∧
        old.previous = call'.previous := by
      split at found'
      next same =>
        cases found'
        exact ⟨call, same ▸ found, rfl, rfl⟩
      · exact ⟨call', found', rfl, rfl⟩
    obtain ⟨old, foundOld, sameKey, samePrevious⟩ := before
    have previous := inv.previous j old foundOld
    rw [← samePrevious, ← sameKey]
    simp only [line]
    cases isPrevious : old.previous with
    | none =>
      rw [isPrevious] at previous
      exact fun k before line => kept (previous k before line)
    | some p =>
      rw [isPrevious] at previous
      exact previous
  · intro j call' found' past
    rw [moved_get found] at found'
    split at found'
    next same =>
      cases found'
      exact kept (show ended s call.previous from next_ahead inv found next past)
    · exact kept (inv.past j call' found' past)
  · intro key j isLast
    rw [moved_pending] at isLast
    simp only [line, released_moved found]
    split at isLast
    next isOwn =>
      rw [Registry.get?_delete] at isLast
      split at isLast
      · cases isLast
      next differs =>
        obtain ⟨lineOf, waits, none_⟩ := inv.last key j isLast
        have other : i ≠ j := by
          rintro rfl
          obtain ⟨call', found', sameKey⟩ := lineOf
          rw [found] at found'
          cases found'
          exact differs sameKey
        rw [if_neg other]
        exact ⟨lineOf, waits, none_⟩
    next notOwn =>
      obtain ⟨lineOf, waits, none_⟩ := inv.last key j isLast
      refine ⟨lineOf, ?_, none_⟩
      split
      next same =>
        subst same
        obtain ⟨call', found', sameKey⟩ := lineOf
        rw [found] at found'
        cases found'
        rw [← sameKey] at isLast
        exact fun released => notOwn ⟨released, isLast⟩
      · exact waits
  · intro key isEmpty j lineOf
    rw [moved_pending] at isEmpty
    rw [line] at lineOf
    split at isEmpty
    next isOwn =>
      rw [Registry.get?_delete] at isEmpty
      split at isEmpty
      next sameKey =>
        -- the last call of the line ends, and with it the line
        obtain ⟨_, _, none_⟩ := inv.last call.key i isOwn.2
        rw [← sameKey] at lineOf
        rcases Nat.lt_trichotomy j i with before | same | after
        · exact kept (ahead_released inv found
            (next_ahead inv found next (released_past isOwn.1)) j before lineOf)
        · rw [released_moved found, if_pos same.symm]
          exact isOwn.1
        · exact absurd lineOf (none_ j after)
      · exact kept (inv.empty key isEmpty j lineOf)
    · exact kept (inv.empty key isEmpty j lineOf)

/-! ### A new call -/

theorem called_get (s : Locks) (key : String) (signal aborted : Bool) (j : Nat) :
    (called s key signal aborted).calls[j]? =
      if j = s.calls.length then
        some { key, previous := s.pending.get? key, signal,
               phase := if signal && aborted then .cancelled else .waiting }
      else s.calls[j]? := by
  rw [called, List.getElem?_append]
  rcases Nat.lt_trichotomy j s.calls.length with less | same | more
  · rw [if_pos less, if_neg (Nat.ne_of_lt less)]
  · subst same
    simp
  · rw [if_neg (Nat.not_lt_of_lt more), if_neg (Nat.ne_of_gt more),
      List.getElem?_eq_none (Nat.le_of_lt more), List.getElem?_eq_none]
    rw [List.length_singleton]
    omega

theorem sameLine_lt {j : Nat} {key : String} (line : SameLine s j key) : j < s.calls.length := by
  obtain ⟨call, found, _⟩ := line
  exact (List.getElem?_eq_some_iff.mp found).1

theorem sameLine_called (s : Locks) (key : String) (signal aborted : Bool) (j : Nat) (k : String) :
    SameLine (called s key signal aborted) j k ↔ j = s.calls.length ∧ key = k ∨ SameLine s j k := by
  rw [SameLine, called_get]
  by_cases same : j = s.calls.length
  · rw [if_pos same]
    have none_ : ¬SameLine s j k := fun line => Nat.ne_of_lt (sameLine_lt line) same
    simp [same, none_]
    exact fun line => absurd (same ▸ line) none_
  · rw [if_neg same]
    simp [same, SameLine]

theorem released_called (s : Locks) (key : String) (signal aborted : Bool) (j : Nat) :
    Released (called s key signal aborted) j ↔ Released s j := by
  rw [Released, Released, ended, ended, called_get]
  split
  next same =>
    rw [same, List.getElem?_eq_none (Nat.le_refl _)]
    cases signal <;> cases aborted <;> simp [Phase.released]
  · rfl

theorem ended_called (s : Locks) (key : String) (signal aborted : Bool) (p : Option Nat) :
    ended (called s key signal aborted) p = ended s p := by
  cases p with
  | none => rfl
  | some p => exact Bool.eq_iff_iff.mpr (released_called s key signal aborted p)

theorem called_inv (inv : Inv s) (key : String) (signal aborted : Bool) :
    Inv (called s key signal aborted) := by
  refine ⟨?_, ?_, ?_, ?_⟩
  · intro i call found
    simp only [sameLine_called, released_called]
    rw [called_get] at found
    split at found
    next same =>
      cases found
      simp only
      cases isLast : s.pending.get? key with
      | none =>
        intro j before line
        rcases line with ⟨isNew, _⟩ | line
        · exact absurd (isNew.trans same.symm) (Nat.ne_of_lt before)
        · exact inv.empty key isLast j line
      | some p =>
        obtain ⟨line, _, none_⟩ := inv.last key p isLast
        refine ⟨same ▸ sameLine_lt line, .inr line, fun j after before line' => ?_⟩
        rcases line' with ⟨isNew, _⟩ | line'
        · exact Nat.ne_of_lt before (isNew.trans same.symm)
        · exact none_ j after line'
    next notNew =>
      have previous := inv.previous i call found
      have bound := (List.getElem?_eq_some_iff.mp found).1
      cases isPrevious : call.previous with
      | none =>
        rw [isPrevious] at previous
        intro j before line
        rcases line with ⟨isNew, _⟩ | line
        · omega
        · exact previous j before line
      | some p =>
        rw [isPrevious] at previous
        obtain ⟨before, line, none_⟩ := previous
        refine ⟨before, .inr line, fun j after before' line' => ?_⟩
        rcases line' with ⟨isNew, _⟩ | line'
        · omega
        · exact none_ j after before' line'
  · intro i call found past
    rw [ended_called]
    rw [called_get] at found
    split at found
    · cases found
      revert past
      cases signal <;> cases aborted <;> simp [Phase.past]
    · exact inv.past i call found past
  · intro k i isLast
    simp only [sameLine_called, released_called]
    change (s.pending.set key s.calls.length).get? k = some i at isLast
    rw [Registry.get?_set] at isLast
    split at isLast
    next sameKey =>
      cases isLast
      refine ⟨.inl ⟨rfl, sameKey⟩, ?_, fun j after line => ?_⟩
      · rw [Released, ended, List.getElem?_eq_none (Nat.le_refl _)]
        simp
      · rcases line with ⟨isNew, _⟩ | line
        · omega
        · exact absurd (sameLine_lt line) (by omega)
    next differs =>
      obtain ⟨line, waits, none_⟩ := inv.last k i isLast
      refine ⟨.inr line, waits, fun j after line' => ?_⟩
      rcases line' with ⟨_, same⟩ | line'
      · exact differs same
      · exact none_ j after line'
  · intro k isEmpty j line
    rw [released_called]
    rw [sameLine_called] at line
    change (s.pending.set key s.calls.length).get? k = none at isEmpty
    rw [Registry.get?_set] at isEmpty
    split at isEmpty
    · cases isEmpty
    next differs =>
      rcases line with ⟨_, same⟩ | line
      · exact absurd same differs
      · exact inv.empty k isEmpty j line

theorem step_inv (inv : Inv s) (steps : step s a = some s') : Inv s' := by
  rcases step_cases steps with ⟨key, signal, aborted, _, rfl⟩ | ⟨rfl, _⟩ |
    ⟨i, call, phase, _, found, next, rfl⟩
  · exact called_inv inv key signal aborted
  · exact inv
  · exact moved_inv inv found next

theorem runs_inv {acts : List Act} (inv : Inv s) (runs : Runs s acts s') : Inv s' := by
  induction runs with
  | done => exact inv
  | step steps _ ih => exact ih (step_inv inv steps)

/-! ### Exclusion -/

def Phase.active (phase : Phase) : Bool := phase.past && !phase.released

theorem active_unique (inv : Inv s) {i j : Nat} {c d : Call} (foundI : s.calls[i]? = some c)
    (foundJ : s.calls[j]? = some d) (line : c.key = d.key) (activeI : c.phase.active = true)
    (activeJ : d.phase.active = true) : i = j := by
  -- of two, the earlier one would have been released before the turn of the other
  have earlier : ∀ {i j : Nat} {c d : Call}, s.calls[i]? = some c → s.calls[j]? = some d →
      c.key = d.key → c.phase.active = true → d.phase.active = true → ¬i < j := by
    intro i j c d foundI foundJ line activeI activeJ before
    rw [Phase.active, Bool.and_eq_true, Bool.not_eq_true'] at activeI activeJ
    have ahead := inv.past j d foundJ activeJ.1
    have released := ahead_released inv foundJ ahead i before ⟨c, foundI, line⟩
    rw [released_iff foundI, activeI.2] at released
    cases released
  rcases Nat.lt_trichotomy i j with before | same | after
  · exact absurd before (earlier foundI foundJ line activeI activeJ)
  · exact same
  · exact absurd after (earlier foundJ foundI line.symm activeJ activeI)

/-! ### What a run keeps -/

/-- Phases only go up. -/
def Phase.rank : Phase → Nat
  | .waiting => 0
  | .turn | .cancelled => 1
  | .leasing | .passing => 2
  | .running => 3
  | .ending => 4
  | .settled _ | .gone => 5

theorem next_rank {call : Call} {phase : Phase} (next : Next s call a phase) :
    call.phase.rank < phase.rank := by
  cases next with
  | abort _ h | arrive _ h | enter _ h | start _ h | refuse _ h | finish _ h | settle _ _ h
  | reject _ h | pass _ h => rw [h]; simp [Phase.rank]

def Phase.off : Phase → Bool
  | .cancelled | .passing | .gone => true
  | _ => false

theorem next_off {call : Call} {phase : Phase} (next : Next s call a phase)
    (off : call.phase.off = true) : phase.off = true := by
  cases next with
  | abort | reject | pass => rfl
  | arrive _ h | enter _ h | start _ h | refuse _ h | finish _ h | settle _ _ h =>
    rw [h] at off
    cases off

theorem step_get {i : Nat} {call : Call} (found : s.calls[i]? = some call)
    (steps : step s a = some s') : ∃ call', s'.calls[i]? = some call' ∧ call'.key = call.key ∧
      (call'.phase = call.phase ∨ Next s call a call'.phase ∧ a.of = some i) := by
  rcases step_cases steps with ⟨key, signal, aborted, _, rfl⟩ | ⟨rfl, _⟩ |
    ⟨j, moving, phase, isOf, found', next, rfl⟩
  · have bound := (List.getElem?_eq_some_iff.mp found).1
    refine ⟨call, ?_, rfl, .inl rfl⟩
    rw [called_get, if_neg (Nat.ne_of_lt bound), found]
  · exact ⟨call, found, rfl, .inl rfl⟩
  · rw [moved_get found']
    split
    next same =>
      subst same
      rw [found] at found'
      cases found'
      exact ⟨_, rfl, rfl, .inr ⟨next, isOf⟩⟩
    · exact ⟨call, found, rfl, .inl rfl⟩

theorem runs_get {acts : List Act} {i : Nat} {call : Call} (found : s.calls[i]? = some call)
    (runs : Runs s acts s') : ∃ call', s'.calls[i]? = some call' ∧ call'.key = call.key ∧
      call.phase.rank ≤ call'.phase.rank ∧
      (call.phase.off = true → call'.phase.off = true ∧ .start i ∉ acts) := by
  induction runs generalizing call with
  | done =>
    exact ⟨call, found, rfl, Nat.le_refl _, fun off => ⟨off, List.not_mem_nil⟩⟩
  | @step s mid s'' a acts steps _ ih =>
    obtain ⟨call', found', sameKey, moves⟩ := step_get found steps
    obtain ⟨call'', found'', sameKey', rank, off⟩ := ih found'
    have firstRank : call.phase.rank ≤ call'.phase.rank := by
      rcases moves with same | ⟨next, _⟩
      · exact Nat.le_of_eq (congrArg Phase.rank same.symm)
      · exact Nat.le_of_lt (next_rank next)
    refine ⟨call'', found'', sameKey'.trans sameKey, Nat.le_trans firstRank rank, fun isOff => ?_⟩
    have isOff' : call'.phase.off = true := by
      rcases moves with same | ⟨next, _⟩
      · rw [same]
        exact isOff
      · exact next_off next isOff
    refine ⟨(off isOff').1, fun member => ?_⟩
    rcases List.mem_cons.mp member with rfl | later
    · -- a call that was cancelled is not leasing
      change (s.calls[i]?).bind _ = some mid at steps
      rw [found, Option.bind_some, act] at steps
      split at steps
      next leasing =>
        rw [leasing] at isOff
        cases isOff
      · cases steps
    · exact (off isOff').2 later

theorem runs_split {before after : List Act} (runs : Runs s (before ++ a :: after) s') :
    ∃ mid mid', Runs s before mid ∧ step mid a = some mid' ∧ Runs mid' after s' := by
  induction before generalizing s with
  | nil =>
    cases runs with
    | step steps later => exact ⟨s, _, .done s, steps, later⟩
  | cons first before ih =>
    cases runs with
    | step steps later =>
      obtain ⟨mid, mid', early, steps', late⟩ := ih later
      exact ⟨mid, mid', .step steps early, steps', late⟩

theorem start_leasing {i : Nat} (steps : step s (.start i) = some s') :
    ∃ call, s.calls[i]? = some call ∧ call.phase = .leasing ∧ s' = moved s i call .running := by
  change (s.calls[i]?).bind _ = some s' at steps
  cases found : s.calls[i]? with
  | none =>
    rw [found] at steps
    cases steps
  | some call =>
    rw [found, Option.bind_some, act] at steps
    split at steps
    next leasing =>
      cases steps
      exact ⟨call, rfl, leasing, rfl⟩
    · cases steps

theorem runs_released {acts : List Act} {j : Nat} (released : Released s j)
    (runs : Runs s acts s') : Released s' j := by
  rw [Released, ended] at released
  cases found : s.calls[j]? with
  | none =>
    rw [found] at released
    cases released
  | some call =>
    rw [found] at released
    have isReleased : call.phase.released = true := released
    obtain ⟨call', found', _, rank, _⟩ := runs_get found runs
    rw [released_iff found']
    revert rank isReleased
    cases call.phase <;> cases call'.phase <;> simp [Phase.rank, Phase.released]

theorem starts_ordered (inv : Inv s) {before between after : List Act} {i j : Nat} {key : String}
    (runs : Runs s (before ++ .start i :: (between ++ .start j :: after)) s')
    (lineI : SameLine s' i key) (lineJ : SameLine s' j key) : i < j := by
  obtain ⟨mid, mid', early, startI, rest⟩ := runs_split runs
  obtain ⟨late, late', between_, startJ, rest'⟩ := runs_split rest
  obtain ⟨c, foundC, leasingC, rfl⟩ := start_leasing startI
  obtain ⟨d, foundD, leasingD, rfl⟩ := start_leasing startJ
  have invMid := runs_inv inv early
  have startedC : (moved mid i c .running).calls[i]? = some { c with phase := .running } := by
    rw [moved_get foundC, if_pos rfl]
  rcases Nat.lt_trichotomy i j with less | same | more
  · exact less
  · -- the same call cannot start twice
    subst same
    obtain ⟨c', foundC', _, rank, _⟩ := runs_get startedC between_
    rw [foundD] at foundC'
    cases foundC'
    rw [leasingD] at rank
    exact absurd rank (by simp [Phase.rank])
  · -- an earlier call has been released by then
    have bound : j < mid.calls.length :=
      Nat.lt_trans more (List.getElem?_eq_some_iff.mp foundC).1
    have foundJ := List.getElem?_eq_getElem bound
    obtain ⟨c', foundC', keyC, _⟩ := runs_get startedC rest
    obtain ⟨_, foundJ', keyJ, _⟩ := runs_get foundJ (.step startI rest)
    obtain ⟨_, isC, sameC⟩ := lineI
    obtain ⟨_, isJ, sameJ⟩ := lineJ
    rw [foundC'] at isC
    rw [foundJ'] at isJ
    cases isC
    cases isJ
    have line : SameLine mid j c.key := by
      refine ⟨_, foundJ, ?_⟩
      rw [← keyJ, sameJ, ← sameC, keyC]
    have ahead := invMid.past i c foundC (by rw [leasingC]; rfl)
    have released := ahead_released invMid foundC ahead j more line
    have released' := runs_released released (.step startI between_)
    rw [released_iff foundD, leasingD] at released'
    cases released'

/-! ### At rest -/

def Phase.closed : Phase → Bool
  | .settled _ => true
  | phase => phase.off

theorem rest_call (rest : AtRest s) {i : Nat} {call : Call} (found : s.calls[i]? = some call) :
    (call.phase = .waiting → ¬ended s call.previous) ∧ call.phase ≠ .turn ∧
      call.phase ≠ .cancelled ∧ (call.phase = .passing → ¬ended s call.previous) := by
  have still : ∀ a, a.isOwn → a.of = some i → act s i call a = none := by
    intro a own isOf
    have none_ := rest a own
    cases a with
    | call => cases own
    | arrive j | enter j | reject j | pass j =>
      cases isOf
      change (s.calls[i]?).bind _ = none at none_
      rwa [found, Option.bind_some] at none_
    | abort | start | refuse | finish | settle => cases own
  refine ⟨fun waiting ahead => ?_, fun turn => ?_, fun cancelled => ?_, fun passing ahead => ?_⟩
  · have none_ := still (.arrive i) rfl rfl
    rw [act, if_pos ⟨waiting, ahead⟩] at none_
    cases none_
  · have none_ := still (.enter i) rfl rfl
    rw [act, if_pos turn] at none_
    cases none_
  · have none_ := still (.reject i) rfl rfl
    rw [act, if_pos cancelled] at none_
    cases none_
  · have none_ := still (.pass i) rfl rfl
    rw [act, if_pos ⟨passing, ahead⟩] at none_
    cases none_

theorem previous_ended (inv : Inv s) {i : Nat} {call : Call} (found : s.calls[i]? = some call)
    (ahead : ∀ j < i, SameLine s j call.key → Released s j) : ended s call.previous := by
  have previous := inv.previous i call found
  cases isPrevious : call.previous with
  | none => rfl
  | some p =>
    rw [isPrevious] at previous
    exact ahead p previous.1 previous.2.1

theorem rest_released (inv : Inv s) (rest : AtRest s) {key : String} : ∀ {i : Nat},
    (∀ j ≤ i, ∀ call, s.calls[j]? = some call → call.key = key → call.phase.closed = true) →
    SameLine s i key → Released s i := by
  intro i
  induction i using Nat.strongRecOn with
  | ind i ih =>
    rintro closed ⟨call, found, sameKey⟩
    have ahead : ended s call.previous := by
      apply previous_ended inv found
      intro j before line
      rw [sameKey] at line
      exact ih j before (fun k below => closed k (Nat.le_trans below (Nat.le_of_lt before))) line
    have isClosed := closed i (Nat.le_refl i) call found sameKey
    have still := rest_call rest found
    rw [released_iff found]
    cases phase : call.phase with
    | settled | gone => rfl
    | cancelled => exact absurd phase still.2.2.1
    | passing => exact absurd ahead (still.2.2.2 phase)
    | waiting | turn | leasing | running | ending =>
      rw [phase] at isClosed
      cases isClosed

/-- Its turn has come: it is at its lease or its operation, or done with both. -/
def Phase.hadTurn : Phase → Bool
  | .leasing | .running | .ending | .settled _ => true
  | _ => false

theorem rest_turn (inv : Inv s) (rest : AtRest s) {i : Nat} {call : Call}
    (found : s.calls[i]? = some call) (notOff : call.phase.off = false)
    (closed : ∀ j < i, ∀ d, s.calls[j]? = some d → d.key = call.key → d.phase.closed = true) :
    call.phase.hadTurn = true := by
  have ahead : ended s call.previous := by
    apply previous_ended inv found
    intro j before line
    exact rest_released inv rest
      (fun k below => closed k (Nat.lt_of_le_of_lt below before)) line
  have still := rest_call rest found
  cases phase : call.phase with
  | waiting => exact absurd ahead (still.1 phase)
  | turn => exact absurd phase still.2.1
  | leasing | running | ending | settled => rfl
  | cancelled | passing | gone =>
    rw [phase] at notOff
    cases notOff

/-- How much a call can still do by itself. -/
def Phase.own : Phase → Nat
  | .waiting | .cancelled => 2
  | .turn | .passing => 1
  | _ => 0

def own (s : Locks) : Nat := (s.calls.map fun call => call.phase.own).sum

theorem next_own {call : Call} {phase : Phase} (next : Next s call a phase) (own : a.isOwn) :
    phase.own + 1 = call.phase.own := by
  cases next with
  | arrive _ h | enter _ h | reject _ h | pass _ h => rw [h]; rfl
  | abort | start | refuse | finish | settle => cases own

theorem sum_set {f : Call → Nat} {calls : List Call} {i : Nat} {call call' : Call}
    (found : calls[i]? = some call) :
    ((calls.set i call').map f).sum + f call = (calls.map f).sum + f call' := by
  induction calls generalizing i with
  | nil => cases found
  | cons first calls ih =>
    cases i with
    | zero =>
      cases found
      simp only [List.set_cons_zero, List.map_cons, List.sum_cons]
      omega
    | succ i =>
      have rest := ih (i := i) found
      simp only [List.set_cons_succ, List.map_cons, List.sum_cons]
      omega

theorem step_own (isOwn : a.isOwn) (steps : step s a = some s') : own s' + 1 = own s := by
  rcases step_cases steps with ⟨_, _, _, rfl, _⟩ | ⟨_, notOwn⟩ |
    ⟨i, call, phase, _, found, next, rfl⟩
  · cases isOwn
  · rw [isOwn] at notOwn
    cases notOwn
  · have less := next_own next isOwn
    have sum := @sum_set (fun call => call.phase.own) s.calls i call { call with phase } found
    rw [own, own, moved_calls]
    simp only at sum
    omega

theorem runs_own {acts : List Act} (isOwn : ∀ a ∈ acts, a.isOwn) (runs : Runs s acts s') :
    acts.length + own s' = own s := by
  induction runs with
  | done => exact Nat.zero_add _
  | step steps _ ih =>
    have first := step_own (isOwn _ List.mem_cons_self) steps
    have rest := ih fun a member => isOwn a (List.mem_cons_of_mem _ member)
    rw [List.length_cons]
    omega

/-! ### What has settled -/

/-- Its operation has started, or its lease was refused. -/
def Phase.late : Phase → Bool
  | .running | .ending | .settled _ => true
  | _ => false

theorem step_late {i : Nat} {call' : Call} (steps : step s a = some s')
    (found' : s'.calls[i]? = some call') (late : call'.phase.late = true) :
    (∃ call, s.calls[i]? = some call ∧ call.phase.late = true) ∨ a = .start i ∨ a = .refuse i := by
  rcases step_cases steps with ⟨key, signal, aborted, _, rfl⟩ | ⟨rfl, _⟩ |
    ⟨j, call, phase, isOf, found, next, rfl⟩
  · rw [called_get] at found'
    split at found'
    · cases found'
      revert late
      cases signal <;> cases aborted <;> simp [Phase.late]
    · exact .inl ⟨call', found', late⟩
  · exact .inl ⟨call', found', late⟩
  · rw [moved_get found] at found'
    split at found'
    next same =>
      subst same
      cases found'
      cases next with
      | abort | arrive | enter | reject | pass => cases late
      | finish _ h | settle _ _ h =>
        left
        exact ⟨call, found, by rw [h]; rfl⟩
      | start k =>
        cases isOf
        exact .inr (.inl rfl)
      | refuse k =>
        cases isOf
        exact .inr (.inr rfl)
    · exact .inl ⟨call', found', late⟩

theorem runs_late {acts : List Act} {i : Nat} {call' : Call} (runs : Runs s acts s')
    (found' : s'.calls[i]? = some call') (late : call'.phase.late = true) :
    (∃ call, s.calls[i]? = some call ∧ call.phase.late = true) ∨
      .start i ∈ acts ∨ .refuse i ∈ acts := by
  induction runs with
  | done => exact .inl ⟨call', found', late⟩
  | step steps _ ih =>
    rcases ih found' with ⟨call, found, isLate⟩ | started | refused
    · rcases step_late steps found isLate with before | rfl | rfl
      · exact .inl before
      · exact .inr (.inl List.mem_cons_self)
      · exact .inr (.inr List.mem_cons_self)
    · exact .inr (.inl (List.mem_cons_of_mem _ started))
    · exact .inr (.inr (List.mem_cons_of_mem _ refused))

/-! ### The main result -/

/-- The signal of a call fires before its turn: when the call is made, or while it waits. -/
def Fires (s : Locks) (i : Nat) : Act → Prop
  | .call _ signal aborted => signal = true ∧ aborted = true ∧ i = s.calls.length
  | .abort j => j = i ∧ ∃ call, s.calls[i]? = some call ∧ call.phase = .waiting
  | _ => False

theorem fires_off {i : Nat} (fires : Fires s i a) (steps : step s a = some s') :
    ∃ call, s'.calls[i]? = some call ∧ call.phase.off = true := by
  cases a with
  | call key signal aborted =>
    obtain ⟨isSignal, isAborted, isNew⟩ := fires
    cases steps
    refine ⟨_, (called_get s key signal aborted i).trans (if_pos isNew), ?_⟩
    rw [isSignal, isAborted]
    rfl
  | abort j =>
    obtain ⟨rfl, call, found, waiting⟩ := fires
    change (s.calls[j]?).bind _ = some s' at steps
    rw [found, Option.bind_some, act] at steps
    split at steps
    · cases steps
      refine ⟨{ call with phase := .cancelled }, ?_, rfl⟩
      exact (moved_get found .cancelled j).trans (if_pos rfl)
    · cases steps
  | arrive | enter | start | refuse | finish | settle | reject | pass => cases fires

/-- In any run: of the calls for one key at most one runs its operation, operations start in the
order of the calls, and a call whose signal fires before its turn never starts its own; what happens
without anything from outside ends; and then such a call has rejected, another one has had its turn
if all ahead of it have ended or were cancelled, and a key whose calls have all ended or were
cancelled is not in the map. A call that has settled started its operation or found no lease. -/
theorem serial_fair :
    (∀ (acts : List Act) (s : Locks) (i j : Nat) (c d : Call), Runs {} acts s →
      s.calls[i]? = some c → s.calls[j]? = some d → c.key = d.key →
      c.phase = .running → d.phase = .running → i = j) ∧
    (∀ (before between after : List Act) (s : Locks) (i j : Nat) (key : String),
      Runs {} (before ++ .start i :: (between ++ .start j :: after)) s →
      SameLine s i key → SameLine s j key → i < j) ∧
    (∀ (acts more : List Act) (s s' s'' : Locks) (i : Nat) (a : Act), Runs {} acts s →
      Fires s i a → step s a = some s' → Runs s' more s'' → .start i ∉ more ∧ (AtRest s'' →
        ∃ call, s''.calls[i]? = some call ∧ (call.phase = .passing ∨ call.phase = .gone))) ∧
    (∀ (acts more : List Act) (s s' : Locks), Runs {} acts s → (∀ a ∈ more, a.isOwn) →
      Runs s more s' → more.length ≤ own s) ∧
    (∀ (acts : List Act) (s : Locks) (i : Nat) (call : Call), Runs {} acts s → AtRest s →
      s.calls[i]? = some call → call.phase.off = false →
      (∀ j < i, ∀ d, s.calls[j]? = some d → d.key = call.key → d.phase.closed = true) →
      call.phase.hadTurn = true) ∧
    (∀ (acts : List Act) (s : Locks) (key : String), Runs {} acts s → AtRest s →
      (∀ (j : Nat) (d : Call), s.calls[j]? = some d → d.key = key → d.phase.closed = true) →
      s.pending.get? key = none) ∧
    ∀ (acts : List Act) (s : Locks) (i : Nat) (call : Call) (ok : Bool), Runs {} acts s →
      s.calls[i]? = some call → call.phase = .settled ok → .start i ∈ acts ∨ .refuse i ∈ acts := by
  have reached : ∀ {acts s}, Runs {} acts s → Inv s := runs_inv inv_start
  refine ⟨?_, ?_, ?_, ?_, ?_, ?_, ?_⟩
  · intro acts s i j c d runs foundI foundJ line runningI runningJ
    refine active_unique (reached runs) foundI foundJ line ?_ ?_
    · rw [runningI]
      rfl
    · rw [runningJ]
      rfl
  · intro before between after s i j key runs lineI lineJ
    exact starts_ordered inv_start runs lineI lineJ
  · intro acts more s s' s'' i a runs fires steps later
    obtain ⟨call, found, off⟩ := fires_off fires steps
    obtain ⟨call', found', _, _, stays⟩ := runs_get found later
    obtain ⟨off', notStarted⟩ := stays off
    refine ⟨notStarted, fun rest => ⟨call', found', ?_⟩⟩
    have still := rest_call rest found'
    cases phase : call'.phase with
    | passing => exact .inl rfl
    | gone => exact .inr rfl
    | cancelled => exact absurd phase still.2.2.1
    | waiting | turn | leasing | running | ending | settled =>
      rw [phase] at off'
      cases off'
  · intro acts more s s' _ isOwn later
    have length := runs_own isOwn later
    omega
  · intro acts s i call runs rest found notOff closed
    exact rest_turn (reached runs) rest found notOff closed
  · intro acts s key runs rest closed
    have inv := reached runs
    cases isLast : s.pending.get? key with
    | none => rfl
    | some i =>
      obtain ⟨line, waits, _⟩ := inv.last key i isLast
      exact absurd (rest_released inv rest (fun j _ d => closed j d) line) waits
  · intro acts s i call ok runs found settled
    rcases runs_late runs found (by rw [settled]; rfl) with ⟨_, none_, _⟩ | started
    · cases none_
    · exact started

/-- A call without a lease ends without its operation, though nothing is ahead of it. -/
theorem counter_refused :
    ¬∀ (acts : List Act) (s : Locks) (i : Nat) (call : Call) (ok : Bool), Runs {} acts s →
      s.calls[i]? = some call → call.phase = .settled ok → .start i ∈ acts := by
  intro started
  have runs := Runs.step (s := {}) (a := .call "/repository" false false) rfl
    (.step (a := .arrive 0) rfl (.step (a := .enter 0) rfl
      (.step (a := .refuse 0) rfl (.done _))))
  have member := started _ _ 0 _ false runs rfl rfl
  revert member
  decide

end Ace.Git.SerialLock
