import Ace.Properties.IdLayout
import Mathlib.Tactic.NormNum

/-!
# Ids strictly increase

A call takes over the clock when it is later than the generator's time, and counts on otherwise,
into the next millisecond when the counter overflows. Either way timestamp and counter go up.

## Main results

`ids_sound` and `ahead_of_largest`
-/

namespace Ace.TimeOrderedId

/-! ### Calls -/

def TakesOver (g : Generator) (reading : Reading) : Prop := g.lastMs < ⌊reading.clock⌋

def Overflows (g : Generator) (reading : Reading) : Prop :=
  ¬TakesOver g reading ∧ 0xfff < g.counter + 1

instance (g : Generator) (reading : Reading) : Decidable (TakesOver g reading) :=
  inferInstanceAs (Decidable (_ < _))

instance (g : Generator) (reading : Reading) : Decidable (Overflows g reading) :=
  inferInstanceAs (Decidable (_ ∧ _))

/-- How often the counter overflows in calls in turn. -/
def overflowCount (g : Generator) : List Reading → Nat
  | [] => 0
  | reading :: readings =>
    (if Overflows g reading then 1 else 0) + overflowCount (advance g reading) readings

def Later (g g' : Generator) : Prop :=
  g.lastMs < g'.lastMs ∨ g.lastMs = g'.lastMs ∧ g.counter < g'.counter

theorem Later.trans {g g' g'' : Generator} (first : Later g g') (second : Later g' g'') :
    Later g g'' := by
  unfold Later at *
  omega

theorem seed_lt (seed : List UInt8) :
    ((byteAt seed 0 <<< 8) ||| byteAt seed 1) &&& 0x7ff ≤ 0xfff := by
  rw [Nat.and_two_pow_sub_one_eq_mod _ 11]
  exact Nat.le_of_lt (Nat.lt_trans (Nat.mod_lt _ (by decide)) (by decide))

theorem advance_counter {g : Generator} (small : g.counter ≤ 0xfff) (reading : Reading) :
    (advance g reading).counter ≤ 0xfff := by
  unfold advance
  split
  next => exact seed_lt reading.seed
  next =>
    split
    next => exact Nat.zero_le _
    next fits => exact Nat.not_lt.mp fits

theorem advance_later (g : Generator) (reading : Reading) : Later g (advance g reading) := by
  unfold advance
  split
  next takes => exact .inl takes
  next =>
    split
    next => exact .inl (Int.lt_succ g.lastMs)
    next => exact .inr ⟨rfl, Nat.lt_succ_self _⟩

theorem advance_time (g : Generator) (reading : Reading) :
    (advance g reading).lastMs =
      if TakesOver g reading then ⌊reading.clock⌋
      else g.lastMs + if Overflows g reading then 1 else 0 := by
  unfold advance
  by_cases takes : TakesOver g reading
  · have clock : g.lastMs < ⌊reading.clock⌋ := takes
    rw [if_pos takes, if_pos clock]
  · have clock : ¬g.lastMs < ⌊reading.clock⌋ := takes
    rw [if_neg takes, if_neg clock]
    by_cases full : 0xfff < g.counter + 1
    · rw [if_pos full, if_pos ⟨takes, full⟩]
    · rw [if_neg full, if_neg fun overflows => full overflows.2, Int.add_zero]

theorem advance_above (g : Generator) (reading : Reading) :
    g.lastMs ≤ (advance g reading).lastMs ∧ ⌊reading.clock⌋ ≤ (advance g reading).lastMs := by
  have later := advance_later g reading
  refine ⟨?_, ?_⟩
  · unfold Later at later
    omega
  · rw [advance_time]
    split
    next => exact le_refl _
    next stays =>
      unfold TakesOver at stays
      split <;> omega

/-! ### Runs -/

theorem after_snoc (g : Generator) (readings : List Reading) (reading : Reading) :
    after g (readings ++ [reading]) = advance (after g readings) reading := by
  rw [after, List.foldl_append]
  rfl

theorem overflowCount_snoc (readings : List Reading) (reading : Reading) : ∀ g : Generator,
    overflowCount g (readings ++ [reading]) =
      overflowCount g readings + if Overflows (after g readings) reading then 1 else 0 := by
  induction readings with
  | nil => exact fun g => Nat.add_comm _ _
  | cons first readings ih =>
    intro g
    rw [List.cons_append, overflowCount, ih, overflowCount, Nat.add_assoc]
    rfl

theorem after_counter (readings : List Reading) : ∀ {g : Generator}, g.counter ≤ 0xfff →
    (after g readings).counter ≤ 0xfff := by
  induction readings with
  | nil => exact fun small => small
  | cons reading readings ih => exact fun small => ih (advance_counter small reading)

theorem after_above (readings : List Reading) : ∀ g : Generator,
    g.lastMs ≤ (after g readings).lastMs ∧
      ∀ reading ∈ readings, ⌊reading.clock⌋ ≤ (after g readings).lastMs := by
  induction readings with
  | nil =>
    intro g
    exact ⟨le_refl _, fun reading member => by cases member⟩
  | cons first readings ih =>
    intro g
    obtain ⟨kept, above⟩ := advance_above g first
    obtain ⟨keptRest, aboveRest⟩ := ih (advance g first)
    refine ⟨kept.trans keptRest, fun reading member => ?_⟩
    rcases List.mem_cons.mp member with rfl | member
    · exact above.trans keptRest
    · exact aboveRest reading member

/-- The time is the last reading that was taken over and the overflows since. -/
def SinceTakenOver (readings : List Reading) (time : Int) : Prop :=
  ∃ before reading inside, readings = before ++ reading :: inside ∧
    TakesOver (after {} before) reading ∧
    time = ⌊reading.clock⌋ + overflowCount (after {} (before ++ [reading])) inside

theorem after_since (readings : List Reading) (nonneg : ∀ r ∈ readings, 0 ≤ r.clock)
    (some' : readings ≠ []) : SinceTakenOver readings (after {} readings).lastMs := by
  induction readings using List.reverseRecOn with
  | nil => exact absurd rfl some'
  | append_singleton readings last ih =>
    rw [after_snoc, advance_time]
    split
    next takes => exact ⟨readings, last, [], rfl, takes, (Int.add_zero _).symm⟩
    next stays =>
      -- the first call of all takes over the clock
      have more : readings ≠ [] := by
        rintro rfl
        have first := nonneg last (List.mem_singleton_self last)
        have whole : (0 : Int) ≤ ⌊last.clock⌋ := Int.floor_nonneg.mpr first
        exact stays (lt_of_lt_of_le (by decide : (-1 : Int) < 0) whole)
      obtain ⟨before, reading, inside, rfl, takes, time⟩ :=
        ih (fun r member => nonneg r (List.mem_append_left _ member)) more
      refine ⟨before, reading, inside ++ [last], by simp, takes, ?_⟩
      have same : after (after {} (before ++ [reading])) inside =
          after {} (before ++ reading :: inside) := by
        rw [after, after, ← List.foldl_append, List.append_assoc, List.singleton_append]
        rfl
      rw [time, overflowCount_snoc, same, Nat.cast_add, Int.add_assoc]
      split <;> rfl

/-! ### Ids -/

theorem trace_getElem? (readings : List Reading) : ∀ {g : Generator} {k : Nat}
    {e : Except String String × Generator}, (trace g readings)[k]? = some e →
    e.2 = after g (readings.take (k + 1)) ∧ readings.take (k + 1) ≠ [] ∧
      ∃ tail, e.1 = formatUuidV7 e.2.lastMs e.2.counter tail := by
  induction readings with
  | nil =>
    intro g k e found
    cases found
  | cons reading readings ih =>
    intro g k e found
    cases k with
    | zero =>
      cases found
      exact ⟨rfl, List.cons_ne_nil _ _, reading.tail, rfl⟩
    | succ k =>
      obtain ⟨same, _, laid⟩ := ih found
      exact ⟨same, List.cons_ne_nil _ _, laid⟩

theorem trace_later (readings : List Reading) : ∀ {g : Generator}, g.counter ≤ 0xfff →
    ∀ e ∈ trace g readings, Later g e.2 ∧ e.2.counter ≤ 0xfff ∧
      ∃ tail, e.1 = formatUuidV7 e.2.lastMs e.2.counter tail := by
  induction readings with
  | nil =>
    intro g _ e member
    cases member
  | cons reading readings ih =>
    intro g small e member
    have step := advance_later g reading
    have small' := advance_counter small reading
    rcases List.mem_cons.mp member with rfl | member
    · exact ⟨step, small', reading.tail, rfl⟩
    · obtain ⟨later, bound, laid⟩ := ih small' e member
      exact ⟨step.trans later, bound, laid⟩

theorem id_lt {g g' : Generator} (later : Later g g') (start : 0 ≤ g.lastMs)
    (stop : g'.lastMs < 2 ^ 48) (small : g.counter ≤ 0xfff) (small' : g'.counter ≤ 0xfff)
    (tail tail' : List UInt8) :
    ∃ id id', formatUuidV7 g.lastMs g.counter tail = .ok id ∧
      formatUuidV7 g'.lastMs g'.counter tail' = .ok id' ∧ id < id' := by
  unfold Later at later
  obtain ⟨rest, _, laid⟩ := formatUuidV7_eq start (by omega) small tail
  obtain ⟨rest', _, laid'⟩ := formatUuidV7_eq (by omega) stop small' tail'
  exact ⟨_, _, laid, laid', layout_lt (by omega) small' (by omega)⟩

theorem trace_increasing (readings : List Reading) (nonneg : ∀ r ∈ readings, 0 ≤ r.clock) :
    ∀ {g : Generator}, g.counter ≤ 0xfff →
    (trace g readings).Pairwise fun e f => f.2.lastMs < 2 ^ 48 →
      ∃ id id', e.1 = .ok id ∧ f.1 = .ok id' ∧ id < id' := by
  induction readings with
  | nil => exact fun _ => List.Pairwise.nil
  | cons reading readings ih =>
    intro g small
    have small' := advance_counter small reading
    have whole : 0 ≤ ⌊reading.clock⌋ := Int.floor_nonneg.mpr (nonneg reading List.mem_cons_self)
    refine List.pairwise_cons.mpr ⟨?_, ih (fun r member => nonneg r (List.mem_cons_of_mem _ member))
      small'⟩
    intro f member stop
    obtain ⟨later, bound, tail, laid⟩ := trace_later readings small' f member
    rw [laid]
    exact id_lt later (whole.trans (advance_above g reading).2) stop small' bound reading.tail tail

/-- What a call gives after the readings so far, its own among them. -/
structure IdSound (soFar : List Reading) (e : Except String String × Generator) : Prop where
  id : e.2.lastMs < 2 ^ 48 → ∃ id time, e.1 = .ok id ∧ WellFormed id ∧
    uuidV7Time id = some time ∧ (time : Int) = e.2.lastMs
  above : ∀ reading ∈ soFar, ⌊reading.clock⌋ ≤ e.2.lastMs
  since : SinceTakenOver soFar e.2.lastMs

/-- However the clock goes, ids strictly increase as long as the generator's time fits its 48 bits.
That time, which an id is read back to, is no less than any reading so far, in whole milliseconds,
and ahead of the reading that was last taken over by the overflows since. -/
theorem ids_sound (readings : List Reading) (nonneg : ∀ r ∈ readings, 0 ≤ r.clock) :
    (∀ k e, (trace {} readings)[k]? = some e → IdSound (readings.take (k + 1)) e) ∧
      (trace {} readings).Pairwise fun e f => f.2.lastMs < 2 ^ 48 →
        ∃ id id', e.1 = .ok id ∧ f.1 = .ok id' ∧ id < id' := by
  refine ⟨fun k e found => ?_, trace_increasing readings nonneg (Nat.zero_le _)⟩
  obtain ⟨same, some', tail, laid⟩ := trace_getElem? readings found
  have nonneg' : ∀ r ∈ readings.take (k + 1), 0 ≤ r.clock :=
    fun r member => nonneg r (List.mem_of_mem_take member)
  obtain ⟨_, above⟩ := after_above (readings.take (k + 1)) {}
  rw [← same] at above
  have since := after_since _ nonneg' some'
  rw [← same] at since
  refine ⟨fun stop => ?_, above, since⟩
  obtain ⟨first, isFirst⟩ := List.exists_mem_of_ne_nil _ some'
  have whole : 0 ≤ ⌊first.clock⌋ := Int.floor_nonneg.mpr (nonneg' first isFirst)
  have start : 0 ≤ e.2.lastMs := whole.trans (above first isFirst)
  have small : e.2.counter ≤ 0xfff := by
    rw [same]
    exact after_counter _ (Nat.zero_le _)
  obtain ⟨rest, ending, shape⟩ := formatUuidV7_eq start stop small tail
  rw [shape] at laid
  exact ⟨_, e.2.lastMs.toNat, laid, wellFormed_layout ending,
    uuidV7Time_layout (by omega) ending, Int.toNat_of_nonneg start⟩

/-- Two ids of one millisecond. -/
theorem ids_sound_twice :
    (∀ k e, (trace {} [⟨5, [], []⟩, ⟨5, [], []⟩])[k]? = some e →
      IdSound (List.take (k + 1) [⟨5, [], []⟩, ⟨5, [], []⟩]) e) ∧
      (trace {} [⟨5, [], []⟩, ⟨5, [], []⟩]).Pairwise fun e f => f.2.lastMs < 2 ^ 48 →
        ∃ id id', e.1 = .ok id ∧ f.1 = .ok id' ∧ id < id' :=
  ids_sound [⟨5, [], []⟩, ⟨5, [], []⟩] (by simp)

/-! ### Ahead of the clock -/

theorem after_append (g : Generator) (first second : List Reading) :
    after g (first ++ second) = after (after g first) second := List.foldl_append

theorem after_still {reading : Reading} (count : Nat) : ∀ {g : Generator},
    ⌊reading.clock⌋ ≤ g.lastMs → g.counter + count ≤ 0xfff →
    after g (List.replicate count reading) = { g with counter := g.counter + count } := by
  induction count with
  | zero => exact fun _ _ => rfl
  | succ count ih =>
    intro g still fits
    have step : advance g reading = { g with counter := g.counter + 1 } := by
      rw [advance, if_neg (not_lt.mpr still), if_neg (by omega)]
    have rest := @ih { g with counter := g.counter + 1 } still
      (by rw [Nat.add_assoc, Nat.add_comm 1]; exact fits)
    rw [List.replicate_succ, after, List.foldl_cons, step, ← after, rest, Nat.add_assoc,
      Nat.add_comm 1]

theorem after_round {reading : Reading} {ms : Int} (still : ⌊reading.clock⌋ ≤ ms) :
    after { lastMs := ms, counter := 0 } (List.replicate (0xfff + 1) reading) =
      { lastMs := ms + 1, counter := 0 } := by
  have full : 0xfff < 0 + 0xfff + 1 := by decide
  rw [List.replicate_succ', after_snoc, after_still 0xfff still (by simp), advance,
    if_neg (not_lt.mpr still), if_pos full]

/-- The clock stands still until the counter has overflowed twice, and then goes on by one: the time
is ahead of the largest reading, although no counter has overflowed since. -/
theorem ahead_of_largest :
    ¬∀ (before inside : List Reading) (reading : Reading),
      (∀ r ∈ before ++ reading :: inside, 0 ≤ r.clock ∧ r.clock < 2 ^ 48) →
      (∀ r ∈ before ++ inside, r.clock < reading.clock) →
      (after {} (before ++ reading :: inside)).lastMs ≤
        ⌊reading.clock⌋ + overflowCount (after {} (before ++ [reading])) inside := by
  intro bounded
  have still : ⌊(⟨10, [], []⟩ : Reading).clock⌋ = 10 := Int.floor_ofNat 10
  have largest : ⌊(⟨11, [], []⟩ : Reading).clock⌋ = 11 := Int.floor_ofNat 11
  -- the first reading, and two rounds of the counter
  have first : after {} [⟨10, [], []⟩] = { lastMs := 10, counter := 0 } := by
    simp only [after, List.foldl_cons, List.foldl_nil, advance, still]
    decide
  have rounds : after {} ([⟨10, [], []⟩] ++ List.replicate (0xfff + 1) ⟨10, [], []⟩ ++
      List.replicate (0xfff + 1) ⟨10, [], []⟩) = { lastMs := 12, counter := 0 } := by
    rw [after_append, after_append, first, after_round (le_of_eq still),
      after_round (by rw [still]; decide)]
    rfl
  have time := bounded ([⟨10, [], []⟩] ++ List.replicate (0xfff + 1) ⟨10, [], []⟩ ++
    List.replicate (0xfff + 1) ⟨10, [], []⟩) [] ⟨11, [], []⟩ ?_ ?_
  · rw [after_snoc, rounds, advance, largest, if_neg (by decide), if_neg (by decide)] at time
    exact absurd time (by decide)
  · intro r member
    have clocks : r.clock = 10 ∨ r.clock = 11 := by
      simp only [List.mem_append, List.mem_replicate, List.mem_cons, List.not_mem_nil,
        or_false] at member
      rcases member with ((rfl | ⟨_, rfl⟩) | ⟨_, rfl⟩) | rfl
      · exact .inl rfl
      · exact .inl rfl
      · exact .inl rfl
      · exact .inr rfl
    rcases clocks with ten | eleven
    · rw [ten]
      norm_num
    · rw [eleven]
      norm_num
  · intro r member
    simp only [List.append_nil, List.mem_append, List.mem_singleton, List.mem_replicate] at member
    rcases member with (rfl | ⟨_, rfl⟩) | ⟨_, rfl⟩ <;> norm_num

end Ace.TimeOrderedId
