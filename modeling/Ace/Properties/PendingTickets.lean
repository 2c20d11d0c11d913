import Ace.Daemon.TicketPool
import Ace.Properties.ExpiryRuns

/-!
# Pending tickets and their index

A pool stands for two tables: the tickets that are pending and the windows that are open. A call
changes them in one of a few ways (`Changes`), and the index of every device follows the tickets.

## Main result

`step_good`: a call keeps the pool good, and changes its tables in one of these ways.
-/

namespace Ace.TicketPool

open Script ExpiryMap

/-! ### The index -/

/-- The keys that the index has for a device. -/
def keysOf (owned : Registry (List String)) (deviceId : String) : List String :=
  (owned.get? deviceId).getD []

/-- The index has the keys of the tickets of every device, each once. -/
structure Indexed (owned : Registry (List String)) (t : Table Ticket ℚ) : Prop where
  exact : ∀ d key, key ∈ keysOf owned d ↔ ∃ v x, t key = some (v, x) ∧ v.deviceId = d
  nodup : ∀ d, (keysOf owned d).Nodup

theorem keysOf_set (owned : Registry (List String)) (d d' : String) (keys : List String) :
    keysOf (owned.set d keys) d' = if d = d' then keys else keysOf owned d' := by
  unfold keysOf
  rw [Registry.get?_set]
  split
  next => rfl
  next => rfl

theorem keysOf_delete (owned : Registry (List String)) (d d' : String) :
    keysOf (owned.delete d) d' = if d = d' then [] else keysOf owned d' := by
  unfold keysOf
  rw [Registry.get?_delete]
  split
  next => rfl
  next => rfl

theorem keysOf_disown (owned : Registry (List String)) (d key d' : String) :
    keysOf (disown owned d key) d' =
      if d = d' then removeFrom (keysOf owned d) key else keysOf owned d' := by
  unfold disown
  cases known : owned.get? d with
  | none =>
    have nothing : keysOf owned d = [] := by rw [keysOf, known]; rfl
    by_cases same : d = d'
    · rw [if_pos same, ← same, nothing]
      rfl
    · rw [if_neg same]
  | some keys =>
    have all : keysOf owned d = keys := by rw [keysOf, known]; rfl
    simp only [all]
    split
    next empty =>
      -- an empty set and none have the same keys
      rw [keysOf_delete, List.eq_nil_of_length_eq_zero empty]
    next => rw [keysOf_set]

theorem keysOf_disown_sublist (owned : Registry (List String)) (d key d' : String) :
    (keysOf (disown owned d key) d').Sublist (keysOf owned d') := by
  rw [keysOf_disown]
  split
  next same =>
    rw [← same]
    exact List.filter_sublist
  next => exact List.Sublist.refl _

theorem Indexed.disown {owned : Registry (List String)} {t : Table Ticket ℚ}
    (indexed : Indexed owned t) {key : String} {v : Ticket} {x : ℚ}
    (held : t key = some (v, x)) : Indexed (disown owned v.deviceId key) (t.drop key) where
  exact := by
    intro d k
    have before := indexed.exact d k
    rw [keysOf_disown]
    by_cases isKey : k = key
    · rw [isKey, Table.drop, if_pos rfl]
      constructor
      · intro member
        split at member
        next => exact absurd rfl (mem_removeFrom.mp member).2
        next other =>
          -- its ticket is another device's
          obtain ⟨v', x', held', named⟩ := (indexed.exact d key).mp member
          rw [held, Option.some.injEq, Prod.mk.injEq] at held'
          exact absurd (held'.1 ▸ named) other
      · rintro ⟨v', x', absent, _⟩
        cases absent
    · rw [Table.drop, if_neg isKey, ← before]
      split
      next same => rw [mem_removeFrom, same, and_iff_left isKey]
      next => rfl
  nodup := fun d => (keysOf_disown_sublist owned v.deviceId key d).nodup (indexed.nodup d)

theorem fold_disown (entries : List (ExpiryMap.Entry Ticket ℚ)) :
    ∀ {owned : Registry (List String)} {t : Table Ticket ℚ}, Indexed owned t →
    (entries.map (·.key)).Nodup → (∀ e ∈ entries, t.Has e) →
    Indexed (entries.foldl (fun owned e => TicketPool.disown owned e.value.deviceId e.key) owned)
      (fun k => if k ∈ entries.map (·.key) then none else t k) := by
  induction entries with
  | nil =>
    intro owned t indexed _ _
    simpa using indexed
  | cons e entries ih =>
    intro owned t indexed distinct held
    rw [List.map_cons, List.nodup_cons] at distinct
    have dropped := indexed.disown (held e List.mem_cons_self)
    have others : ∀ f ∈ entries, (t.drop e.key).Has f := by
      intro f member
      have apart : f.key ≠ e.key := by
        intro same
        rw [← same] at distinct
        exact distinct.1 (List.mem_map_of_mem member)
      rw [Table.Has, Table.drop, if_neg apart]
      exact held f (List.mem_cons_of_mem _ member)
    have rest := ih dropped distinct.2 others
    have same : (fun k => if k ∈ entries.map (·.key) then none else t.drop e.key k) =
        fun k => if k ∈ (e :: entries).map (·.key) then none else t k := by
      funext k
      rw [List.map_cons, Table.drop]
      by_cases isKey : k = e.key
      · simp [isKey]
      · simp [isKey]
    rw [same] at rest
    exact rest

theorem fold_disown_sublist (entries : List (ExpiryMap.Entry Ticket ℚ)) (d : String) :
    ∀ owned : Registry (List String),
    (keysOf (entries.foldl (fun owned e => TicketPool.disown owned e.value.deviceId e.key) owned)
      d).Sublist (keysOf owned d) := by
  induction entries with
  | nil => exact fun owned => List.Sublist.refl _
  | cons e entries ih =>
    intro owned
    exact (ih _).trans (keysOf_disown_sublist owned e.value.deviceId e.key d)

/-! ### The pool -/

/-- A pool stands for its tickets and its windows, within the limits. -/
structure Good (limits : TicketLimits) (pool : TicketPool) (t : Table Ticket ℚ)
    (r : Table Rate ℚ) : Prop where
  limited : pool.limits = limits
  tickets : Holds pool.tickets t
  rates : Holds pool.rates r
  indexed : Indexed pool.owned t
  quota : ∀ d, (keysOf pool.owned d).length ≤ limits.perDevice
  total : pool.tickets.size ≤ limits.global
  minute : ∀ d w x, r d = some (w, x) → w.resetsAt = x ∧ w.count ≤ limits.perMinute

/-- The tickets of all devices but one. -/
def without (t : Table Ticket ℚ) (deviceId : String) : Table Ticket ℚ := fun k =>
  (t k).filter fun held => decide (held.1.deviceId ≠ deviceId)

theorem without_iff {t : Table Ticket ℚ} {d k : String} {v : Ticket} {x : ℚ} :
    without t d k = some (v, x) ↔ t k = some (v, x) ∧ v.deviceId ≠ d := by
  rw [without, Option.filter_eq_some_iff, decide_eq_true_iff]

/-- What a call does to the tables. -/
inductive Changes (limits : TicketLimits) (t : Table Ticket ℚ) (r : Table Rate ℚ) :
    Call → Answer → Table Ticket ℚ → Table Rate ℚ → Prop
  | refused (key d g : String) (now : ℚ) (error : String) :
      Changes limits t r (.issue key d g now) (.issued (.refused error)) (t.after now) (r.after now)
  | opened (key d g : String) (now : ℚ) (closed : r.after now d = none)
      (room : 0 < limits.perMinute) :
      Changes limits t r (.issue key d g now) (.issued (.ticket (now + 60000)))
        ((t.after now).put key ⟨d, g, now + 60000⟩ (now + 60000))
        ((r.after now).put d ⟨1, now + 60000⟩ (now + 60000))
  | counted (key d g : String) (now : ℚ) {w : Rate} {x : ℚ} (opened : r.after now d = some (w, x))
      (room : w.count < limits.perMinute) :
      Changes limits t r (.issue key d g now) (.issued (.ticket (now + 60000)))
        ((t.after now).put key ⟨d, g, now + 60000⟩ (now + 60000))
        ((r.after now).put d ⟨w.count + 1, w.resetsAt⟩ w.resetsAt)
  | unknown (key : String) (now : ℚ) (absent : t.after now key = none) :
      Changes limits t r (.consume key now) (.consumed none) (t.after now) (r.after now)
  | consumed (key : String) (now : ℚ) {v : Ticket} {x : ℚ} (held : t.after now key = some (v, x)) :
      Changes limits t r (.consume key now) (.consumed (some ⟨v.deviceId, v.generation⟩))
        ((t.after now).drop key) (r.after now)
  | revoked (d : String) : Changes limits t r (.revoke d) .revoked (without t d) (r.drop d)

variable {limits : TicketLimits} {pool : TicketPool} {t : Table Ticket ℚ} {r : Table Rate ℚ}

theorem good_start : Good limits { limits } Table.empty Table.empty where
  limited := rfl
  tickets := holds_empty
  rates := holds_empty
  indexed := {
    exact := by
      intro d key
      constructor
      · intro member
        cases member
      · rintro ⟨v, x, held, _⟩
        cases held
    nodup := fun _ => List.nodup_nil }
  quota := fun _ => Nat.zero_le _
  total := Nat.zero_le _
  minute := by
    intro d w x held
    cases held

theorem evict_good (good : Good limits pool t r) (now : ℚ) :
    ∃ pool', pool.evict now = .ok pool' ∧ Good limits pool' (t.after now) (r.after now) := by
  obtain ⟨expired, tickets, doneT, holdsT, expires⟩ := expire_all good.tickets now
  obtain ⟨_, rates, doneR, holdsR, _⟩ := expire_all good.rates now
  have indexed := fold_disown expired good.indexed expires.distinct expires.held
  rw [← funext expires.rest] at indexed
  refine ⟨{ pool with
      tickets, rates
      owned := expired.foldl (fun owned e => disown owned e.value.deviceId e.key) pool.owned },
    ?_, good.limited, holdsT, holdsR, indexed, ?_, ?_, ?_⟩
  · simp only [evict, doneT, doneR, bind, Except.bind, pure, Except.pure]
  · intro d
    exact (fold_disown_sublist expired d pool.owned).length_le.trans (good.quota d)
  · have fewer : tickets.size ≤ ([] : List String).length + pool.tickets.size := by
      apply size_le good.tickets holdsT
      intro k present
      obtain ⟨⟨v, x⟩, held⟩ := Option.isSome_iff_exists.mp present
      rw [(Table.after_iff.mp held).1]
      exact .inr rfl
    rw [List.length_nil, Nat.zero_add] at fewer
    exact fewer.trans good.total
  · intro d w x held
    exact good.minute d w x (Table.after_iff.mp held).1

/-- What `issue` does once there is room: the ticket is added to a device whose window counts
`count` tickets before. -/
theorem grant_good (good : Good limits pool t r) {key d g : String} {now : ℚ}
    (fresh : t key = none) (room : pool.tickets.size < limits.global)
    (few : (keysOf pool.owned d).length < limits.perDevice) {rate : Rate}
    (counted : rate.count < limits.perMinute) :
    ∃ rates tickets,
      pool.rates.set d { rate with count := rate.count + 1 } rate.resetsAt = .ok rates ∧
      pool.tickets.set key ⟨d, g, now + 60000⟩ (now + 60000) = .ok tickets ∧
      Good limits
        { pool with
          tickets, rates
          owned := pool.owned.set d (addTo (keysOf pool.owned d) key) }
        (t.put key ⟨d, g, now + 60000⟩ (now + 60000))
        (r.put d { rate with count := rate.count + 1 } rate.resetsAt) := by
  obtain ⟨rates, setR, holdsR⟩ :=
    set_spec good.rates d { rate with count := rate.count + 1 } rate.resetsAt
  obtain ⟨tickets, setT, holdsT⟩ :=
    set_spec good.tickets key (⟨d, g, now + 60000⟩ : Ticket) (now + 60000)
  have new : key ∉ keysOf pool.owned d := by
    intro member
    obtain ⟨v, x, held, _⟩ := (good.indexed.exact d key).mp member
    rw [fresh] at held
    cases held
  have added : addTo (keysOf pool.owned d) key = keysOf pool.owned d ++ [key] := if_neg new
  refine ⟨rates, tickets, setR, setT, good.limited, holdsT, holdsR, ⟨?_, ?_⟩, ?_, ?_, ?_⟩
  · intro d' k
    rw [keysOf_set]
    by_cases isKey : k = key
    · rw [isKey, Table.put, if_pos rfl]
      split
      next same =>
        simp only [mem_addTo, or_true, true_iff]
        exact ⟨_, _, rfl, same⟩
      next other =>
        constructor
        · intro member
          obtain ⟨v, x, held, _⟩ := (good.indexed.exact d' key).mp member
          rw [fresh] at held
          cases held
        · rintro ⟨v, x, held, named⟩
          cases held
          exact absurd named other
    · rw [Table.put, if_neg isKey, ← good.indexed.exact d' k]
      split
      next same => rw [mem_addTo, or_iff_left isKey, same]
      next => rfl
  · intro d'
    rw [keysOf_set]
    split
    next =>
      rw [added, List.nodup_append]
      refine ⟨good.indexed.nodup d, by simp, ?_⟩
      intro k member k' last same
      rw [List.mem_singleton.mp last] at same
      exact new (same ▸ member)
    next => exact good.indexed.nodup d'
  · intro d'
    rw [keysOf_set]
    split
    next =>
      rw [added, List.length_append, List.length_singleton]
      exact few
    next => exact good.quota d'
  · have more : tickets.size ≤ [key].length + pool.tickets.size := by
      apply size_le good.tickets holdsT
      intro k present
      unfold Table.put at present
      split at present
      next same => exact .inl (List.mem_singleton.mpr same)
      next => exact .inr present
    rw [List.length_singleton, Nat.add_comm] at more
    exact more.trans room
  · intro d' w x held
    unfold Table.put at held
    split at held
    next =>
      cases held
      exact ⟨rfl, counted⟩
    next => exact good.minute d' w x held

theorem after_none {α : Type} {t : Table α ℚ} {key : String} (absent : t key = none) (now : ℚ) :
    t.after now key = none := by
  rw [Table.after, absent]
  rfl

theorem issue_good (good : Good limits pool t r) {key d g : String} {now : ℚ}
    (fresh : t key = none) :
    ∃ answer pool' t' r', pool.issue key d g now = .ok (answer, pool') ∧
      Changes limits t r (.issue key d g now) (.issued answer) t' r' ∧ Good limits pool' t' r' := by
  obtain ⟨pool', evicted, good'⟩ := evict_good good now
  have known := get_spec good'.rates d
  have gone := after_none fresh now
  simp only [issue, evicted, known, good'.limited, bind, Except.bind, pure, Except.pure]
  split
  next => exact ⟨_, _, _, _, rfl, .refused key d g now _, good'⟩
  next room =>
    split
    next => exact ⟨_, _, _, _, rfl, .refused key d g now _, good'⟩
    next few =>
      split
      next => exact ⟨_, _, _, _, rfl, .refused key d g now _, good'⟩
      next allowed =>
        have counted := fun reached => allowed (.inl reached)
        cases window : r.after now d with
        | none =>
          simp only [window, Option.map_none, Option.getD_none] at counted ⊢
          obtain ⟨rates, tickets, setR, setT, granted⟩ :=
            grant_good (g := g) good' gone (Nat.not_le.mp room) (Nat.not_le.mp few)
              (show (⟨0, now + 60000⟩ : Rate).count < _ from Nat.not_le.mp counted)
          rw [good'.limited] at granted
          simp only [setR]
          rw [setT]
          exact ⟨_, _, _, _, rfl, .opened key d g now window (Nat.not_le.mp counted), granted⟩
        | some held =>
          obtain ⟨w, x⟩ := held
          simp only [window, Option.map_some, Option.getD_some] at counted ⊢
          obtain ⟨rates, tickets, setR, setT, granted⟩ :=
            grant_good (g := g) good' gone (Nat.not_le.mp room) (Nat.not_le.mp few)
              (show w.count < _ from Nat.not_le.mp counted)
          rw [good'.limited] at granted
          simp only [setR]
          rw [setT]
          exact ⟨_, _, _, _, rfl, .counted key d g now window (Nat.not_le.mp counted), granted⟩

theorem consume_good (good : Good limits pool t r) (key : String) (now : ℚ) :
    ∃ holder pool' t', pool.consume key now = .ok (holder, pool') ∧
      Changes limits t r (.consume key now) (.consumed holder) t' (r.after now) ∧
      Good limits pool' t' (r.after now) := by
  obtain ⟨pool', evicted, good'⟩ := evict_good good now
  obtain ⟨tickets, deleted, holds⟩ := delete_spec good'.tickets key
  have fewer : tickets.size ≤ ([] : List String).length + pool'.tickets.size := by
    apply size_le good'.tickets holds
    intro k present
    unfold Table.drop at present
    split at present
    next => cases present
    next => exact .inr present
  rw [List.length_nil, Nat.zero_add] at fewer
  simp only [consume, evicted, deleted, bind, Except.bind, pure, Except.pure]
  cases held : t.after now key with
  | none =>
    simp only [Option.map_none]
    have same : (t.after now).drop key = t.after now := by
      funext k
      unfold Table.drop
      split
      next isKey => rw [isKey, held]
      next => rfl
    rw [same] at holds
    exact ⟨none, _, _, rfl, .unknown key now held,
      { good' with tickets := holds, total := fewer.trans good'.total }⟩
  | some pair =>
    obtain ⟨v, x⟩ := pair
    simp only [Option.map_some]
    refine ⟨_, _, _, rfl, .consumed key now held, good'.limited, holds, good'.rates,
      good'.indexed.disown held, ?_, fewer.trans good'.total, good'.minute⟩
    intro d
    exact (keysOf_disown_sublist pool'.owned v.deviceId key d).length_le.trans (good'.quota d)

theorem deleteAll_spec (keys : List String) : ∀ {tickets : ExpiryMap Ticket ℚ} {t : Table Ticket ℚ},
    Holds tickets t → ∃ tickets', deleteAll tickets keys = .ok tickets' ∧
      Holds tickets' (fun k => if k ∈ keys then none else t k) := by
  induction keys with
  | nil =>
    intro tickets t holds
    exact ⟨tickets, rfl, by simpa using holds⟩
  | cons key keys ih =>
    intro tickets t holds
    obtain ⟨tickets', deleted, dropped⟩ := delete_spec holds key
    obtain ⟨tickets'', rest, all⟩ := ih dropped
    have same : (fun k => if k ∈ keys then none else t.drop key k) =
        fun k => if k ∈ key :: keys then none else t k := by
      funext k
      rw [Table.drop]
      by_cases isKey : k = key
      · simp [isKey]
      · simp [isKey]
    rw [same] at all
    refine ⟨tickets'', ?_, all⟩
    simp only [deleteAll, deleted, rest, bind, Except.bind]

theorem revoke_good (good : Good limits pool t r) (d : String) :
    ∃ pool', pool.revoke d = .ok pool' ∧ Good limits pool' (without t d) (r.drop d) := by
  obtain ⟨tickets, deleted, holds⟩ := deleteAll_spec (keysOf pool.owned d) good.tickets
  obtain ⟨rates, forgotten, holdsR⟩ := delete_spec good.rates d
  -- the keys of the index are those of the tickets of the device
  have same : (fun k => if k ∈ keysOf pool.owned d then none else t k) = without t d := by
    apply Table.ext_some
    intro k v x
    rw [without_iff]
    constructor
    · intro held
      split at held
      next => cases held
      next missing =>
        exact ⟨held, fun named => missing ((good.indexed.exact d k).mpr ⟨v, x, held, named⟩)⟩
    · rintro ⟨held, other⟩
      rw [if_neg fun member => ?_]
      · exact held
      · obtain ⟨v', x', held', named⟩ := (good.indexed.exact d k).mp member
        rw [held, Option.some.injEq, Prod.mk.injEq] at held'
        exact other (held'.1 ▸ named)
  rw [same] at holds
  refine ⟨{ pool with tickets, rates, owned := pool.owned.delete d }, ?_, good.limited, holds,
    holdsR, ⟨?_, ?_⟩, ?_, ?_, ?_⟩
  · simp only [revoke, show (pool.owned.get? d).getD [] = keysOf pool.owned d from rfl, deleted,
      forgotten, bind, Except.bind, pure, Except.pure]
  · intro d' key
    rw [keysOf_delete]
    constructor
    · intro member
      split at member
      next => cases member
      next other =>
        obtain ⟨v, x, held, named⟩ := (good.indexed.exact d' key).mp member
        exact ⟨v, x, without_iff.mpr ⟨held, fun isD => other (isD.symm.trans named)⟩, named⟩
    · rintro ⟨v, x, held, named⟩
      obtain ⟨held, other⟩ := without_iff.mp held
      rw [if_neg fun isD => other (named.trans isD.symm)]
      exact (good.indexed.exact d' key).mpr ⟨v, x, held, named⟩
  · intro d'
    rw [keysOf_delete]
    split
    next => exact List.nodup_nil
    next => exact good.indexed.nodup d'
  · intro d'
    rw [keysOf_delete]
    split
    next => exact Nat.zero_le _
    next => exact good.quota d'
  · have fewer : tickets.size ≤ ([] : List String).length + pool.tickets.size := by
      apply size_le good.tickets holds
      intro k present
      obtain ⟨⟨v, x⟩, held⟩ := Option.isSome_iff_exists.mp present
      rw [(without_iff.mp held).1]
      exact .inr rfl
    rw [List.length_nil, Nat.zero_add] at fewer
    exact fewer.trans good.total
  · intro d' w x held
    unfold Table.drop at held
    split at held
    next => cases held
    next => exact good.minute d' w x held

theorem step_good (good : Good limits pool t r) (call : Call)
    (fresh : ∀ key d g now, call = .issue key d g now → t key = none) :
    ∃ answer pool' t' r', pool.step call = .ok (answer, pool') ∧
      Changes limits t r call answer t' r' ∧ Good limits pool' t' r' := by
  cases call with
  | issue key d g now =>
    obtain ⟨answer, pool', t', r', issued, changes, good'⟩ :=
      issue_good good (fresh key d g now rfl)
    refine ⟨.issued answer, pool', t', r', ?_, changes, good'⟩
    simp only [step, issued, bind, Except.bind, pure, Except.pure]
  | consume key now =>
    obtain ⟨holder, pool', t', consumed, changes, good'⟩ := consume_good good key now
    refine ⟨.consumed holder, pool', t', _, ?_, changes, good'⟩
    simp only [step, consumed, bind, Except.bind, pure, Except.pure]
  | revoke d =>
    obtain ⟨pool', revoked, good'⟩ := revoke_good good d
    refine ⟨.revoked, pool', _, _, ?_, .revoked d, good'⟩
    simp only [step, revoked, bind, Except.bind, pure, Except.pure]

end Ace.TicketPool
