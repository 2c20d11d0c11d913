import Ace.Properties.ExpirySifts
import Mathlib.Data.List.Perm.Subperm

/-!
# An expiring map is a finite map with a minimum

What such a map is for is said by a plain table of values with their expiries: every call gives what
the table gives and leaves the entries of the table it leaves (`Meets`). What an expiry gives up is
fixed only up to entries of one expiry, so that is stated as a relation.

## Main result

`run_refines`
-/

namespace Ace.ExpiryMap

open Script

variable {α τ : Type}

/-! ### The table -/

def Table (α τ : Type) : Type := String → Option (α × τ)

namespace Table

def empty : Table α τ := fun _ => none

def put (t : Table α τ) (key : String) (value : α) (expiresAt : τ) : Table α τ := fun k =>
  if k = key then some (value, expiresAt) else t k

def drop (t : Table α τ) (key : String) : Table α τ := fun k => if k = key then none else t k

def Has (t : Table α τ) (e : Entry α τ) : Prop := t e.key = some (e.value, e.expiresAt)

variable [LinearOrder τ]

/-- What an expiry may give when it is asked for up to `pulls` entries: entries that are due, the
earliest first, and all of them if it is asked for enough. -/
structure Expires (now : τ) (pulls : Nat) (t : Table α τ) (entries : List (Entry α τ))
    (t' : Table α τ) : Prop where
  sorted : entries.Pairwise (·.expiresAt ≤ ·.expiresAt)
  distinct : (entries.map (·.key)).Nodup
  held : ∀ e ∈ entries, t.Has e
  due : ∀ e ∈ entries, e.expiresAt ≤ now
  rest : ∀ k, t' k = if k ∈ entries.map (·.key) then none else t k
  earliest : ∀ k v x, t' k = some (v, x) → ∀ e ∈ entries, e.expiresAt ≤ x
  asked : entries.length ≤ pulls
  all : entries.length < pulls → ∀ k v x, t k = some (v, x) →
    (x ≤ now ↔ k ∈ entries.map (·.key))

/-- What a call may give and leave. -/
def Meets : Op α τ → Answer α τ → Table α τ → Table α τ → Prop
  | .set key value expiresAt, .done, t, t' => t' = t.put key value expiresAt
  | .delete key, .deleted value, t, t' => value = (t key).map Prod.fst ∧ t' = t.drop key
  | .clear, .done, _, t' => t' = empty
  | .expire now pulls, .expired entries, t, t' => Expires now pulls t entries t'
  | _, _, _, _ => False

/-- The tables that calls with these answers may lead to. -/
inductive Runs : Table α τ → List (Op α τ) → List (Answer α τ) → Table α τ → Prop
  | nil (t : Table α τ) : Runs t [] [] t
  | cons {t t' t'' : Table α τ} {op : Op α τ} {ops : List (Op α τ)} {answer : Answer α τ}
      {answers : List (Answer α τ)} (first : Meets op answer t t')
      (others : Runs t' ops answers t'') :
      Runs t (op :: ops) (answer :: answers) t''

end Table

/-! ### Calls -/

variable [LinearOrder τ]

structure Holds (m : ExpiryMap α τ) (t : Table α τ) : Prop where
  valid : Valid m
  mem : ∀ e, e ∈ m.heap ↔ t.Has e

variable {m : ExpiryMap α τ} {t : Table α τ}

theorem holds_empty : Holds ({} : ExpiryMap α τ) Table.empty where
  valid := valid_empty
  mem := by
    intro e
    constructor
    · intro member
      cases member
    · intro held
      cases held

theorem Holds.indexes_cases (holds : Holds m t) (key : String) :
    m.indexes.get? key = none ∧ t key = none ∨
      ∃ i e, m.indexes.get? key = some i ∧ m.heap[i]? = some e ∧ e.key = key ∧
        t key = some (e.value, e.expiresAt) := by
  cases known : m.indexes.get? key with
  | none =>
    refine .inl ⟨rfl, ?_⟩
    cases held : t key with
    | none => rfl
    | some pair =>
      have member := (holds.mem ⟨key, pair.1, pair.2⟩).mpr held
      obtain ⟨i, found⟩ := List.mem_iff_getElem?.mp member
      rw [holds.valid.exact.indexed i _ found] at known
      cases known
  | some i =>
    obtain ⟨e, found, named⟩ := holds.valid.exact.located key i known
    have held := (holds.mem e).mp (List.mem_of_getElem? found)
    rw [Table.Has, named] at held
    exact .inr ⟨i, e, rfl, found, named, held⟩

theorem get_spec (holds : Holds m t) (key : String) : m.get key = .ok ((t key).map Prod.fst) := by
  rcases holds.indexes_cases key with ⟨unknown, absent⟩ | ⟨i, e, known, found, _, held⟩
  · simp only [get, unknown, absent, Option.map_none]
  · simp only [get, known, entryAt_ok found, held, bind, Except.bind, pure, Except.pure,
      Option.map_some]

theorem deadline_spec (holds : Holds m t) (key : String) :
    m.deadline key = .ok ((t key).map Prod.snd) := by
  rcases holds.indexes_cases key with ⟨unknown, absent⟩ | ⟨i, e, known, found, _, held⟩
  · simp only [deadline, unknown, absent, Option.map_none]
  · simp only [deadline, known, entryAt_ok found, held, bind, Except.bind, pure, Except.pure,
      Option.map_some]

theorem Holds.dropped {m' : ExpiryMap α τ} (holds : Holds m t) (valid : Valid m') {key : String}
    (kept : ∀ f, f ∈ m'.heap ↔ f ∈ m.heap ∧ f.key ≠ key) : Holds m' (t.drop key) where
  valid := valid
  mem := by
    intro f
    rw [kept, holds.mem, Table.Has, Table.Has, Table.drop]
    split
    next same => simp [same]
    next other => simp [other]

theorem delete_spec (holds : Holds m t) (key : String) :
    ∃ m', m.delete key = .ok ((t key).map Prod.fst, m') ∧ Holds m' (t.drop key) := by
  rcases holds.indexes_cases key with ⟨unknown, absent⟩ | ⟨i, e, known, found, named, held⟩
  · refine ⟨m, by simp only [delete, unknown, absent, Option.map_none], ?_⟩
    have same : t.drop key = t := by
      funext k
      unfold Table.drop
      split
      next isKey => rw [isKey, absent]
      next => rfl
    rw [same]
    exact holds
  · obtain ⟨m', removed, valid, kept⟩ := remove_spec holds.valid found
    refine ⟨m', ?_, ?_⟩
    · simp only [delete, known, removed, held, bind, Except.bind, pure, Except.pure,
        Option.map_some]
    · rw [named] at kept
      exact holds.dropped valid kept

theorem set_spec (holds : Holds m t) (key : String) (value : α) (expiresAt : τ) :
    ∃ m', m.set key value expiresAt = .ok m' ∧ Holds m' (t.put key value expiresAt) := by
  obtain ⟨m', deleted, without⟩ := delete_spec holds key
  have fresh : ∀ f ∈ m'.heap, f.key ≠ key := by
    intro f member same
    have held := (without.mem f).mp member
    rw [Table.Has, Table.drop, if_pos same] at held
    cases held
  obtain ⟨m'', j, carried, valid, kept⟩ :=
    push_spec without.valid { key, value, expiresAt } fresh
  refine ⟨m'', ?_, valid, ?_⟩
  · simp only [set, deleted, carried, bind, Except.bind, pure, Except.pure]
  · intro f
    rw [kept, without.mem, Table.Has, Table.Has, Table.drop, Table.put]
    obtain ⟨k, v, x⟩ := f
    by_cases same : k = key
    · simp [same, eq_comm]
    · simp [same]

/-! ### Expiry -/

theorem root_spec (holds : Holds m t) {e : Entry α τ} (root : m.heap[0]? = some e) :
    t.Has e ∧ ∀ k v x, t k = some (v, x) → e.expiresAt ≤ x := by
  refine ⟨(holds.mem e).mp (List.mem_of_getElem? root), fun k v x held => ?_⟩
  have member := (holds.mem ⟨k, v, x⟩).mpr held
  obtain ⟨i, found⟩ := List.mem_iff_getElem?.mp member
  have first := holds.valid.ordered.root_le i
  rw [priority_some root, priority_some found] at first
  exact WithTop.coe_le_coe.mp first

/-- A generator that is asked once more: it is done when nothing is due, and else it gives an entry
that expires first, and takes it away. -/
theorem next_spec (holds : Holds m t) (now : τ) :
    (m.next now = .ok (none, m) ∧ ∀ k v x, t k = some (v, x) → now < x) ∨
      ∃ e m', m.next now = .ok (some e, m') ∧ e.expiresAt ≤ now ∧ t.Has e ∧
        (∀ k v x, t k = some (v, x) → e.expiresAt ≤ x) ∧ Holds m' (t.drop e.key) := by
  unfold next
  by_cases some' : 0 < m.heap.length
  · obtain ⟨e, root⟩ := exists_entry some'
    obtain ⟨held, first⟩ := root_spec holds root
    simp only [if_pos some', entryAt_ok root, bind, Except.bind]
    by_cases due : e.expiresAt ≤ now
    · obtain ⟨m', removed, valid, kept⟩ := remove_spec holds.valid root
      refine .inr ⟨e, m', ?_, due, held, first, holds.dropped valid kept⟩
      simp only [if_pos due, removed, pure, Except.pure]
    · refine .inl ⟨by rw [if_neg due]; rfl, fun k v x present => ?_⟩
      exact lt_of_lt_of_le (not_le.mp due) (first k v x present)
  · refine .inl ⟨by rw [if_neg some']; rfl, fun k v x present => ?_⟩
    have member := (holds.mem ⟨k, v, x⟩).mpr present
    rw [List.eq_nil_of_length_eq_zero (Nat.eq_zero_of_not_pos some')] at member
    cases member

theorem Table.Expires.none (now : τ) {pulls : Nat}
    (later : 0 < pulls → ∀ k v x, t k = some (v, x) → now < x) : t.Expires now pulls [] t where
  sorted := List.Pairwise.nil
  distinct := List.nodup_nil
  held := by
    intro e member
    cases member
  due := by
    intro e member
    cases member
  rest := fun k => by simp
  earliest := by
    intro k v x _ e member
    cases member
  asked := Nat.zero_le _
  all := by
    intro more k v x held
    constructor
    · intro due
      exact absurd (later more k v x held) (not_lt.mpr due)
    · intro member
      cases member

theorem Table.Expires.cons {now : τ} {pulls : Nat} {e : Entry α τ} {entries : List (Entry α τ)}
    {t' : Table α τ} (held : t.Has e) (due : e.expiresAt ≤ now)
    (first : ∀ k v x, t k = some (v, x) → e.expiresAt ≤ x)
    (rest : (t.drop e.key).Expires now pulls entries t') :
    t.Expires now (pulls + 1) (e :: entries) t' := by
  -- what comes later is another entry of the table
  have others : ∀ f ∈ entries, f.key ≠ e.key ∧ t.Has f := by
    intro f member
    have has := rest.held f member
    unfold Table.Has Table.drop at has
    split at has
    next => cases has
    next other => exact ⟨other, has⟩
  have after : ∀ f ∈ entries, e.expiresAt ≤ f.expiresAt := fun f member =>
    first f.key f.value f.expiresAt (others f member).2
  constructor
  · exact List.pairwise_cons.mpr ⟨after, rest.sorted⟩
  · rw [List.map_cons, List.nodup_cons]
    refine ⟨fun again => ?_, rest.distinct⟩
    obtain ⟨f, member, same⟩ := List.mem_map.mp again
    exact (others f member).1 same
  · intro f member
    rcases List.mem_cons.mp member with rfl | member
    · exact held
    · exact (others f member).2
  · intro f member
    rcases List.mem_cons.mp member with rfl | member
    · exact due
    · exact rest.due f member
  · intro k
    rw [rest.rest k, List.map_cons, Table.drop]
    by_cases same : k = e.key
    · simp [same]
    · simp [same]
  · intro k v x left f member
    rcases List.mem_cons.mp member with rfl | member
    · have present := rest.rest k
      rw [left] at present
      split at present
      next => cases present
      next =>
        unfold Table.drop at present
        split at present
        next => cases present
        next => exact first k v x present.symm
    · exact rest.earliest k v x left f member
  · exact Nat.succ_le_succ rest.asked
  · intro more k v x present
    rw [List.map_cons, List.mem_cons]
    by_cases same : k = e.key
    · rw [same, held, Option.some.injEq, Prod.mk.injEq] at present
      rw [← present.2]
      exact ⟨fun _ => .inl same, fun _ => due⟩
    · have left : t.drop e.key k = some (v, x) := by rw [Table.drop, if_neg same, present]
      rw [rest.all (Nat.lt_of_succ_lt_succ more) k v x left]
      exact ⟨.inr, fun found => found.resolve_left same⟩

theorem expire_spec (now : τ) (pulls : Nat) : ∀ {m : ExpiryMap α τ} {t : Table α τ}, Holds m t →
    ∃ entries m' t', m.expire now pulls = .ok (entries, m') ∧ Holds m' t' ∧
      t.Expires now pulls entries t' := by
  induction pulls with
  | zero =>
    intro m t holds
    exact ⟨[], m, t, rfl, holds, .none now fun more => absurd more (Nat.lt_irrefl 0)⟩
  | succ pulls ih =>
    intro m t holds
    rcases next_spec holds now with ⟨done, later⟩ | ⟨e, m', given, due, held, first, without⟩
    · refine ⟨[], m, t, ?_, holds, .none now fun _ => later⟩
      simp only [expire, done, bind, Except.bind, pure, Except.pure]
    · obtain ⟨entries, m'', t', more, holds', expires⟩ := ih without
      refine ⟨e :: entries, m'', t', ?_, holds', .cons held due first expires⟩
      simp only [expire, given, more, bind, Except.bind, pure, Except.pure]

/-! ### Runs -/

theorem step_spec (holds : Holds m t) (op : Op α τ) :
    ∃ answer m' t', m.step op = .ok (answer, m') ∧ Table.Meets op answer t t' ∧ Holds m' t' := by
  cases op with
  | set key value expiresAt =>
    obtain ⟨m', done, holds'⟩ := set_spec holds key value expiresAt
    exact ⟨.done, m', _, by simp only [step, done, bind, Except.bind, pure, Except.pure], rfl,
      holds'⟩
  | delete key =>
    obtain ⟨m', done, holds'⟩ := delete_spec holds key
    exact ⟨.deleted ((t key).map Prod.fst), m', _,
      by simp only [step, done, bind, Except.bind, pure, Except.pure], ⟨rfl, rfl⟩, holds'⟩
  | clear => exact ⟨.done, {}, Table.empty, rfl, rfl, holds_empty⟩
  | expire now pulls =>
    obtain ⟨entries, m', t', done, holds', expires⟩ := expire_spec now pulls holds
    exact ⟨.expired entries, m', t',
      by simp only [step, done, bind, Except.bind, pure, Except.pure], expires, holds'⟩

theorem run_holds (ops : List (Op α τ)) : ∀ {m : ExpiryMap α τ} {t : Table α τ}, Holds m t →
    ∃ answers m' t', m.run ops = .ok (answers, m') ∧ t.Runs ops answers t' ∧ Holds m' t' := by
  induction ops with
  | nil => exact fun {m t} holds => ⟨[], m, t, rfl, .nil t, holds⟩
  | cons op ops ih =>
    intro m t holds
    obtain ⟨answer, m', t', stepped, meets, holds'⟩ := step_spec holds op
    obtain ⟨answers, m'', t'', ran, runs, holds''⟩ := ih holds'
    refine ⟨answer :: answers, m'', t'', ?_, .cons meets runs, holds''⟩
    simp only [run, stepped, ran, bind, Except.bind, pure, Except.pure]

/-- What a map shows of the table it stands for. -/
structure Refines (m : ExpiryMap α τ) (t : Table α τ) : Prop where
  /-- The heap is a binary heap, the earliest expiry at its root. -/
  ordered : ∀ i above e, 0 < i → m.heap[(i - 1) / 2]? = some above → m.heap[i]? = some e →
    above.expiresAt ≤ e.expiresAt
  /-- Every key has the position of its entry. -/
  indexed : ∀ k i, m.indexes.get? k = some i ↔ ∃ e, m.heap[i]? = some e ∧ e.key = k
  /-- The heap holds every live key once. -/
  once : (m.heap.map (·.key)).Nodup
  live : ∀ k, k ∈ m.heap.map (·.key) ↔ (t k).isSome
  size : ∃ keys : List String, keys.Nodup ∧ (∀ k, k ∈ keys ↔ (t k).isSome) ∧ m.size = keys.length
  get : ∀ k, m.get k = .ok ((t k).map Prod.fst)
  deadline : ∀ k, m.deadline k = .ok ((t k).map Prod.snd)
  first : m.first = none ∧ (∀ k, t k = none) ∨
    ∃ e, m.first = some e ∧ t.Has e ∧ ∀ k v x, t k = some (v, x) → e.expiresAt ≤ x
  /-- An expiry that is asked for entries until it is done gives up those that are due. -/
  expire : ∀ now, ∃ entries m' t', m.expire now (m.size + 1) = .ok (entries, m') ∧
    t.Expires now (m.size + 1) entries t' ∧ entries.length ≤ m.size ∧ Holds m' t' ∧
    ∀ k v x, t' k = some (v, x) ↔ t k = some (v, x) ∧ now < x

theorem Holds.live (holds : Holds m t) (k : String) :
    k ∈ m.heap.map (·.key) ↔ (t k).isSome := by
  constructor
  · intro member
    obtain ⟨e, inHeap, named⟩ := List.mem_map.mp member
    have held := (holds.mem e).mp inHeap
    rw [← named, held]
    rfl
  · intro present
    obtain ⟨⟨v, x⟩, held⟩ := Option.isSome_iff_exists.mp present
    exact List.mem_map.mpr ⟨⟨k, v, x⟩, (holds.mem ⟨k, v, x⟩).mpr held, rfl⟩

theorem Holds.once (holds : Holds m t) : (m.heap.map (·.key)).Nodup := by
  rw [List.nodup_iff_getElem?_ne_getElem?]
  intro i j before inside same
  rw [List.length_map] at inside
  obtain ⟨e, atI⟩ := exists_entry (Nat.lt_trans before inside)
  obtain ⟨f, atJ⟩ := exists_entry inside
  rw [List.getElem?_map, List.getElem?_map, atI, atJ] at same
  exact Nat.ne_of_lt before (holds.valid.exact.same_place atI atJ (Option.some.inj same))

theorem expires_length (holds : Holds m t) {now : τ} {pulls : Nat} {entries : List (Entry α τ)}
    {t' : Table α τ} (expires : t.Expires now pulls entries t') : entries.length ≤ m.size := by
  have inside : entries.map (·.key) ⊆ m.heap.map (·.key) := by
    intro k member
    obtain ⟨e, among, named⟩ := List.mem_map.mp member
    exact List.mem_map.mpr ⟨e, (holds.mem e).mpr (expires.held e among), named⟩
  have shorter := (List.Nodup.subperm expires.distinct inside).length_le
  rwa [List.length_map, List.length_map] at shorter

theorem Table.Expires.left {now : τ} {pulls : Nat} {entries : List (Entry α τ)} {t' : Table α τ}
    (expires : t.Expires now pulls entries t') (done : entries.length < pulls) (k : String) (v : α)
    (x : τ) : t' k = some (v, x) ↔ t k = some (v, x) ∧ now < x := by
  rw [expires.rest k]
  constructor
  · intro present
    split at present
    next => cases present
    next other =>
      refine ⟨present, not_le.mp fun due => other ?_⟩
      exact (expires.all done k v x present).mp due
  · rintro ⟨present, later⟩
    rw [if_neg fun given => ?_]
    · exact present
    · exact absurd ((expires.all done k v x present).mpr given) (not_le.mpr later)

/-- What is left of a table once an expiry is done. -/
def Table.after (t : Table α τ) (now : τ) : Table α τ := fun k =>
  (t k).filter fun held => decide (now < held.2)

theorem Table.after_iff {now : τ} {k : String} {v : α} {x : τ} :
    t.after now k = some (v, x) ↔ t k = some (v, x) ∧ now < x := by
  rw [Table.after, Option.filter_eq_some_iff, decide_eq_true_iff]

theorem Table.ext_some {t' : Table α τ}
    (same : ∀ k v x, t' k = some (v, x) ↔ t k = some (v, x)) : t' = t := by
  funext k
  exact Option.ext fun held => same k held.1 held.2

theorem expire_all (holds : Holds m t) (now : τ) :
    ∃ entries m', m.expire now (m.size + 1) = .ok (entries, m') ∧ Holds m' (t.after now) ∧
      t.Expires now (m.size + 1) entries (t.after now) := by
  obtain ⟨entries, m', t', done, holds', expires⟩ := expire_spec now (m.size + 1) holds
  have drained := Nat.lt_succ_of_le (expires_length holds expires)
  have left : t' = t.after now := Table.ext_some fun k v x => by
    rw [expires.left drained, Table.after_iff]
  rw [left] at holds' expires
  exact ⟨entries, m', done, holds', expires⟩

theorem size_le {m' : ExpiryMap α τ} {t' : Table α τ} (holds : Holds m t) (holds' : Holds m' t')
    (extra : List String) (bounded : ∀ k, (t' k).isSome → k ∈ extra ∨ (t k).isSome) :
    m'.size ≤ extra.length + m.size := by
  have inside : m'.heap.map (·.key) ⊆ extra ++ m.heap.map (·.key) := by
    intro k member
    rw [List.mem_append, holds.live]
    exact bounded k ((holds'.live k).mp member)
  have shorter := (List.Nodup.subperm holds'.once inside).length_le
  rwa [List.length_append, List.length_map, List.length_map] at shorter

theorem Holds.refines (holds : Holds m t) : Refines m t where
  ordered := by
    intro i above e inner atParent here
    have order := holds.valid.ordered i inner
    rw [priority_some here, priority_some (i := Heap.parent i) atParent] at order
    exact WithTop.coe_le_coe.mp order
  indexed := by
    intro k i
    constructor
    · exact holds.valid.exact.located k i
    · rintro ⟨e, found, rfl⟩
      exact holds.valid.exact.indexed i e found
  once := holds.once
  live := holds.live
  size := ⟨m.heap.map (·.key), holds.once, holds.live, (List.length_map _).symm⟩
  get := get_spec holds
  deadline := deadline_spec holds
  first := by
    by_cases some' : 0 < m.heap.length
    · obtain ⟨e, root⟩ := exists_entry some'
      exact .inr ⟨e, root, root_spec holds root⟩
    · have empty := List.eq_nil_of_length_eq_zero (Nat.eq_zero_of_not_pos some')
      refine .inl ⟨by rw [first, empty]; rfl, fun k => ?_⟩
      have absent := mt (holds.live k).mpr (by rw [empty]; exact List.not_mem_nil)
      exact Option.not_isSome_iff_eq_none.mp absent
  expire := by
    intro now
    obtain ⟨entries, m', done, holds', expires⟩ := expire_all holds now
    exact ⟨entries, m', t.after now, done, expires, expires_length holds expires, holds',
      fun k v x => Table.after_iff⟩

/-- After any calls the map stands for the table that these calls lead to, and every call has given
what the table gives. A generator that is suspended between other calls expires with one pull at a
time. -/
theorem run_refines (ops : List (Op α τ)) :
    ∃ answers m t, run ({} : ExpiryMap α τ) ops = .ok (answers, m) ∧
      Table.empty.Runs ops answers t ∧ Refines m t := by
  obtain ⟨answers, m, t, ran, runs, holds⟩ := run_holds ops holds_empty
  exact ⟨answers, m, t, ran, runs, holds.refines⟩

end Ace.ExpiryMap
