import Ace.Core.ExpiryMap
import Ace.Script.Heap
import Mathlib.Order.WithBot

/-!
# The heap of an expiring map

Entries change places only in pairs, and the positions follow them (`Shuffled`). What is pushed
needs carrying up; what takes the place of a removed entry may have to go either way.

## Main results

`remove_spec` and `push_spec`: the order of the entries and the exact positions are kept, and one
entry goes or comes.
-/

namespace Ace.ExpiryMap

open Script

variable {α τ : Type}

/-! ### Positions -/

/-- The positions are those of the entries. -/
structure Exact (m : ExpiryMap α τ) : Prop where
  indexed : ∀ i e, m.heap[i]? = some e → m.indexes.get? e.key = some i
  located : ∀ k i, m.indexes.get? k = some i → ∃ e, m.heap[i]? = some e ∧ e.key = k

theorem Exact.same_place {m : ExpiryMap α τ} (exact : Exact m) {i j : Nat} {e f : Entry α τ}
    (first : m.heap[i]? = some e) (second : m.heap[j]? = some f) (same : e.key = f.key) :
    i = j := by
  have left := exact.indexed i e first
  rw [same, exact.indexed j f second] at left
  exact (Option.some.inj left).symm

theorem entryAt_ok {m : ExpiryMap α τ} {i : Nat} {e : Entry α τ} (found : m.heap[i]? = some e) :
    m.entryAt i = .ok e := by
  rw [entryAt, found]

theorem exists_entry {m : ExpiryMap α τ} {i : Nat} (inside : i < m.heap.length) :
    ∃ e, m.heap[i]? = some e := ⟨m.heap[i], List.getElem?_eq_getElem inside⟩

structure Shuffled (m m' : ExpiryMap α τ) : Prop where
  exact : Exact m'
  length : m'.heap.length = m.heap.length
  mem : ∀ e, e ∈ m'.heap ↔ e ∈ m.heap

theorem Shuffled.refl {m : ExpiryMap α τ} (exact : Exact m) : Shuffled m m :=
  ⟨exact, rfl, fun _ => Iff.rfl⟩

theorem Shuffled.trans {m m' m'' : ExpiryMap α τ} (first : Shuffled m m')
    (second : Shuffled m' m'') : Shuffled m m'' where
  exact := second.exact
  length := second.length.trans first.length
  mem := fun e => (second.mem e).trans (first.mem e)

/-! ### Changing places -/

theorem getElem?_swapped {entries : List (Entry α τ)} {l r : Nat} {a b : Entry α τ}
    (left : entries[l]? = some a) (right : entries[r]? = some b) (i : Nat) :
    ((entries.set l b).set r a)[i]? = Heap.exchange (entries[·]?) l r i := by
  have leftInside := (List.getElem?_eq_some_iff.mp left).1
  have rightInside := (List.getElem?_eq_some_iff.mp right).1
  by_cases atR : i = r
  · rw [atR, List.getElem?_set_self (by rwa [List.length_set]), Heap.exchange_right, left]
  by_cases atL : i = l
  · rw [List.getElem?_set_ne (Ne.symm atR), atL, List.getElem?_set_self leftInside,
      Heap.exchange_left, right]
  · rw [List.getElem?_set_ne (Ne.symm atR), List.getElem?_set_ne (Ne.symm atL),
      Heap.exchange_other _ atL atR]

theorem exists_exchange {β : Type} (at' : Nat → β) (l r : Nat) (x : β) :
    (∃ i, Heap.exchange at' l r i = x) ↔ ∃ i, at' i = x := by
  constructor
  · rintro ⟨i, found⟩
    unfold Heap.exchange at found
    split at found
    next => exact ⟨r, found⟩
    next =>
      split at found
      next => exact ⟨l, found⟩
      next => exact ⟨i, found⟩
  · rintro ⟨i, found⟩
    by_cases atL : i = l
    · exact ⟨r, by rw [Heap.exchange_right, ← atL, found]⟩
    by_cases atR : i = r
    · exact ⟨l, by rw [Heap.exchange_left, ← atR, found]⟩
    · exact ⟨i, by rw [Heap.exchange_other _ atL atR, found]⟩

/-- The priority of a position: past the end it is above all expiries. -/
def priority (m : ExpiryMap α τ) (i : Nat) : WithTop τ :=
  match m.heap[i]? with
  | some e => (e.expiresAt : WithTop τ)
  | none => ⊤

theorem priority_some {m : ExpiryMap α τ} {i : Nat} {e : Entry α τ} (found : m.heap[i]? = some e) :
    m.priority i = (e.expiresAt : WithTop τ) := by
  rw [priority, found]

theorem priority_none {m : ExpiryMap α τ} {i : Nat} (outside : m.heap.length ≤ i) :
    m.priority i = ⊤ := by
  rw [priority, List.getElem?_eq_none outside]

theorem swap_spec {m : ExpiryMap α τ} (exact : Exact m) {l r : Nat} {a b : Entry α τ}
    (left : m.heap[l]? = some a) (right : m.heap[r]? = some b) (apart : l ≠ r) :
    ∃ m', m.swap l r = .ok m' ∧ Shuffled m m' ∧ m'.priority = Heap.exchange m.priority l r := by
  have names : a.key ≠ b.key := fun same => apart (exact.same_place left right same)
  refine ⟨{ heap := (m.heap.set l b).set r a
            indexes := (m.indexes.set a.key r).set b.key l }, ?_, ⟨⟨?_, ?_⟩, ?_, ?_⟩, ?_⟩
  · simp only [swap, entryAt_ok left, entryAt_ok right, bind, Except.bind, pure, Except.pure]
  · intro i e found
    simp only [getElem?_swapped left right] at found
    rw [Registry.get?_set, Registry.get?_set]
    by_cases atL : i = l
    · rw [atL, Heap.exchange_left, right, Option.some.injEq] at found
      rw [← found, if_pos rfl, atL]
    by_cases atR : i = r
    · rw [atR, Heap.exchange_right, left, Option.some.injEq] at found
      rw [← found, if_neg (Ne.symm names), if_pos rfl, atR]
    · rw [Heap.exchange_other _ atL atR] at found
      rw [if_neg fun same => atR (exact.same_place found right same.symm),
        if_neg fun same => atL (exact.same_place found left same.symm)]
      exact exact.indexed i e found
  · intro k i known
    simp only [getElem?_swapped left right]
    rw [Registry.get?_set, Registry.get?_set] at known
    split at known
    next isB =>
      cases known
      exact ⟨b, by rw [Heap.exchange_left, right], isB⟩
    next notB =>
      split at known
      next isA =>
        cases known
        exact ⟨a, by rw [Heap.exchange_right, left], isA⟩
      next notA =>
        -- the entry of any other key stays where it is
        obtain ⟨e, found, named⟩ := exact.located k i known
        have notL : i ≠ l := by
          rintro rfl
          exact notA (by rw [← named, Option.some.inj (left.symm.trans found)])
        have notR : i ≠ r := by
          rintro rfl
          exact notB (by rw [← named, Option.some.inj (right.symm.trans found)])
        exact ⟨e, by rw [Heap.exchange_other _ notL notR, found], named⟩
  · simp only [List.length_set]
  · intro e
    simp only [List.mem_iff_getElem?, getElem?_swapped left right]
    exact exists_exchange (m.heap[·]?) l r (some e)
  · funext i
    simp only [priority, getElem?_swapped left right]
    by_cases atL : i = l
    · simp only [atL, Heap.exchange_left, priority]
    by_cases atR : i = r
    · simp only [atR, Heap.exchange_right, priority]
    · rw [Heap.exchange_other _ atL atR, Heap.exchange_other _ atL atR, priority]

/-! ### Sifting -/

variable [LinearOrder τ]

theorem up_root (m : ExpiryMap α τ) : m.up 0 = .ok (m, 0) := by
  rw [up]
  rfl

theorem up_inner {m : ExpiryMap α τ} {i : Nat} (inner : 0 < i) {above e : Entry α τ}
    (atParent : m.heap[Heap.parent i]? = some above) (here : m.heap[i]? = some e) :
    m.up i = if above.expiresAt ≤ e.expiresAt then .ok (m, i)
      else m.swap (Heap.parent i) i >>= fun m' => m'.up (Heap.parent i) := by
  rw [up, if_pos inner]
  simp only [show (i - 1) / 2 = Heap.parent i from rfl, entryAt_ok atParent, entryAt_ok here, bind,
    Except.bind, pure, Except.pure]

theorem climb_spec {m : ExpiryMap α τ} (exact : Exact m) {i : Nat} (inner : 0 < i)
    {above e : Entry α τ} (atParent : m.heap[Heap.parent i]? = some above)
    (here : m.heap[i]? = some e) (before : e.expiresAt < above.expiresAt)
    (around : Heap.Around m.priority i) :
    ∃ m', m.swap (Heap.parent i) i = .ok m' ∧ Shuffled m m' ∧
      Heap.Upward m'.priority (Heap.parent i) ∧ Heap.parent i < m'.heap.length := by
  have higher := Heap.parent_lt inner
  obtain ⟨m', swapped, moved, exchanged⟩ := swap_spec exact atParent here (Nat.ne_of_lt higher)
  have earlier : m.priority i < m.priority (Heap.parent i) := by
    rw [priority_some atParent, priority_some here]
    exact WithTop.coe_lt_coe.mpr before
  have climbs : Heap.Upward m'.priority (Heap.parent i) := by
    rw [exchanged]
    exact around.climb inner earlier
  have room : Heap.parent i < m'.heap.length := by
    rw [moved.length]
    exact (List.getElem?_eq_some_iff.mp atParent).1
  exact ⟨m', swapped, moved, climbs, room⟩

theorem up_upward (i : Nat) : ∀ {m : ExpiryMap α τ}, Exact m → i < m.heap.length →
    Heap.Upward m.priority i →
    ∃ m' j, m.up i = .ok (m', j) ∧ Shuffled m m' ∧ Heap.Ordered m'.priority ∧
      j < m'.heap.length := by
  induction i using Nat.strongRecOn with
  | ind i ih =>
    intro m exact inside upward
    by_cases inner : 0 < i
    · have higher := Heap.parent_lt inner
      obtain ⟨above, atParent⟩ := exists_entry (Nat.lt_trans higher inside)
      obtain ⟨e, here⟩ := exists_entry inside
      rw [up_inner inner atParent here]
      split
      next settled =>
        refine ⟨m, i, rfl, .refl exact, upward.placed fun _ => ?_, inside⟩
        rw [priority_some atParent, priority_some here]
        exact WithTop.coe_le_coe.mpr settled
      next before =>
        obtain ⟨m', swapped, moved, climbs, room⟩ :=
          climb_spec exact inner atParent here (not_le.mp before) upward.toAround
        obtain ⟨m'', j, carried, shuffled, ordered, stays⟩ :=
          ih _ higher moved.exact room climbs
        rw [swapped]
        exact ⟨m'', j, carried, moved.trans shuffled, ordered, stays⟩
    · rw [Nat.eq_zero_of_not_pos inner] at inside upward ⊢
      have placed := upward.placed fun inner => absurd inner (Nat.lt_irrefl 0)
      exact ⟨m, 0, up_root m, .refl exact, placed, inside⟩

theorem up_around {m : ExpiryMap α τ} {i : Nat} (exact : Exact m) (inside : i < m.heap.length)
    (around : Heap.Around m.priority i) :
    ∃ m' j, m.up i = .ok (m', j) ∧ Shuffled m m' ∧ Heap.Downward m'.priority j ∧
      j < m'.heap.length := by
  by_cases inner : 0 < i
  · obtain ⟨above, atParent⟩ := exists_entry (Nat.lt_trans (Heap.parent_lt inner) inside)
    obtain ⟨e, here⟩ := exists_entry inside
    rw [up_inner inner atParent here]
    split
    next settled =>
      refine ⟨m, i, rfl, .refl exact, ⟨around, fun _ => ?_⟩, inside⟩
      rw [priority_some atParent, priority_some here]
      exact WithTop.coe_le_coe.mpr settled
    next before =>
      -- once it has moved up, only entries above it can be out of order with it
      obtain ⟨m', swapped, moved, climbs, room⟩ :=
        climb_spec exact inner atParent here (not_le.mp before) around
      obtain ⟨m'', j, carried, shuffled, ordered, stays⟩ := up_upward _ moved.exact room climbs
      rw [swapped]
      exact ⟨m'', j, carried, moved.trans shuffled, ordered.downward j, stays⟩
  · rw [Nat.eq_zero_of_not_pos inner] at inside around ⊢
    have down : Heap.Downward m.priority 0 :=
      ⟨around, fun inner => absurd inner (Nat.lt_irrefl 0)⟩
    exact ⟨m, 0, up_root m, .refl exact, down, inside⟩

theorem child_spec {m : ExpiryMap α τ} {i : Nat} (inside : i * 2 + 1 < m.heap.length) :
    ∃ c e, m.child i = .ok c ∧ m.heap[c]? = some e ∧ 0 < c ∧ Heap.parent c = i ∧
      ∀ j, 0 < j → Heap.parent j = i → m.priority c ≤ m.priority j := by
  obtain ⟨first, atFirst⟩ := exists_entry inside
  -- either child is compared with both
  have least : ∀ c, m.priority c ≤ m.priority (i * 2 + 1) →
      m.priority c ≤ m.priority (i * 2 + 1 + 1) →
      ∀ j, 0 < j → Heap.parent j = i → m.priority c ≤ m.priority j := by
    intro c left right j inner below
    have cases := Heap.child_cases inner
    rw [below] at cases
    rcases cases with isFirst | isSecond
    · rwa [isFirst]
    · rwa [isSecond]
  unfold child
  split
  next two =>
    obtain ⟨second, atSecond⟩ := exists_entry two
    simp only [entryAt_ok atFirst, entryAt_ok atSecond, bind, Except.bind, pure, Except.pure]
    split
    next sooner =>
      refine ⟨_, second, rfl, atSecond, Nat.succ_pos _, Heap.parent_right i,
        least _ ?_ (le_refl _)⟩
      rw [priority_some atFirst, priority_some atSecond]
      exact WithTop.coe_le_coe.mpr sooner.le
    next later =>
      refine ⟨_, first, rfl, atFirst, Nat.succ_pos _, Heap.parent_left i,
        least _ (le_refl _) ?_⟩
      rw [priority_some atFirst, priority_some atSecond]
      exact WithTop.coe_le_coe.mpr (not_lt.mp later)
  next single =>
    refine ⟨_, first, rfl, atFirst, Nat.succ_pos _, Heap.parent_left i, least _ (le_refl _) ?_⟩
    rw [priority_none (Nat.not_lt.mp single)]
    exact le_top

theorem down_inner {m : ExpiryMap α τ} {i c : Nat} (inside : i * 2 + 1 < m.heap.length)
    (picked : m.child i = .ok c) {e below : Entry α τ} (here : m.heap[i]? = some e)
    (atChild : m.heap[c]? = some below) :
    m.down i = if e.expiresAt ≤ below.expiresAt then .ok m
      else m.swap i c >>= fun m' => m'.down c := by
  rw [down, if_pos inside]
  split
  next error failed =>
    rw [picked] at failed
    cases failed
  next c' picked' =>
    rw [picked] at picked'
    cases picked'
    simp only [entryAt_ok here, entryAt_ok atChild, bind, Except.bind, pure, Except.pure]
    split
    next => rfl
    next =>
      split
      next error failed => rw [failed]
      next m' swapped => rw [swapped]

theorem down_spec {m : ExpiryMap α τ} {i : Nat} (exact : Exact m) (inside : i < m.heap.length)
    (downward : Heap.Downward m.priority i) :
    ∃ m', m.down i = .ok m' ∧ Shuffled m m' ∧ Heap.Ordered m'.priority := by
  -- the way down is bounded by the entries after the position
  obtain ⟨left, bound⟩ : ∃ left, m.heap.length - i ≤ left := ⟨_, Nat.le_refl _⟩
  induction left generalizing m i with
  | zero => omega
  | succ left ih =>
    by_cases children : i * 2 + 1 < m.heap.length
    · obtain ⟨c, below, picked, atChild, inner, under, least⟩ := child_spec children
      obtain ⟨e, here⟩ := exists_entry inside
      rw [down_inner children picked here atChild]
      split
      next settled =>
        have first : m.priority i ≤ m.priority c := by
          rw [priority_some here, priority_some atChild]
          exact WithTop.coe_le_coe.mpr settled
        exact ⟨m, rfl, .refl exact,
          downward.placed
            (first.trans (least _ (Nat.succ_pos _) (Heap.parent_left i)))
            (first.trans (least _ (Nat.succ_pos _) (Heap.parent_right i)))⟩
      next after =>
        have deeper : i < c := by
          rw [← under]
          exact Heap.parent_lt inner
        obtain ⟨m', swapped, moved, exchanged⟩ :=
          swap_spec exact here atChild (Nat.ne_of_lt deeper)
        have later : m.priority c < m.priority i := by
          rw [priority_some here, priority_some atChild]
          exact WithTop.coe_lt_coe.mpr (not_le.mp after)
        have sinks : Heap.Downward m'.priority c := by
          rw [exchanged]
          exact downward.sink inner under least later
        have room : c < m'.heap.length := by
          rw [moved.length]
          exact (List.getElem?_eq_some_iff.mp atChild).1
        have less : m'.heap.length - c ≤ left := by
          have := moved.length
          omega
        obtain ⟨m'', carried, shuffled, ordered⟩ := ih moved.exact room sinks less
        rw [swapped]
        exact ⟨m'', carried, moved.trans shuffled, ordered⟩
    · refine ⟨m, ?_, .refl exact, downward.placed ?_ ?_⟩
      · rw [down, if_neg children]
        rfl
      · rw [priority_none (Nat.not_lt.mp children)]
        exact le_top
      · rw [priority_none (Nat.le_succ_of_le (Nat.not_lt.mp children))]
        exact le_top

/-! ### Entries that go and come -/

/-- The entries are in heap order, and the positions are theirs. -/
structure Valid (m : ExpiryMap α τ) : Prop where
  exact : Exact m
  ordered : Heap.Ordered m.priority

theorem valid_empty : Valid ({} : ExpiryMap α τ) where
  exact := {
    indexed := by
      intro i e found
      cases found
    located := by
      intro k i known
      cases known }
  ordered := fun _ _ => le_refl _

omit [LinearOrder τ] in
theorem concat_getElem? {init : List (Entry α τ)} {last f : Entry α τ} {j : Nat} :
    (init ++ [last])[j]? = some f ↔ init[j]? = some f ∨ j = init.length ∧ f = last := by
  rcases Nat.lt_trichotomy j init.length with before | rfl | after
  · rw [List.getElem?_append_left before]
    constructor
    · exact .inl
    · rintro (found | ⟨rfl, _⟩)
      · exact found
      · exact absurd before (Nat.lt_irrefl _)
  · rw [List.getElem?_concat_length, List.getElem?_eq_none (Nat.le_refl _)]
    constructor
    · intro found
      exact .inr ⟨rfl, (Option.some.inj found).symm⟩
    · rintro (found | ⟨_, rfl⟩)
      · cases found
      · rfl
  · have outside : (init ++ [last]).length ≤ j := by
      rw [List.length_append, List.length_singleton]
      exact after
    rw [List.getElem?_eq_none outside, List.getElem?_eq_none (Nat.le_of_lt after)]
    constructor
    · intro found
      cases found
    · rintro (found | ⟨rfl, _⟩)
      · cases found
      · exact absurd after (Nat.lt_irrefl _)

omit [LinearOrder τ] in
theorem lt_of_getElem? {entries : List (Entry α τ)} {j : Nat} {f : Entry α τ}
    (found : entries[j]? = some f) : j < entries.length :=
  (List.getElem?_eq_some_iff.mp found).1

omit [LinearOrder τ] in
theorem priority_concat {m m' : ExpiryMap α τ} {last : Entry α τ}
    (grown : m'.heap = m.heap ++ [last]) {i : Nat} (other : i ≠ m.heap.length) :
    m'.priority i = m.priority i := by
  have same : m'.heap[i]? = m.heap[i]? := by
    rw [grown]
    apply Option.ext
    intro f
    rw [concat_getElem?]
    constructor
    · rintro (found | ⟨here, _⟩)
      · exact found
      · exact absurd here other
    · exact .inl
  rw [priority, priority, same]

theorem ordered_init {m m' : ExpiryMap α τ} {last : Entry α τ}
    (grown : m'.heap = m.heap ++ [last]) (ordered : Heap.Ordered m'.priority) :
    Heap.Ordered m.priority := by
  intro i inner
  by_cases inside : i < m.heap.length
  · have higher := Heap.parent_lt inner
    rw [← priority_concat grown (Nat.ne_of_lt inside),
      ← priority_concat grown (Nat.ne_of_lt (Nat.lt_trans higher inside))]
    exact ordered i inner
  · rw [priority_none (Nat.not_lt.mp inside)]
    exact le_top

theorem pop_spec {m : ExpiryMap α τ} (valid : Valid m) {init : List (Entry α τ)} {last : Entry α τ}
    (shape : m.heap = init ++ [last]) :
    Valid { heap := init, indexes := m.indexes.delete last.key } ∧
      ∀ f, f ∈ init ↔ f ∈ m.heap ∧ f.key ≠ last.key := by
  have end' : m.heap[init.length]? = some last := by
    rw [shape]
    exact List.getElem?_concat_length
  have inner : ∀ {j : Nat} {f : Entry α τ}, init[j]? = some f →
      m.heap[j]? = some f ∧ f.key ≠ last.key := by
    intro j f found
    have here : m.heap[j]? = some f := by
      rw [shape]
      exact concat_getElem?.mpr (.inl found)
    exact ⟨here, fun same =>
      Nat.ne_of_lt (lt_of_getElem? found) (valid.exact.same_place here end' same)⟩
  have order : Heap.Ordered (priority ⟨init, m.indexes.delete last.key⟩) :=
    ordered_init shape valid.ordered
  refine ⟨⟨⟨?_, ?_⟩, order⟩, ?_⟩
  · intro i e found
    obtain ⟨here, named⟩ := inner found
    rw [Registry.get?_delete_ne _ (Ne.symm named)]
    exact valid.exact.indexed i e here
  · intro k i known
    rw [Registry.get?_delete] at known
    split at known
    next => cases known
    next other =>
      obtain ⟨e, found, named⟩ := valid.exact.located k i known
      rw [shape] at found
      rcases concat_getElem?.mp found with found | ⟨_, rfl⟩
      · exact ⟨e, found, named⟩
      · exact absurd named other
  · intro f
    constructor
    · intro member
      obtain ⟨j, found⟩ := List.mem_iff_getElem?.mp member
      obtain ⟨here, named⟩ := inner found
      exact ⟨List.mem_of_getElem? here, named⟩
    · rintro ⟨member, named⟩
      rw [shape, List.mem_append, List.mem_singleton] at member
      rcases member with inside | rfl
      · exact inside
      · exact absurd rfl named

theorem fill_spec {m : ExpiryMap α τ} (valid : Valid m) {init : List (Entry α τ)}
    {last e : Entry α τ} (shape : m.heap = init ++ [last]) {i : Nat} (here : init[i]? = some e) :
    let filled : ExpiryMap α τ :=
      { heap := init.set i last, indexes := (m.indexes.delete e.key).set last.key i }
    Exact filled ∧ Heap.Around filled.priority i ∧
      ∀ f, f ∈ filled.heap ↔ f ∈ m.heap ∧ f.key ≠ e.key := by
  intro filled
  have inside := lt_of_getElem? here
  have end' : m.heap[init.length]? = some last := by
    rw [shape]
    exact List.getElem?_concat_length
  have inner : ∀ {j : Nat} {f : Entry α τ}, init[j]? = some f → m.heap[j]? = some f := by
    intro j f found
    rw [shape]
    exact concat_getElem?.mpr (.inl found)
  have apart : last.key ≠ e.key := fun same =>
    Nat.ne_of_gt inside (valid.exact.same_place end' (inner here) same)
  -- the other entries are where they were, and not the one that goes
  have others : ∀ {j : Nat} {f : Entry α τ}, j ≠ i → init[j]? = some f →
      f.key ≠ e.key ∧ f.key ≠ last.key := by
    intro j f other found
    constructor
    · intro same
      exact other (valid.exact.same_place (inner found) (inner here) same)
    · intro same
      exact Nat.ne_of_lt (lt_of_getElem? found)
        (valid.exact.same_place (inner found) end' same)
  refine ⟨⟨?_, ?_⟩, ?_, ?_⟩
  · intro j f found
    by_cases atI : j = i
    · rw [atI, List.getElem?_set_self inside, Option.some.injEq] at found
      rw [← found, atI, Registry.get?_set_self]
    · rw [List.getElem?_set_ne (Ne.symm atI)] at found
      obtain ⟨notGone, notLast⟩ := others atI found
      rw [Registry.get?_set_ne _ _ (Ne.symm notLast), Registry.get?_delete_ne _ (Ne.symm notGone)]
      exact valid.exact.indexed j f (inner found)
  · intro k j known
    rw [Registry.get?_set, Registry.get?_delete] at known
    split at known
    next isLast =>
      cases known
      exact ⟨last, List.getElem?_set_self inside, isLast⟩
    next notLast =>
      split at known
      next => cases known
      next notGone =>
        obtain ⟨f, found, named⟩ := valid.exact.located k j known
        have atI : j ≠ i := by
          rintro rfl
          exact notGone (by rw [← named, Option.some.inj ((inner here).symm.trans found)])
        rw [shape] at found
        rcases concat_getElem?.mp found with found | ⟨_, rfl⟩
        · exact ⟨f, by rw [List.getElem?_set_ne (Ne.symm atI), found], named⟩
        · exact absurd named notLast
  · have before : Heap.Ordered (priority ⟨init, m.indexes⟩) :=
      ordered_init shape valid.ordered
    refine before.replaced fun j other => ?_
    simp only [priority, filled, List.getElem?_set_ne (Ne.symm other)]
  · intro f
    constructor
    · intro member
      obtain ⟨j, found⟩ := List.mem_iff_getElem?.mp member
      by_cases atI : j = i
      · rw [atI, List.getElem?_set_self inside, Option.some.injEq] at found
        rw [← found]
        exact ⟨List.mem_of_getElem? end', apart⟩
      · rw [List.getElem?_set_ne (Ne.symm atI)] at found
        exact ⟨List.mem_of_getElem? (inner found), (others atI found).1⟩
    · rintro ⟨member, named⟩
      rw [shape, List.mem_append, List.mem_singleton] at member
      rcases member with member | rfl
      · obtain ⟨j, found⟩ := List.mem_iff_getElem?.mp member
        have atI : j ≠ i := by
          rintro rfl
          exact named (by rw [Option.some.inj (here.symm.trans found)])
        exact List.mem_of_getElem? (by rw [List.getElem?_set_ne (Ne.symm atI), found])
      · exact List.mem_of_getElem? (List.getElem?_set_self inside)

theorem remove_spec {m : ExpiryMap α τ} (valid : Valid m) {i : Nat} {e : Entry α τ}
    (here : m.heap[i]? = some e) :
    ∃ m', m.remove i = .ok (e, m') ∧ Valid m' ∧ ∀ f, f ∈ m'.heap ↔ f ∈ m.heap ∧ f.key ≠ e.key := by
  rcases m.heap.eq_nil_or_concat' with none | ⟨init, last, shape⟩
  · rw [none] at here
    cases here
  have dropped : m.heap.dropLast = init := by
    rw [shape]
    exact List.dropLast_concat
  have ending : m.heap.getLast? = some last := by
    rw [shape]
    exact List.getLast?_concat
  simp only [remove, entryAt_ok here, dropped, ending, bind, Except.bind]
  have found := here
  rw [shape] at found
  rcases concat_getElem?.mp found with inner | ⟨isEnd, rfl⟩
  · obtain ⟨exact, around, kept⟩ := fill_spec valid shape inner
    have inside := lt_of_getElem? inner
    have room : i < (init.set i last).length := by rwa [List.length_set]
    obtain ⟨m', j, carried, moved, downward, stays⟩ := up_around exact room around
    obtain ⟨m'', placed, shuffled, ordered⟩ := down_spec moved.exact stays downward
    refine ⟨m'', ?_, ⟨shuffled.exact, ordered⟩, fun f => ?_⟩
    · rw [if_pos inside, carried]
      simp only [placed, pure, Except.pure]
    · rw [shuffled.mem, moved.mem]
      exact kept f
  · obtain ⟨popped, kept⟩ := pop_spec valid shape
    refine ⟨_, ?_, popped, kept⟩
    rw [if_neg (by omega)]
    rfl

theorem push_spec {m : ExpiryMap α τ} (valid : Valid m) (e : Entry α τ)
    (fresh : ∀ f ∈ m.heap, f.key ≠ e.key) :
    ∃ m' j, up { heap := m.heap ++ [e], indexes := m.indexes.set e.key m.heap.length }
        m.heap.length = .ok (m', j) ∧ Valid m' ∧ ∀ f, f ∈ m'.heap ↔ f ∈ m.heap ∨ f = e := by
  have exact : Exact { heap := m.heap ++ [e], indexes := m.indexes.set e.key m.heap.length } := by
    constructor
    · intro i f found
      rcases concat_getElem?.mp found with inner | ⟨rfl, rfl⟩
      · rw [Registry.get?_set_ne _ _ (Ne.symm (fresh f (List.mem_of_getElem? inner)))]
        exact valid.exact.indexed i f inner
      · exact Registry.get?_set_self _ _ _
    · intro k i known
      rw [Registry.get?_set] at known
      split at known
      next isNew =>
        cases known
        exact ⟨e, List.getElem?_concat_length, isNew⟩
      next =>
        obtain ⟨f, found, named⟩ := valid.exact.located k i known
        exact ⟨f, concat_getElem?.mpr (.inl found), named⟩
  have upward : Heap.Upward
      (priority { heap := m.heap ++ [e], indexes := m.indexes.set e.key m.heap.length })
      m.heap.length := by
    refine ⟨valid.ordered.replaced fun i other => priority_concat rfl other, ?_⟩
    intro i inner below
    -- nothing is below the last entry
    have deeper := Heap.parent_lt inner
    rw [priority_none (i := i)]
    · exact le_top
    · rw [List.length_append, List.length_singleton]
      omega
  have inside : m.heap.length < (m.heap ++ [e]).length := by
    rw [List.length_append, List.length_singleton]
    exact Nat.lt_succ_self _
  obtain ⟨m', j, carried, moved, ordered, _⟩ := up_upward _ exact inside upward
  refine ⟨m', j, carried, ⟨moved.exact, ordered⟩, fun f => ?_⟩
  rw [moved.mem, List.mem_append, List.mem_singleton]

end Ace.ExpiryMap
