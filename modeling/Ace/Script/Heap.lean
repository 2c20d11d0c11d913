import Mathlib.Order.Lattice

/-!
# Binary heaps

The order of a binary heap, on the priorities `p` of its positions. A heap of some size has a top
priority at every position past its end, so that none of this speaks of sizes. While an entry is
out of place there is one position whose neighbours need not be in order (`Around`); carrying it up
and then down puts everything in order.
-/

namespace Script.Heap

universe u

variable {τ : Type u}

def parent (i : Nat) : Nat := (i - 1) / 2

theorem parent_lt {i : Nat} (inner : 0 < i) : parent i < i := by
  unfold parent
  omega

theorem child_cases {i : Nat} (inner : 0 < i) :
    i = parent i * 2 + 1 ∨ i = parent i * 2 + 1 + 1 := by
  unfold parent
  omega

@[simp] theorem parent_left (i : Nat) : parent (i * 2 + 1) = i := by
  unfold parent
  omega

@[simp] theorem parent_right (i : Nat) : parent (i * 2 + 1 + 1) = i := by
  unfold parent
  omega

/-- The priorities after two entries changed places. -/
def exchange (p : Nat → τ) (i j : Nat) (k : Nat) : τ :=
  if k = i then p j else if k = j then p i else p k

@[simp] theorem exchange_left (p : Nat → τ) (i j : Nat) : exchange p i j i = p j := if_pos rfl

@[simp] theorem exchange_right (p : Nat → τ) (i j : Nat) : exchange p i j j = p i := by
  unfold exchange
  split
  next same => rw [same]
  next => exact if_pos rfl

theorem exchange_other (p : Nat → τ) {i j k : Nat} (first : k ≠ i) (second : k ≠ j) :
    exchange p i j k = p k := by
  rw [exchange, if_neg first, if_neg second]

variable [LinearOrder τ]

/-- No entry comes before its parent. -/
def Ordered (p : Nat → τ) : Prop := ∀ i, 0 < i → p (parent i) ≤ p i

/-- Every entry is in order with its parent, unless one of the two is at `hole`; and the children
of the hole are in order with its parent. -/
structure Around (p : Nat → τ) (hole : Nat) : Prop where
  away : ∀ i, 0 < i → i ≠ hole → parent i ≠ hole → p (parent i) ≤ p i
  across : 0 < hole → ∀ i, 0 < i → parent i = hole → p (parent hole) ≤ p i

/-- Only the entry at `hole` may come before its parent. -/
structure Upward (p : Nat → τ) (hole : Nat) : Prop extends Around p hole where
  children : ∀ i, 0 < i → parent i = hole → p hole ≤ p i

/-- Only the entry at `hole` may come after its children. -/
structure Downward (p : Nat → τ) (hole : Nat) : Prop extends Around p hole where
  above : 0 < hole → p (parent hole) ≤ p hole

theorem Ordered.root_le {p : Nat → τ} (ordered : Ordered p) (i : Nat) : p 0 ≤ p i := by
  induction i using Nat.strongRecOn with
  | ind i ih =>
    by_cases inner : 0 < i
    · exact (ih (parent i) (parent_lt inner)).trans (ordered i inner)
    · rw [Nat.eq_zero_of_not_pos inner]

theorem Ordered.around {p : Nat → τ} (ordered : Ordered p) (hole : Nat) : Around p hole where
  away := fun i inner _ _ => ordered i inner
  across := by
    intro inner i child below
    have upper := ordered hole inner
    have lower := ordered i child
    rw [below] at lower
    exact upper.trans lower

theorem Ordered.downward {p : Nat → τ} (ordered : Ordered p) (hole : Nat) : Downward p hole :=
  ⟨ordered.around hole, fun inner => ordered hole inner⟩

theorem Ordered.replaced {p q : Nat → τ} (ordered : Ordered p) {hole : Nat}
    (same : ∀ i, i ≠ hole → q i = p i) : Around q hole where
  away := by
    intro i inner other parentOther
    rw [same i other, same (parent i) parentOther]
    exact ordered i inner
  across := by
    intro inner i child below
    have far : parent hole ≠ hole := Nat.ne_of_lt (parent_lt inner)
    have apart : i ≠ hole := by
      rintro rfl
      exact far below
    rw [same i apart, same _ far]
    exact (ordered.around hole).across inner i child below

/-! ### Carrying up -/

theorem Upward.placed {p : Nat → τ} {hole : Nat} (up : Upward p hole)
    (above : 0 < hole → p (parent hole) ≤ p hole) : Ordered p := by
  intro i inner
  by_cases here : i = hole
  · rw [here] at inner ⊢
    exact above inner
  by_cases below : parent i = hole
  · rw [below]
    exact up.children i inner below
  · exact up.away i inner here below

theorem Around.climb {p : Nat → τ} {hole : Nat} (around : Around p hole) (inner : 0 < hole)
    (before : p hole < p (parent hole)) : Upward (exchange p (parent hole) hole) (parent hole) := by
  have far : parent hole ≠ hole := Nat.ne_of_lt (parent_lt inner)
  refine ⟨⟨?_, ?_⟩, ?_⟩
  · intro i child other parentOther
    by_cases here : i = hole
    · exact absurd (here ▸ rfl) parentOther
    rw [exchange_other p other here]
    by_cases below : parent i = hole
    · -- the children of the hole are now below its former parent
      rw [below, exchange_right]
      exact around.across inner i child below
    · rw [exchange_other p parentOther below]
      exact around.away i child here below
  · intro upper i child below
    have upmost : parent (parent hole) ≠ hole := by
      have := parent_lt upper
      have := parent_lt inner
      omega
    rw [exchange_other p (Nat.ne_of_lt (parent_lt upper)) upmost]
    have step : p (parent (parent hole)) ≤ p (parent hole) :=
      around.away (parent hole) upper far upmost
    by_cases here : i = hole
    · rw [here, exchange_right]
      exact step
    · have other : i ≠ parent hole := by
        have := parent_lt child
        omega
      rw [exchange_other p other here]
      have lower := around.away i child here (below ▸ far)
      rw [below] at lower
      exact step.trans lower
  · intro i child below
    rw [exchange_left]
    by_cases here : i = hole
    · rw [here, exchange_right]
      exact before.le
    · have other : i ≠ parent hole := by
        have := parent_lt child
        omega
      rw [exchange_other p other here]
      have lower := around.away i child here (below ▸ far)
      rw [below] at lower
      exact before.le.trans lower

/-! ### Carrying down -/

theorem Downward.placed {p : Nat → τ} {hole : Nat} (down : Downward p hole)
    (left : p hole ≤ p (hole * 2 + 1)) (right : p hole ≤ p (hole * 2 + 1 + 1)) : Ordered p := by
  intro i inner
  by_cases here : i = hole
  · rw [here] at inner ⊢
    exact down.above inner
  by_cases below : parent i = hole
  · have child := child_cases inner
    rw [below] at child ⊢
    rcases child with first | second
    · rw [first]
      exact left
    · rw [second]
      exact right
  · exact down.away i inner here below

theorem Downward.sink {p : Nat → τ} {hole child : Nat} (down : Downward p hole)
    (inner : 0 < child) (below : parent child = hole)
    (least : ∀ i, 0 < i → parent i = hole → p child ≤ p i) (after : p child < p hole) :
    Downward (exchange p hole child) child := by
  have far : child ≠ hole := by
    have := parent_lt inner
    omega
  refine ⟨⟨?_, ?_⟩, ?_⟩
  · intro i lower other parentOther
    by_cases here : i = hole
    · -- what comes up is still below the parent of the hole
      rw [here] at lower parentOther ⊢
      rw [exchange_left, exchange_other p (Nat.ne_of_lt (parent_lt lower)) parentOther]
      exact down.across lower child inner below
    rw [exchange_other p here other]
    by_cases sibling : parent i = hole
    · rw [sibling, exchange_left]
      exact least i lower sibling
    · rw [exchange_other p sibling parentOther]
      exact down.away i lower here sibling
  · intro _ i lower under
    rw [below, exchange_left]
    have deep := parent_lt lower
    have deeper := parent_lt inner
    rw [exchange_other p (by omega) (by omega)]
    have step := down.away i lower (by omega) (by omega)
    rw [under] at step
    exact step
  · intro _
    rw [below, exchange_left, exchange_right]
    exact after.le

end Script.Heap
