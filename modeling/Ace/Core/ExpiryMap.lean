import Ace.Script.Registry
import Mathlib.Order.Lattice

/-!
# Maps whose entries expire

`packages/core/src/expiry-map.ts`: a binary heap of the entries, the earliest expiry at its root,
and for every key the position of its entry. Expiries are from any linear order.
-/

namespace Ace

open Script

structure ExpiryMap.Entry (α τ : Type) where
  key : String
  value : α
  expiresAt : τ

/-- Indexed min-heap: expiry visits only due entries, deletion retains no tombstones. -/
structure ExpiryMap (α τ : Type) where
  heap : List (ExpiryMap.Entry α τ) := []
  indexes : Registry Nat := .empty

namespace ExpiryMap

variable {α τ : Type}

def first (m : ExpiryMap α τ) : Option (Entry α τ) := m.heap[0]?

def clear (_ : ExpiryMap α τ) : ExpiryMap α τ := {}

def size (m : ExpiryMap α τ) : Nat := m.heap.length

/-- `at(index)` -/
def entryAt (m : ExpiryMap α τ) (index : Nat) : Except String (Entry α τ) :=
  match m.heap[index]? with
  | some entry => .ok entry
  | none => .error "Invalid expiry heap index"

def deadline (m : ExpiryMap α τ) (key : String) : Except String (Option τ) :=
  match m.indexes.get? key with
  | none => .ok none
  | some index => do
    let entry ← m.entryAt index
    return some entry.expiresAt

def get (m : ExpiryMap α τ) (key : String) : Except String (Option α) :=
  match m.indexes.get? key with
  | none => .ok none
  | some index => do
    let entry ← m.entryAt index
    return some entry.value

def swap (m : ExpiryMap α τ) (left right : Nat) : Except String (ExpiryMap α τ) := do
  let first ← m.entryAt left
  let second ← m.entryAt right
  return {
    heap := (m.heap.set left second).set right first
    indexes := (m.indexes.set first.key right).set second.key left }

variable [LinearOrder τ]

/-- Carries the entry at `index` up to its place; gives the place as well. -/
def up (m : ExpiryMap α τ) (index : Nat) : Except String (ExpiryMap α τ × Nat) :=
  if 0 < index then do
    let parent := (index - 1) / 2
    let above ← m.entryAt parent
    let entry ← m.entryAt index
    if above.expiresAt ≤ entry.expiresAt then return (m, index)
    let m ← m.swap parent index
    up m parent
  else return (m, index)
termination_by index

/-- The child of `index` that expires first. -/
def child (m : ExpiryMap α τ) (index : Nat) : Except String Nat :=
  if index * 2 + 1 + 1 < m.heap.length then do
    let second ← m.entryAt (index * 2 + 1 + 1)
    let first ← m.entryAt (index * 2 + 1)
    return if second.expiresAt < first.expiresAt then index * 2 + 1 + 1 else index * 2 + 1
  else return index * 2 + 1

theorem child_gt {m : ExpiryMap α τ} {index next : Nat} (found : m.child index = .ok next) :
    index < next ∧ next ≤ index * 2 + 2 := by
  unfold child at found
  split at found
  next =>
    cases second : m.entryAt (index * 2 + 1 + 1) with
    | error => simp [second, bind, Except.bind] at found
    | ok second' =>
      cases first : m.entryAt (index * 2 + 1) with
      | error => simp [first, second, bind, Except.bind] at found
      | ok first' =>
        simp only [second, first, bind, Except.bind, pure, Except.pure, Except.ok.injEq] at found
        split at found <;> omega
  next =>
    simp only [pure, Except.pure, Except.ok.injEq] at found
    omega

theorem swap_length {m m' : ExpiryMap α τ} {left right : Nat} (swapped : m.swap left right = .ok m') :
    m'.heap.length = m.heap.length := by
  unfold swap at swapped
  cases first : m.entryAt left with
  | error => simp [first, bind, Except.bind] at swapped
  | ok first' =>
    cases second : m.entryAt right with
    | error => simp [first, second, bind, Except.bind] at swapped
    | ok second' =>
      simp only [first, second, bind, Except.bind, pure, Except.pure, Except.ok.injEq] at swapped
      rw [← swapped]
      simp only [List.length_set]

/-- Carries the entry at `index` down to its place. -/
def down (m : ExpiryMap α τ) (index : Nat) : Except String (ExpiryMap α τ) :=
  if index * 2 + 1 < m.heap.length then
    match picked : m.child index with
    | .error e => .error e
    | .ok next => do
      let entry ← m.entryAt index
      let below ← m.entryAt next
      if entry.expiresAt ≤ below.expiresAt then return m
      match swapped : m.swap index next with
      | .error e => .error e
      | .ok m' => down m' next
  else return m
termination_by m.heap.length - index
decreasing_by
  have deeper := child_gt picked
  have same := swap_length swapped
  omega

def remove (m : ExpiryMap α τ) (index : Nat) : Except String (Entry α τ × ExpiryMap α τ) := do
  let removed ← m.entryAt index
  let heap := m.heap.dropLast
  let indexes := m.indexes.delete removed.key
  match m.heap.getLast? with
  | some last =>
    if index < heap.length then
      let (m, index) ←
        up { heap := heap.set index last, indexes := indexes.set last.key index } index
      let m ← m.down index
      return (removed, m)
    else return (removed, { heap, indexes })
  | none => return (removed, { heap, indexes })

def delete (m : ExpiryMap α τ) (key : String) : Except String (Option α × ExpiryMap α τ) :=
  match m.indexes.get? key with
  | none => .ok (none, m)
  | some index => do
    let (removed, m) ← m.remove index
    return (some removed.value, m)

def set (m : ExpiryMap α τ) (key : String) (value : α) (expiresAt : τ) :
    Except String (ExpiryMap α τ) := do
  let (_, m) ← m.delete key
  let index := m.heap.length
  let (m, _) ←
    up { heap := m.heap ++ [{ key, value, expiresAt }], indexes := m.indexes.set key index } index
  return m

/-- What the generator `expire(now)` does when it is asked for its next entry: `none` when it is
done. It keeps nothing of its own but `now`. -/
def next (m : ExpiryMap α τ) (now : τ) : Except String (Option (Entry α τ) × ExpiryMap α τ) :=
  if 0 < m.heap.length then do
    let root ← m.entryAt 0
    if root.expiresAt ≤ now then
      let (removed, m) ← m.remove 0
      return (some removed, m)
    else return (none, m)
  else return (none, m)

/-- `expire(now)` as far as it is asked for entries, at most `pulls` times: it is abandoned when
there are entries left that are due. -/
def expire (m : ExpiryMap α τ) (now : τ) : Nat → Except String (List (Entry α τ) × ExpiryMap α τ)
  | 0 => return ([], m)
  | pulls + 1 => do
    match ← m.next now with
    | (none, m) => return ([], m)
    | (some entry, m) => do
      let (entries, m) ← m.expire now pulls
      return (entry :: entries, m)

/-! ### Runs -/

/-- A call. -/
inductive Op (α τ : Type) where
  | set (key : String) (value : α) (expiresAt : τ)
  | delete (key : String)
  | clear
  | expire (now : τ) (pulls : Nat)

/-- What a call gives. -/
inductive Answer (α τ : Type) where
  | done
  | deleted (value : Option α)
  | expired (entries : List (Entry α τ))

def step (m : ExpiryMap α τ) : Op α τ → Except String (Answer α τ × ExpiryMap α τ)
  | .set key value expiresAt => do
    let m ← m.set key value expiresAt
    return (.done, m)
  | .delete key => do
    let (value, m) ← m.delete key
    return (.deleted value, m)
  | .clear => return (.done, m.clear)
  | .expire now pulls => do
    let (entries, m) ← m.expire now pulls
    return (.expired entries, m)

def run (m : ExpiryMap α τ) : List (Op α τ) → Except String (List (Answer α τ) × ExpiryMap α τ)
  | [] => return ([], m)
  | op :: ops => do
    let (answer, m) ← m.step op
    let (answers, m) ← m.run ops
    return (answer :: answers, m)

end ExpiryMap

end Ace
