import Ace.Script.Dictionary
import Mathlib.Data.List.Count
import Mathlib.Tactic.Ring
import Mathlib.Data.Bool.Basic

/-!
# Counting the entries of a dictionary

A program that keeps a count beside a dictionary updates the count where it updates the
dictionary. `tally_put` says by how much a replacement moves the count, `tally_put_new` an
insertion.
-/

namespace Script

universe u

variable {α : Type u}

/-- How many values pass `p`. -/
def tally (p : α → Bool) (d : Dictionary α) : Int := d.values.countP p

namespace Assoc

theorem countP_replace (p : α → Bool) {entries : List (String × α)} {k : String} {v : α} (w : α)
    (here : get? entries k = some v) :
    ((replace k w entries).countP (p ·.2) : Int) =
      entries.countP (p ·.2) + ((p w).toInt - (p v).toInt) := by
  induction entries with
  | nil => simp [get?] at here
  | cons entry rest ih =>
    obtain ⟨k₀, v₀⟩ := entry
    by_cases same : k₀ = k
    · have value : v₀ = v := by simpa [get?, same] using here
      subst value
      simp only [replace, same, if_true, List.countP_cons]
      cases p w <;> cases p v₀ <;> simp
    · have tail := ih (by simpa [get?, same] using here)
      simp only [replace, same, if_false, List.countP_cons]
      push_cast
      rw [tail]
      ring

theorem countP_insertNew (p : α → Bool) (entries : List (String × α)) (k : String) (w : α) :
    ((insertNew k w entries).countP (p ·.2) : Int) = entries.countP (p ·.2) + (p w).toInt := by
  induction entries with
  | nil => cases h : p w <;> simp [insertNew, h]
  | cons entry rest ih =>
    by_cases before : enumeratedBefore k entry.1
    · simp only [insertNew, before, if_true, List.countP_cons]
      cases p w <;> simp
    · simp only [insertNew, before, List.countP_cons]
      simp only [Bool.false_eq_true, if_false, List.countP_cons]
      push_cast
      rw [ih]
      ring

end Assoc

theorem tally_eq (p : α → Bool) (d : Dictionary α) : tally p d = d.entries.countP (p ·.2) := by
  simp only [tally, Dictionary.values, List.countP_map]
  rfl

theorem tally_put (p : α → Bool) {d : Dictionary α} {k : String} {v : α} (w : α)
    (here : d.get? k = some v) :
    tally p (d.put k w) = tally p d + ((p w).toInt - (p v).toInt) := by
  have present : (Assoc.get? d.entries k).isSome := by
    rw [show Assoc.get? d.entries k = some v from here]
    rfl
  simp only [tally_eq, Dictionary.put, Assoc.put, if_pos present]
  exact Assoc.countP_replace p w here

theorem tally_put_new (p : α → Bool) {d : Dictionary α} {k : String} (w : α)
    (absent : d.get? k = none) : tally p (d.put k w) = tally p d + (p w).toInt := by
  have missing : ¬ (Assoc.get? d.entries k).isSome := by
    rw [show Assoc.get? d.entries k = none from absent]
    simp
  simp only [tally_eq, Dictionary.put, Assoc.put, if_neg missing]
  exact Assoc.countP_insertNew p d.entries k w

theorem tally_nonneg (p : α → Bool) (d : Dictionary α) : 0 ≤ tally p d := Int.natCast_nonneg _

theorem tally_le_length (p : α → Bool) (d : Dictionary α) : tally p d ≤ d.keys.length := by
  have bound : d.values.countP p ≤ d.values.length := List.countP_le_length
  simp only [tally, Dictionary.keys, Assoc.keys, Dictionary.values, List.length_map] at bound ⊢
  omega

theorem length_keys_le_of_names {β : Type} {d : Dictionary α} {names : List β}
    (name : String → α → β) (listed : ∀ k v, d.get? k = some v → name k v ∈ names)
    (distinct : ∀ k v k' v', d.get? k = some v → d.get? k' = some v' →
      name k v = name k' v' → k = k') : d.keys.length ≤ names.length := by
  have different : (d.entries.map fun entry => name entry.1 entry.2).Nodup := by
    refine List.Nodup.map_on ?_ (List.Nodup.of_map Prod.fst d.nodup)
    rintro ⟨k, v⟩ member ⟨k', v'⟩ member' same
    rw [Dictionary.mem_entries_iff] at member member'
    have keys := distinct k v k' v' member member' same
    subst keys
    rw [member] at member'
    cases member'
    rfl
  have among : (d.entries.map fun entry => name entry.1 entry.2) ⊆ names := by
    intro x member
    obtain ⟨⟨k, v⟩, entry, rfl⟩ := List.mem_map.mp member
    exact listed k v ((d.mem_entries_iff k v).mp entry)
  have bound := (List.subperm_of_subset different among).length_le
  simpa [Dictionary.keys, Assoc.keys] using bound

theorem tally_eq_zero_iff (p : α → Bool) (d : Dictionary α) :
    tally p d = 0 ↔ ∀ k v, d.get? k = some v → p v = false := by
  simp only [tally, Int.natCast_eq_zero, List.countP_eq_zero, Dictionary.mem_values_iff]
  constructor
  · intro none_passes k v here
    simpa using none_passes v ⟨k, here⟩
  · rintro none_passes v ⟨k, here⟩
    simp [none_passes k v here]

theorem tally_pos (p : α → Bool) {d : Dictionary α} {k : String} {v : α}
    (here : d.get? k = some v) (passes : p v = true) : 0 < tally p d := by
  have nonneg := tally_nonneg p d
  have nonzero : tally p d ≠ 0 := by
    intro zero
    rw [tally_eq_zero_iff] at zero
    simp [zero k v here] at passes
  omega

end Script
