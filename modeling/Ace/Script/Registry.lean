import Ace.Script.Dictionary

/-!
# Maps in insertion order

An ECMAScript `Map` with string keys: entries are enumerated in the order in which their keys
were first set. Setting a key again keeps its place; a key that was deleted comes last when it is
set again. A `Set` is a list without duplicates, in the same order.
-/

namespace Script

universe u

variable {α : Type u}

namespace Assoc

/-- A new key comes last. -/
def set (k : String) (v : α) (entries : List (String × α)) : List (String × α) :=
  if (get? entries k).isSome then replace k v entries else entries ++ [(k, v)]

theorem get?_append (entries more : List (String × α)) (k : String) :
    get? (entries ++ more) k = (get? entries k).or (get? more k) := by
  induction entries with
  | nil => rfl
  | cons entry rest ih =>
    obtain ⟨k', v⟩ := entry
    by_cases same : k' = k
    · simp [get?, same]
    · simp [get?, same, ih]

theorem get?_set (entries : List (String × α)) (k k' : String) (v : α) :
    get? (set k v entries) k' = if k = k' then some v else get? entries k' := by
  unfold set
  split
  next present =>
    rw [get?_replace]
    simp [present]
  next absent =>
    have missing : get? entries k = none := by simpa using absent
    rw [get?_append]
    by_cases same : k = k'
    · subst same
      simp [missing, get?]
    · simp [get?, same]

theorem nodup_set {entries : List (String × α)} (h : (keys entries).Nodup) (k : String) (v : α) :
    (keys (set k v entries)).Nodup := by
  unfold set
  split
  next => rwa [keys_replace]
  next absent =>
    have missing : k ∉ keys entries := by
      rw [← get?_isSome_iff]
      exact absent
    simp only [keys, List.map_append, List.map_cons, List.map_nil] at h missing ⊢
    exact List.nodup_append.mpr ⟨h, by simp, fun x member y is_k same => by
      rw [List.mem_singleton.mp is_k] at same
      exact missing (same ▸ member)⟩

end Assoc

/-- A map from strings with its entries in insertion order. -/
structure Registry (α : Type u) where
  entries : List (String × α)
  nodup : (Assoc.keys entries).Nodup

namespace Registry

@[ext]
theorem ext {d e : Registry α} (h : d.entries = e.entries) : d = e := by
  cases d
  cases e
  simp_all

instance [DecidableEq α] : DecidableEq (Registry α) := fun d e =>
  decidable_of_iff (d.entries = e.entries) ⟨ext, fun h => h ▸ rfl⟩

def empty : Registry α := ⟨[], List.nodup_nil⟩

instance : Inhabited (Registry α) := ⟨empty⟩

def get? (d : Registry α) (k : String) : Option α := Assoc.get? d.entries k

def set (d : Registry α) (k : String) (v : α) : Registry α :=
  ⟨Assoc.set k v d.entries, Assoc.nodup_set d.nodup k v⟩

def delete (d : Registry α) (k : String) : Registry α :=
  ⟨Assoc.erase k d.entries, (Assoc.keys_erase_sublist d.entries k).nodup d.nodup⟩

def size (d : Registry α) : Nat := d.entries.length

def values (d : Registry α) : List α := d.entries.map Prod.snd

@[simp] theorem get?_empty (k : String) : (empty : Registry α).get? k = none := rfl

theorem get?_set (d : Registry α) (k k' : String) (v : α) :
    (d.set k v).get? k' = if k = k' then some v else d.get? k' :=
  Assoc.get?_set d.entries k k' v

@[simp] theorem get?_set_self (d : Registry α) (k : String) (v : α) :
    (d.set k v).get? k = some v := by
  simp [get?_set]

theorem get?_set_ne (d : Registry α) {k k' : String} (v : α) (other : k ≠ k') :
    (d.set k v).get? k' = d.get? k' := by
  simp [get?_set, other]

theorem get?_delete (d : Registry α) (k k' : String) :
    (d.delete k).get? k' = if k = k' then none else d.get? k' :=
  Assoc.get?_erase d.entries k k'

@[simp] theorem get?_delete_self (d : Registry α) (k : String) : (d.delete k).get? k = none := by
  simp [get?_delete]

theorem get?_delete_ne (d : Registry α) {k k' : String} (other : k ≠ k') :
    (d.delete k).get? k' = d.get? k' := by
  simp [get?_delete, other]

/-! ### Sizes -/

theorem size_eq (d : Registry α) : d.size = (Assoc.keys d.entries).length := by
  rw [size, Assoc.keys, List.length_map]

theorem size_set_known (d : Registry α) {k : String} (known : (d.get? k).isSome) (v : α) :
    (d.set k v).size = d.size := by
  have kept : (d.set k v).entries = Assoc.replace k v d.entries := if_pos known
  rw [size_eq, size_eq, kept, Assoc.keys_replace]

theorem size_set_new (d : Registry α) {k : String} (new : d.get? k = none) (v : α) :
    (d.set k v).size = d.size + 1 := by
  have absent : ¬(Assoc.get? d.entries k).isSome := by
    rw [show Assoc.get? d.entries k = none from new]
    exact Bool.false_ne_true
  have added : (d.set k v).entries = d.entries ++ [(k, v)] := if_neg absent
  rw [size, size, added, List.length_append, List.length_singleton]

theorem size_delete_le (d : Registry α) (k : String) : (d.delete k).size ≤ d.size := by
  rw [size_eq, size_eq]
  exact (Assoc.keys_erase_sublist d.entries k).length_le

theorem size_delete_lt (d : Registry α) {k : String} (known : (d.get? k).isSome) :
    (d.delete k).size < d.size := by
  rcases Nat.lt_or_eq_of_le (d.size_delete_le k) with less | same
  · exact less
  · -- nothing would have been deleted, not even the key
    rw [size_eq, size_eq] at same
    have kept := (Assoc.keys_erase_sublist d.entries k).eq_of_length same
    have member : k ∈ Assoc.keys (d.delete k).entries := by
      rw [delete, kept]
      exact (Assoc.get?_isSome_iff d.entries k).mp known
    rw [← Assoc.get?_isSome_iff] at member
    change ((d.delete k).get? k).isSome at member
    rw [get?_delete, if_pos rfl] at member
    cases member

theorem mem_entries_iff (d : Registry α) (k : String) (v : α) :
    (k, v) ∈ d.entries ↔ d.get? k = some v :=
  Assoc.mem_iff_get? d.nodup k v

end Registry

/-! ### Sets -/

/-- `set.add(x)`. -/
def addTo (set : List String) (x : String) : List String := if x ∈ set then set else set ++ [x]

/-- `set.delete(x)`. -/
def removeFrom (set : List String) (x : String) : List String := set.filter (· ≠ x)

@[simp] theorem mem_addTo {set : List String} {x y : String} :
    y ∈ addTo set x ↔ y ∈ set ∨ y = x := by
  unfold addTo
  split
  next present =>
    constructor
    · exact .inl
    · rintro (old | rfl)
      · exact old
      · exact present
  next => simp

@[simp] theorem mem_removeFrom {set : List String} {x y : String} :
    y ∈ removeFrom set x ↔ y ∈ set ∧ y ≠ x := by
  simp [removeFrom]

end Script
