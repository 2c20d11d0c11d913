import Mathlib.Data.List.Basic
import Mathlib.Data.List.Nodup

/-!
# Dictionaries in property order

A finite map from strings that remembers the order in which an ECMAScript object
enumerates its own properties: canonical array indices first, in numeric order, then
every other key in the order of its first insertion. Replacing a value keeps the
position of its key.

`Assoc` has the operations on the raw list of entries; `Dictionary` adds the proof that
no key occurs twice. Proofs about programs need `get?` of each operation and, for
loops over the entries, that a replacement keeps the list of keys.
-/

namespace Script

universe u v

/-- The value of a canonical array index (`0`, `1`, … below `2^32 - 1`), if `key` is one. -/
def arrayIndex? (key : String) : Option Nat :=
  let digits := key.toList
  if digits.all Char.isDigit && (digits.length == 1 || digits.head? != some '0') &&
      !digits.isEmpty then
    let n := digits.foldl (fun n c => n * 10 + (c.toNat - '0'.toNat)) 0
    if n < 4294967295 then some n else none
  else none

/-- Whether the new key `k` is enumerated before the existing key `k'`. -/
def enumeratedBefore (k k' : String) : Bool :=
  match arrayIndex? k, arrayIndex? k' with
  | some n, some m => n < m
  | some _, none => true
  | none, _ => false

namespace Assoc

variable {α : Type u}

def get? : List (String × α) → String → Option α
  | [], _ => none
  | (k', v) :: rest, k => if k' = k then some v else get? rest k

/-- A replacement keeps the position of its key. -/
def replace (k : String) (v : α) : List (String × α) → List (String × α)
  | [] => []
  | (k', v') :: rest => if k' = k then (k', v) :: rest else (k', v') :: replace k v rest

def insertNew (k : String) (v : α) : List (String × α) → List (String × α)
  | [] => [(k, v)]
  | (k', v') :: rest =>
    if enumeratedBefore k k' then (k, v) :: (k', v') :: rest else (k', v') :: insertNew k v rest

def put (k : String) (v : α) (entries : List (String × α)) : List (String × α) :=
  if (get? entries k).isSome then replace k v entries else insertNew k v entries

def erase (k : String) : List (String × α) → List (String × α)
  | [] => []
  | (k', v) :: rest => if k' = k then erase k rest else (k', v) :: erase k rest

def keys (entries : List (String × α)) : List String := entries.map Prod.fst

/-! ### Lookup of each operation -/

theorem get?_isSome_iff (entries : List (String × α)) (k : String) :
    (get? entries k).isSome ↔ k ∈ keys entries := by
  induction entries with
  | nil => simp [get?, keys]
  | cons entry rest ih =>
    obtain ⟨k', v⟩ := entry
    by_cases h : k' = k
    · simp [get?, keys, h]
    · have h' : ¬ k = k' := fun e => h e.symm
      simpa [get?, keys, h, h'] using ih

theorem get?_eq_none_iff (entries : List (String × α)) (k : String) :
    get? entries k = none ↔ k ∉ keys entries := by
  rw [← get?_isSome_iff]
  cases get? entries k <;> simp

theorem get?_replace (entries : List (String × α)) (k k' : String) (v : α) :
    get? (replace k v entries) k' =
      if k = k' then (if (get? entries k).isSome then some v else none) else get? entries k' := by
  induction entries with
  | nil => simp [replace, get?]
  | cons entry rest ih =>
    obtain ⟨k₀, v₀⟩ := entry
    by_cases h₀ : k₀ = k
    · subst h₀
      by_cases h : k₀ = k' <;> simp [replace, get?, h]
    · by_cases h : k = k'
      · subst h
        simp only [replace, get?, h₀, if_false, if_true] at ih ⊢
        exact ih
      · by_cases h₁ : k₀ = k'
        · subst h₁
          simp [replace, get?, h₀, h]
        · simp only [replace, get?, h₀, h₁, h, if_false] at ih ⊢
          exact ih

theorem get?_insertNew (entries : List (String × α)) (k k' : String) (v : α)
    (fresh : get? entries k = none) :
    get? (insertNew k v entries) k' = if k = k' then some v else get? entries k' := by
  induction entries with
  | nil => simp [insertNew, get?]
  | cons entry rest ih =>
    obtain ⟨k₀, v₀⟩ := entry
    by_cases h₀ : k₀ = k
    · simp [get?, h₀] at fresh
    · have rest_fresh : get? rest k = none := by simpa [get?, h₀] using fresh
      have tail := ih rest_fresh
      by_cases before : enumeratedBefore k k₀
      · simp [insertNew, before, get?]
      · by_cases h₁ : k₀ = k'
        · subst h₁
          have h : ¬ k = k₀ := fun e => h₀ e.symm
          simp [insertNew, before, get?, h]
        · simp [insertNew, before, get?, h₁, tail]

theorem get?_put (entries : List (String × α)) (k k' : String) (v : α) :
    get? (put k v entries) k' = if k = k' then some v else get? entries k' := by
  unfold put
  split
  next present => rw [get?_replace]; simp [present]
  next absent =>
    rw [get?_insertNew]
    simpa using absent

theorem get?_erase (entries : List (String × α)) (k k' : String) :
    get? (erase k entries) k' = if k = k' then none else get? entries k' := by
  induction entries with
  | nil => simp [erase, get?]
  | cons entry rest ih =>
    obtain ⟨k₀, v₀⟩ := entry
    by_cases h₀ : k₀ = k
    · subst h₀
      by_cases h : k₀ = k'
      · simpa [erase, get?, h] using ih
      · simp [erase, get?, ih, h]
    · by_cases h : k = k'
      · subst h
        simp [erase, get?, h₀, ih]
      · by_cases h₁ : k₀ = k'
        · subst h₁
          simp [erase, get?, h₀, h]
        · simp [erase, get?, ih, h₀, h₁, h]

/-! ### The list of keys -/

theorem keys_replace (entries : List (String × α)) (k : String) (v : α) :
    keys (replace k v entries) = keys entries := by
  induction entries with
  | nil => rfl
  | cons entry rest ih =>
    by_cases h : entry.1 = k
    · simp [replace, keys, h]
    · simpa [replace, keys, h] using ih

theorem keys_insertNew_perm (entries : List (String × α)) (k : String) (v : α) :
    (keys (insertNew k v entries)).Perm (k :: keys entries) := by
  induction entries with
  | nil => exact List.Perm.refl _
  | cons entry rest ih =>
    by_cases before : enumeratedBefore k entry.1
    · simp [insertNew, before, keys]
    · have step : keys (insertNew k v (entry :: rest)) =
          entry.1 :: keys (insertNew k v rest) := by
        simp [insertNew, before, keys]
      rw [step]
      exact (ih.cons entry.1).trans (List.Perm.swap _ _ _)

theorem nodup_put {entries : List (String × α)} (h : (keys entries).Nodup) (k : String) (v : α) :
    (keys (put k v entries)).Nodup := by
  unfold put
  split
  next => rwa [keys_replace]
  next absent =>
    rw [(keys_insertNew_perm entries k v).nodup_iff, List.nodup_cons]
    refine ⟨?_, h⟩
    rw [← get?_isSome_iff]
    simpa using absent

theorem keys_erase_sublist (entries : List (String × α)) (k : String) :
    (keys (erase k entries)).Sublist (keys entries) := by
  induction entries with
  | nil => exact List.Sublist.refl _
  | cons entry rest ih =>
    by_cases h : entry.1 = k
    · simpa [erase, keys, h] using ih.cons entry.1
    · simpa [erase, keys, h] using ih.cons_cons entry.1

theorem mem_iff_get? {entries : List (String × α)} (h : (keys entries).Nodup)
    (k : String) (v : α) : (k, v) ∈ entries ↔ get? entries k = some v := by
  induction entries with
  | nil => simp [get?]
  | cons entry rest ih =>
    obtain ⟨k₀, v₀⟩ := entry
    have tail : (keys rest).Nodup := (List.nodup_cons.mp h).2
    have absent : k₀ ∉ keys rest := (List.nodup_cons.mp h).1
    by_cases h₀ : k₀ = k
    · subst h₀
      have : (k₀, v) ∉ rest := fun m => absent (List.mem_map.mpr ⟨_, m, rfl⟩)
      simp [get?, this, eq_comm]
    · have h₁ : ¬ k = k₀ := fun e => h₀ e.symm
      simp [get?, h₀, h₁, ih tail]

theorem get?_reverse {entries : List (String × α)} (h : (keys entries).Nodup) (k : String) :
    get? entries.reverse k = get? entries k := by
  have reversed : (keys entries.reverse).Nodup := by
    rw [keys, List.map_reverse, List.nodup_reverse]
    exact h
  apply Option.ext
  intro v
  rw [← mem_iff_get? reversed, ← mem_iff_get? h, List.mem_reverse]

theorem erase_of_get?_none {entries : List (String × α)} {k : String}
    (h : get? entries k = none) : erase k entries = entries := by
  induction entries with
  | nil => rfl
  | cons entry rest ih =>
    obtain ⟨k₀, v₀⟩ := entry
    by_cases h₀ : k₀ = k
    · simp [get?, h₀] at h
    · simp only [erase, h₀, if_false]
      rw [ih (by simpa [get?, h₀] using h)]

theorem replace_get? {entries : List (String × α)} {k : String} {v : α}
    (h : get? entries k = some v) : replace k v entries = entries := by
  induction entries with
  | nil => rfl
  | cons entry rest ih =>
    obtain ⟨k₀, v₀⟩ := entry
    by_cases h₀ : k₀ = k
    · have : v₀ = v := by simpa [get?, h₀] using h
      simp [replace, h₀, this]
    · simp only [replace, h₀, if_false]
      rw [ih (by simpa [get?, h₀] using h)]

theorem replace_replace (entries : List (String × α)) (k : String) (v w : α) :
    replace k w (replace k v entries) = replace k w entries := by
  induction entries with
  | nil => rfl
  | cons entry rest ih =>
    by_cases h : entry.1 = k
    · simp [replace, h]
    · simp [replace, h, ih]

theorem replace_insertNew (entries : List (String × α)) (k : String) (v w : α)
    (absent : get? entries k = none) :
    replace k w (insertNew k v entries) = insertNew k w entries := by
  induction entries with
  | nil => simp [insertNew, replace]
  | cons entry rest ih =>
    obtain ⟨k₀, v₀⟩ := entry
    by_cases h : k₀ = k
    · simp [get?, h] at absent
    · by_cases before : enumeratedBefore k k₀
      · simp [insertNew, before, replace]
      · simp [insertNew, before, replace, h, ih (by simpa [get?, h] using absent)]

theorem put_put (entries : List (String × α)) (k : String) (v w : α) :
    put k w (put k v entries) = put k w entries := by
  have present : (get? (put k v entries) k).isSome := by simp [get?_put]
  conv_lhs => rw [put, if_pos present]
  by_cases h : (get? entries k).isSome
  · simp only [put, if_pos h, replace_replace]
  · simp only [put, if_neg h]
    exact replace_insertNew entries k v w (by simpa using h)

theorem replace_comm (entries : List (String × α)) {k k' : String} (v w : α) (ne : k ≠ k') :
    replace k v (replace k' w entries) = replace k' w (replace k v entries) := by
  induction entries with
  | nil => rfl
  | cons entry rest ih =>
    by_cases h : entry.1 = k
    · have h' : entry.1 ≠ k' := fun same => ne (h.symm.trans same)
      simp [replace, h, ne]
    · by_cases h' : entry.1 = k'
      · simp [replace, h', ne.symm]
      · simp [replace, h, h', ih]

end Assoc

/-- A map from strings with the enumeration order of its keys. -/
structure Dictionary (α : Type u) where
  entries : List (String × α)
  nodup : (Assoc.keys entries).Nodup

namespace Dictionary

variable {α : Type u} {β : Type v}

@[ext]
theorem ext {d e : Dictionary α} (h : d.entries = e.entries) : d = e := by
  cases d; cases e; simp_all

instance [DecidableEq α] : DecidableEq (Dictionary α) := fun d e =>
  decidable_of_iff (d.entries = e.entries) ⟨ext, fun h => h ▸ rfl⟩

def empty : Dictionary α := ⟨[], List.nodup_nil⟩

instance : Inhabited (Dictionary α) := ⟨empty⟩

def get? (d : Dictionary α) (k : String) : Option α := Assoc.get? d.entries k

def put (d : Dictionary α) (k : String) (v : α) : Dictionary α :=
  ⟨Assoc.put k v d.entries, Assoc.nodup_put d.nodup k v⟩

def erase (d : Dictionary α) (k : String) : Dictionary α :=
  ⟨Assoc.erase k d.entries, (Assoc.keys_erase_sublist d.entries k).nodup d.nodup⟩

/-- An update of an existing entry in place. -/
def modify (d : Dictionary α) (k : String) (f : α → α) : Dictionary α :=
  match d.get? k with
  | some v => d.put k (f v)
  | none => d

def contains (d : Dictionary α) (k : String) : Bool := (d.get? k).isSome

def keys (d : Dictionary α) : List String := Assoc.keys d.entries

def values (d : Dictionary α) : List α := d.entries.map Prod.snd

/-- The entries whose value passes `p`. -/
def filter (d : Dictionary α) (p : α → Bool) : Dictionary α :=
  ⟨d.entries.filter fun entry => p entry.2, (List.filter_sublist.map Prod.fst).nodup d.nodup⟩

@[simp] theorem get?_empty (k : String) : (empty : Dictionary α).get? k = none := rfl

@[simp] theorem keys_empty : (empty : Dictionary α).keys = [] := rfl

theorem get?_put (d : Dictionary α) (k k' : String) (v : α) :
    (d.put k v).get? k' = if k = k' then some v else d.get? k' :=
  Assoc.get?_put d.entries k k' v

@[simp] theorem get?_put_self (d : Dictionary α) (k : String) (v : α) :
    (d.put k v).get? k = some v := by simp [get?_put]

theorem get?_put_ne (d : Dictionary α) {k k' : String} (v : α) (h : k ≠ k') :
    (d.put k v).get? k' = d.get? k' := by simp [get?_put, h]

theorem get?_erase (d : Dictionary α) (k k' : String) :
    (d.erase k).get? k' = if k = k' then none else d.get? k' :=
  Assoc.get?_erase d.entries k k'

@[simp] theorem get?_erase_self (d : Dictionary α) (k : String) : (d.erase k).get? k = none := by
  simp [get?_erase]

theorem get?_modify (d : Dictionary α) (k k' : String) (f : α → α) :
    (d.modify k f).get? k' = if k = k' then (d.get? k).map f else d.get? k' := by
  unfold modify
  cases h : d.get? k with
  | none =>
    by_cases e : k = k'
    · subst e
      simp [h]
    · simp [e]
  | some v => simp [get?_put]

@[simp] theorem get?_modify_self (d : Dictionary α) (k : String) (f : α → α) :
    (d.modify k f).get? k = (d.get? k).map f := by simp [get?_modify]

theorem mem_entries_iff (d : Dictionary α) (k : String) (v : α) :
    (k, v) ∈ d.entries ↔ d.get? k = some v :=
  Assoc.mem_iff_get? d.nodup k v

theorem get?_filter_eq_some (d : Dictionary α) (p : α → Bool) (k : String) (v : α) :
    (d.filter p).get? k = some v ↔ d.get? k = some v ∧ p v = true := by
  rw [← mem_entries_iff, ← mem_entries_iff]
  exact List.mem_filter

theorem mem_keys_iff (d : Dictionary α) (k : String) : k ∈ d.keys ↔ (d.get? k).isSome :=
  (Assoc.get?_isSome_iff d.entries k).symm

theorem mem_values_iff (d : Dictionary α) (v : α) : v ∈ d.values ↔ ∃ k, d.get? k = some v := by
  simp only [values, List.mem_map, Prod.exists, exists_eq_right]
  exact exists_congr fun k => d.mem_entries_iff k v

theorem put_put (d : Dictionary α) (k : String) (v w : α) : (d.put k v).put k w = d.put k w :=
  ext (Assoc.put_put d.entries k v w)

theorem put_eq_self {d : Dictionary α} {k : String} {v : α} (h : d.get? k = some v) :
    d.put k v = d := by
  apply ext
  have present : (Assoc.get? d.entries k).isSome := by
    show (d.get? k).isSome
    simp [h]
  simp only [put, Assoc.put, if_pos present]
  exact Assoc.replace_get? h

theorem put_comm {d : Dictionary α} {k k' : String} (v w : α) (ne : k ≠ k')
    (h : (d.get? k).isSome) (h' : (d.get? k').isSome) :
    (d.put k' w).put k v = (d.put k v).put k' w := by
  apply ext
  have first : (Assoc.get? d.entries k).isSome := h
  have second : (Assoc.get? d.entries k').isSome := h'
  have first' : (Assoc.get? (Assoc.replace k' w d.entries) k).isSome := by
    simpa [Assoc.get?_replace, ne.symm] using first
  have second' : (Assoc.get? (Assoc.replace k v d.entries) k').isSome := by
    simpa [Assoc.get?_replace, ne] using second
  simp only [put, Assoc.put, if_pos first, if_pos second, if_pos first', if_pos second']
  exact Assoc.replace_comm d.entries v w ne

theorem length_keys_put {d : Dictionary α} {k : String} (v : α) (absent : d.get? k = none) :
    (d.put k v).keys.length = d.keys.length + 1 := by
  have missing : ¬ (Assoc.get? d.entries k).isSome := by
    rw [show Assoc.get? d.entries k = none from absent]
    simp
  simp only [keys, put, Assoc.put, if_neg missing]
  rw [(Assoc.keys_insertNew_perm d.entries k v).length_eq]
  rfl

theorem keys_put_of_mem {d : Dictionary α} {k : String} (v : α) (h : (d.get? k).isSome) :
    (d.put k v).keys = d.keys := by
  have present : (Assoc.get? d.entries k).isSome := h
  simp only [keys, put, Assoc.put, if_pos present]
  exact Assoc.keys_replace d.entries k v

theorem modify_of_get? {d : Dictionary α} {k : String} {v : α} (h : d.get? k = some v)
    (f : α → α) : d.modify k f = d.put k (f v) := by simp [modify, h]

theorem modify_modify (d : Dictionary α) (k : String) (f g : α → α) :
    (d.modify k f).modify k g = d.modify k fun v => g (f v) := by
  cases h : d.get? k with
  | none => simp [modify, h]
  | some v =>
    rw [modify_of_get? h, modify_of_get? h, modify_of_get? (get?_put_self d k (f v)), put_put]

theorem modify_congr {d : Dictionary α} {k : String} {v : α} (h : d.get? k = some v)
    {f g : α → α} (same : f v = g v) : d.modify k f = d.modify k g := by
  rw [modify_of_get? h, modify_of_get? h, same]

end Dictionary

end Script
