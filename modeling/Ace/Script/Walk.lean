import Mathlib.Data.List.Nodup
import Mathlib.Data.List.Basic
import Mathlib.Data.List.Perm.Subperm

/-!
# Walking a chain of links

The loop `while (key !== undefined && !visited.has(key))` over a partial successor
function. `walk` lists the keys it visits, in order. With as much fuel as there are keys
with a successor, plus one, it visits exactly the keys that repeated steps reach.
-/

namespace Script

variable {κ : Type} [DecidableEq κ]

/-- The keys met by following `next` from `start` until it ends or meets a visited key. -/
def walk (next : κ → Option κ) : Nat → List κ → Option κ → List κ
  | 0, _, _ => []
  | _ + 1, _, none => []
  | fuel + 1, visited, some key =>
    if key ∈ visited then [] else key :: walk next fuel (key :: visited) (next key)

/-- `Reaches next k l`: repeated steps lead from `k` to `l`, zero of them included. -/
inductive Reaches (next : κ → Option κ) : κ → κ → Prop where
  | here (k : κ) : Reaches next k k
  | step {k m l : κ} : next k = some m → Reaches next m l → Reaches next k l

namespace Reaches

variable {next : κ → Option κ} {k l m : κ}

omit [DecidableEq κ] in
theorem trans (h : Reaches next k l) (h' : Reaches next l m) : Reaches next k m := by
  induction h with
  | here => exact h'
  | step link _ ih => exact .step link (ih h')

end Reaches

section

variable {next : κ → Option κ}

theorem walk_sublist_reaches {fuel : Nat} {visited : List κ} {start l : κ}
    (h : l ∈ walk next fuel visited (some start)) : Reaches next start l := by
  induction fuel generalizing visited start with
  | zero => simp [walk] at h
  | succ fuel ih =>
    simp only [walk] at h
    split at h
    next => simp at h
    next =>
      rcases List.mem_cons.mp h with rfl | tail
      · exact .here _
      · cases link : next start with
        | none => rw [link] at tail; cases fuel <;> simp [walk] at tail
        | some m =>
          rw [link] at tail
          exact .step link (ih tail)

/-- The visited keys are left alone, and every walked key but the last has its successor
walked or visited, as long as the fuel lasts. -/
theorem walk_closed {known : List κ} (complete : ∀ k, (next k).isSome → k ∈ known)
    {fuel : Nat} {visited : List κ} (distinct : visited.Nodup) (within : ∀ k ∈ visited, k ∈ known)
    (enough : known.length + 1 ≤ fuel + visited.length) {start l m : κ}
    (h : l ∈ walk next fuel visited (some start)) (link : next l = some m) :
    m ∈ visited ∨ m ∈ walk next fuel visited (some start) := by
  induction fuel generalizing visited start with
  | zero =>
    have bound := (List.subperm_of_subset distinct within).length_le
    omega
  | succ fuel ih =>
    simp only [walk] at h ⊢
    split at h
    next => simp at h
    next fresh =>
      rw [if_neg fresh]
      -- Only a key with a successor is entered with more fuel to spend.
      have extend : ∀ {n : κ}, next start = some n →
          (start :: visited).Nodup ∧ ∀ k ∈ start :: visited, k ∈ known := by
        intro n step
        refine ⟨List.nodup_cons.mpr ⟨fresh, distinct⟩, ?_⟩
        intro k member
        rcases List.mem_cons.mp member with rfl | old
        · exact complete _ (by simp [step])
        · exact within k old
      rcases List.mem_cons.mp h with rfl | tail
      · obtain ⟨distinct', within'⟩ := extend link
        rw [link]
        by_cases seen : m ∈ l :: visited
        · rcases List.mem_cons.mp seen with rfl | old
          · exact .inr (List.mem_cons_self ..)
          · exact .inl old
        · right
          apply List.mem_cons_of_mem
          have bound := (List.subperm_of_subset distinct' within').length_le
          have positive : 0 < fuel := by
            simp only [List.length_cons] at bound
            omega
          obtain ⟨fuel', rfl⟩ : ∃ n, fuel = n + 1 := ⟨fuel - 1, by omega⟩
          simp [walk, seen]
      · cases step : next start with
        | none => rw [step] at tail; cases fuel <;> simp [walk] at tail
        | some n =>
          obtain ⟨distinct', within'⟩ := extend step
          rw [step] at tail
          rcases ih distinct' within' (by simp only [List.length_cons]; omega) tail with
            seen | walked
          · rcases List.mem_cons.mp seen with rfl | old
            · exact .inr (List.mem_cons_self ..)
            · exact .inl old
          · exact .inr (List.mem_cons_of_mem _ walked)

theorem mem_walk_iff {known : List κ} (complete : ∀ k, (next k).isSome → k ∈ known)
    {fuel : Nat} (enough : known.length + 1 ≤ fuel) (start l : κ) :
    l ∈ walk next fuel [] (some start) ↔ Reaches next start l := by
  refine ⟨walk_sublist_reaches, ?_⟩
  intro reach
  have first : start ∈ walk next fuel [] (some start) := by
    obtain ⟨n, rfl⟩ : ∃ n, fuel = n + 1 := ⟨fuel - 1, by omega⟩
    simp [walk]
  suffices closed : ∀ k l, Reaches next k l → k ∈ walk next fuel [] (some start) →
      l ∈ walk next fuel [] (some start) from closed start l reach first
  clear reach
  intro k l reach
  induction reach with
  | here => exact id
  | step link _ ih =>
    intro walked
    rcases walk_closed complete List.nodup_nil (by simp) (by simpa using enough) walked link with
      seen | next_walked
    · simp at seen
    · exact ih next_walked

end

/-! ### Chains without a cycle -/

/-- No step leads back to where it started. -/
def Acyclic (next : κ → Option κ) : Prop := ∀ k p, next k = some p → ¬ Reaches next p k

/-- `next` with the successor of `k` replaced. -/
def redirect (next : κ → Option κ) (k : κ) (target : Option κ) : κ → Option κ :=
  fun l => if l = k then target else next l

theorem reaches_redirect {next : κ → Option κ} {k : κ} {target : Option κ}
    (clear : ∀ p, target = some p → ¬ Reaches next p k) {a b : κ}
    (h : Reaches (redirect next k target) a b) :
    Reaches next a b ∨ (Reaches next a k ∧ ∃ p, target = some p ∧ Reaches next p b) := by
  induction h with
  | here a => exact .inl (.here a)
  | @step a m b link _ ih =>
    simp only [redirect] at link
    split at link
    next same =>
      subst same
      rcases ih with old | ⟨back, _⟩
      · exact .inr ⟨.here a, m, link, old⟩
      · exact absurd back (clear m link)
    next =>
      rcases ih with old | ⟨into, rest⟩
      · exact .inl (.step link old)
      · exact .inr ⟨.step link into, rest⟩

theorem Acyclic.redirect {next : κ → Option κ} (acyclic : Acyclic next) {k : κ}
    {target : Option κ} (clear : ∀ p, target = some p → ¬ Reaches next p k) :
    Acyclic (redirect next k target) := by
  intro l q link back
  simp only [Script.redirect] at link
  split at link
  next same =>
    subst same
    rcases reaches_redirect clear back with old | ⟨into, _⟩
    · exact clear q link old
    · exact clear q link into
  next =>
    rcases reaches_redirect clear back with old | ⟨into, p, target_eq, rest⟩
    · exact acyclic l q link old
    · exact clear p target_eq (rest.trans (.step link into))

omit [DecidableEq κ] in
theorem Reaches.eq_or_successor {next : κ → Option κ} {a b : κ} (h : Reaches next a b) :
    a = b ∨ ∃ k, next k = some b := by
  induction h with
  | here => exact .inl rfl
  | @step a m b link _ ih =>
    rcases ih with rfl | found
    · exact .inr ⟨a, link⟩
    · exact .inr found

end Script
