import Mathlib.Data.Nat.Log
import Mathlib.Tactic.NormNum

/-!
# Counts as doubles

Counts are doubles, so a sum of two counts is exact up to `2 ^ 53` only. Past it every other
count is missing, and a sum that falls between two doubles goes to the even one.
-/

namespace Script

/-- The double nearest to a count, the even one of two. -/
def nearestCount (n : Nat) : Nat :=
  let step := 2 ^ (n.log2 - 52)
  let below := n / step
  let rest := n % step
  if 2 * rest < step ∨ (2 * rest = step ∧ below % 2 = 0) then below * step else (below + 1) * step

/-- `a + b`. -/
def addCounts (a b : Nat) : Nat := nearestCount (a + b)

theorem nearestCount_of_small {n : Nat} (small : n < 2 ^ 53) : nearestCount n = n := by
  have step : 2 ^ (n.log2 - 52) = 1 := by
    rcases Nat.eq_zero_or_pos n with rfl | positive
    · rfl
    · have low : n.log2 < 53 := (Nat.log2_lt (by omega)).mpr small
      have none_left : n.log2 - 52 = 0 := by omega
      rw [none_left, pow_zero]
  simp [nearestCount, step, Nat.mod_one]

theorem nearestCount_of_large {n : Nat} (large : 2 ^ 53 ≤ n) (bound : n < 2 ^ 54) :
    nearestCount n = if n % 4 = 3 then n + 1 else n - n % 2 := by
  have step : 2 ^ (n.log2 - 52) = 2 := by
    have below : n.log2 < 54 := (Nat.log2_lt (by omega)).mpr bound
    have above : ¬ n.log2 < 53 := fun low =>
      absurd ((Nat.log2_lt (by omega)).mp low) (by omega)
    have one_left : n.log2 - 52 = 1 := by omega
    rw [one_left, pow_one]
  simp only [nearestCount, step]
  split <;> split <;> omega

theorem addCounts_of_small {a b : Nat} (small : a + b ≤ 2 ^ 53) : addCounts a b = a + b := by
  rcases Nat.lt_or_ge (a + b) (2 ^ 53) with below | above
  · exact nearestCount_of_small below
  · have bound : a + b < 2 ^ 54 := by omega
    rw [addCounts, nearestCount_of_large above bound]
    have at_ : a + b = 2 ^ 53 := by omega
    rw [at_]
    norm_num

end Script
