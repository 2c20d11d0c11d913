import Mathlib.Algebra.BigOperators.Group.Finset.Basic

/-!
# Cumulative meters

Several meters report running totals, in any order and any number of times. What was spent is
the largest report of each meter, summed over the meters.
-/

namespace Script.Metering

variable {κ : Type*} [DecidableEq κ]

/-- The largest report of a meter, `0` before its first. -/
def peak (reports : List (κ × Nat)) (meter : κ) : Nat :=
  ((reports.filter (·.1 = meter)).map (·.2)).foldr max 0

def spent (reports : List (κ × Nat)) : Nat :=
  ∑ meter ∈ (reports.map (·.1)).toFinset, peak reports meter

theorem foldr_max (xs : List Nat) (y : Nat) : xs.foldr max y = max (xs.foldr max 0) y := by
  induction xs with
  | nil => simp
  | cons x xs ih => simp only [List.foldr_cons, ih, max_assoc]

theorem peak_append_self (reports : List (κ × Nat)) (meter : κ) (value : Nat) :
    peak (reports ++ [(meter, value)]) meter = max (peak reports meter) value := by
  have last := foldr_max ((reports.filter (·.1 = meter)).map (·.2)) value
  simpa [peak, List.filter_append] using last

theorem peak_append_other (reports : List (κ × Nat)) {meter other : κ} (value : Nat)
    (differ : meter ≠ other) : peak (reports ++ [(meter, value)]) other = peak reports other := by
  simp [peak, List.filter_append, differ]

theorem peak_of_new {reports : List (κ × Nat)} {meter : κ} (new : meter ∉ reports.map (·.1)) :
    peak reports meter = 0 := by
  have silent : reports.filter (·.1 = meter) = [] := by
    simp only [List.filter_eq_nil_iff, decide_eq_true_eq]
    rintro entry member rfl
    exact new (List.mem_map_of_mem member)
  simp [peak, silent]

theorem spent_append (reports : List (κ × Nat)) (meter : κ) (value : Nat) :
    spent (reports ++ [(meter, value)]) + peak reports meter =
      spent reports + max (peak reports meter) value := by
  let others := (reports.map (·.1)).toFinset.erase meter
  have same : ∑ k ∈ others, peak (reports ++ [(meter, value)]) k = ∑ k ∈ others, peak reports k :=
    Finset.sum_congr rfl fun k member =>
      peak_append_other reports value (Finset.ne_of_mem_erase member).symm
  have meters : ((reports ++ [(meter, value)]).map (·.1)).toFinset = insert meter others := by
    ext k
    simp [others]
    tauto
  have after : spent (reports ++ [(meter, value)]) =
      max (peak reports meter) value + ∑ k ∈ others, peak reports k := by
    rw [spent, meters, Finset.sum_insert (Finset.notMem_erase _ _), peak_append_self, same]
  have before : spent reports = peak reports meter + ∑ k ∈ others, peak reports k := by
    by_cases known : meter ∈ (reports.map (·.1)).toFinset
    · rw [spent, ← Finset.add_sum_erase _ _ known]
    · have alone : others = (reports.map (·.1)).toFinset := Finset.erase_eq_of_notMem known
      rw [alone, peak_of_new (fun member => known (List.mem_toFinset.mpr member)), zero_add, spent]
  omega

end Script.Metering
