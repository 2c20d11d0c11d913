import Mathlib.Data.List.Infix
import Mathlib.Data.List.Count

/-!
# The newest of two lanes

A list, newest first, whose entries belong to one of two lanes. `newest` keeps a number of
entries of each lane, the newest ones, in the order of the list. It is a take on each lane,
and keeping from what was kept is keeping from the whole list as long as no lane asks for
more than was kept.
-/

namespace Script

variable {α : Type} (p : α → Bool)

/-- The newest `r` entries with `p` and the newest `o` entries without it. -/
def newest : List α → Nat → Nat → List α
  | [], _, _ => []
  | x :: xs, r, o =>
    if p x then
      if 0 < r then x :: newest xs (r - 1) o else newest xs r o
    else if 0 < o then x :: newest xs r (o - 1)
    else newest xs r o

theorem newest_sublist (xs : List α) (r o : Nat) : List.Sublist (newest p xs r o) xs := by
  induction xs generalizing r o with
  | nil => exact .slnil
  | cons x xs ih =>
    unfold newest
    split <;> split
    all_goals first
      | exact (ih _ _).cons_cons x
      | exact (ih _ _).cons x

theorem filter_newest (xs : List α) (r o : Nat) :
    (newest p xs r o).filter p = (xs.filter p).take r ∧
    (newest p xs r o).filter (!p ·) = (xs.filter (!p ·)).take o := by
  induction xs generalizing r o with
  | nil => simp [newest]
  | cons x xs ih =>
    unfold newest
    by_cases here : p x = true
    · cases r with
      | zero => simpa [here] using ih 0 o
      | succ r => simpa [here] using ih r o
    · simp only [Bool.not_eq_true] at here
      cases o with
      | zero => simpa [here] using ih r 0
      | succ o => simpa [here] using ih r o

theorem countP_newest (xs : List α) (r o : Nat) :
    (newest p xs r o).countP p = min r (xs.countP p) ∧
    (newest p xs r o).countP (!p ·) = min o (xs.countP (!p ·)) := by
  obtain ⟨lane, others⟩ := filter_newest p xs r o
  constructor
  · rw [List.countP_eq_length_filter, lane, List.length_take, List.countP_eq_length_filter]
  · rw [List.countP_eq_length_filter, others, List.length_take, List.countP_eq_length_filter]

theorem length_eq_countP_add (xs : List α) : xs.length = xs.countP p + xs.countP (!p ·) := by
  rw [List.length_eq_countP_add_countP p]
  congr 1
  exact List.countP_congr fun x _ => by simp

theorem length_newest (xs : List α) (r o : Nat) :
    (newest p xs r o).length = min r (xs.countP p) + min o (xs.countP (!p ·)) := by
  obtain ⟨lane, others⟩ := countP_newest p xs r o
  rw [length_eq_countP_add p, lane, others]

theorem newest_append (ys xs : List α) (r o : Nat) :
    newest p (ys ++ xs) r o =
      newest p ys r o ++ newest p xs (r - ys.countP p) (o - ys.countP (!p ·)) := by
  induction ys generalizing r o with
  | nil => simp [newest]
  | cons y ys ih =>
    simp only [List.cons_append, newest]
    by_cases here : p y = true
    · cases r with
      | zero => simp [here, ih]
      | succ r => simp [here, ih, Nat.add_sub_add_right]
    · simp only [Bool.not_eq_true] at here
      cases o with
      | zero => simp [here, ih]
      | succ o => simp [here, ih, Nat.add_sub_add_right]

theorem newest_all (xs : List α) {r o : Nat} (lane : xs.countP p ≤ r)
    (others : xs.countP (!p ·) ≤ o) : newest p xs r o = xs := by
  apply (newest_sublist p xs r o).eq_of_length
  rw [length_newest, length_eq_countP_add p xs]
  omega

theorem newest_newest (xs : List α) {r o r' o' : Nat} (lane : r ≤ r') (others : o ≤ o') :
    newest p (newest p xs r' o') r o = newest p xs r o := by
  induction xs generalizing r o r' o' with
  | nil => rfl
  | cons x xs ih =>
    by_cases here : p x = true
    · by_cases room : 0 < r'
      · by_cases wanted : 0 < r
        · simp only [newest, here, room, wanted, if_true]
          rw [ih (Nat.sub_le_sub_right lane 1) others]
        · simp only [newest, here, room, wanted, if_true, if_false]
          exact ih (by omega) others
      · have none_wanted : ¬ 0 < r := by omega
        simp only [newest, here, room, none_wanted, if_true, if_false]
        exact ih lane others
    · by_cases room : 0 < o'
      · by_cases wanted : 0 < o
        · simp only [newest, here, room, wanted, if_true, if_false, Bool.false_eq_true]
          rw [ih lane (Nat.sub_le_sub_right others 1)]
        · simp only [newest, here, room, wanted, if_true, if_false, Bool.false_eq_true]
          exact ih lane (by omega)
      · have none_wanted : ¬ 0 < o := by omega
        simp only [newest, here, room, none_wanted, if_false, Bool.false_eq_true]
        exact ih lane others

end Script
