import Mathlib.Data.List.Basic
import Mathlib.Order.Defs.Unbundled

/-!
# Paging by a key

A list in strict order is read page by page. A page ends with the key of its last element, and
the next page starts after that key. What is after an element in the order is what is after it
in the list, so the pages are consecutive parts.
-/

namespace Script.Keyset

universe u

variable {α : Type u} {R : α → α → Prop} [DecidableRel R]

theorem filter_after [Std.Asymm R] {front back : List α} {x : α}
    (sorted : (front ++ x :: back).Pairwise R) :
    (front ++ x :: back).filter (fun y => decide (R x y)) = back := by
  obtain ⟨_, later, before⟩ := List.pairwise_append.mp sorted
  rw [List.filter_append]
  have none : front.filter (fun y => decide (R x y)) = [] := by
    rw [List.filter_eq_nil_iff]
    intro y member after
    have first := before y member x List.mem_cons_self
    exact Std.Asymm.asymm y x first (of_decide_eq_true after)
  have all : back.filter (fun y => decide (R x y)) = back := by
    rw [List.filter_eq_self]
    exact fun y member => decide_eq_true ((List.pairwise_cons.mp later).1 y member)
  have self : ¬ R x x := fun loop => Std.Asymm.asymm x x loop loop
  rw [none, List.filter_cons_of_neg (by simpa using self), all, List.nil_append]

theorem exists_last {rest : List α} {limit : Nat} (some : 0 < limit) (more : limit < rest.length) :
    ∃ front x, rest.take limit = front ++ [x] ∧ rest = front ++ x :: rest.drop limit := by
  have length : (rest.take limit).length = limit := List.length_take_of_le (Nat.le_of_lt more)
  have nonempty : rest.take limit ≠ [] := by
    intro none
    rw [none] at length
    exact absurd length.symm (Nat.ne_of_gt some)
  refine ⟨(rest.take limit).dropLast, (rest.take limit).getLast nonempty, ?_, ?_⟩
  · exact (List.dropLast_append_getLast nonempty).symm
  · have whole := List.take_append_drop limit rest
    rw [← List.dropLast_append_getLast nonempty, List.append_assoc] at whole
    exact whole.symm

end Script.Keyset
