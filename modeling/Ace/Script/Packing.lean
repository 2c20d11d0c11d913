import Mathlib.Data.List.Basic

/-!
# Packing a list into bounded frames

Elements are taken in order. A frame is closed when the next element would make it too large,
and never while it is empty: an element that is too large by itself travels alone.
-/

namespace Script

variable {α : Type}

/-- The frames that are closed, and the one that is still open. A new frame costs `base`. -/
def pack (size : α → Nat) (limit base : Nat) : List α → Nat → List α → List (List α) × List α
  | frame, _, [] => ([], frame)
  | frame, bytes, x :: xs =>
    if !frame.isEmpty && limit < bytes + size x then
      let (frames, last) := pack size limit base [x] (base + size x) xs
      (frame :: frames, last)
    else pack size limit base (frame ++ [x]) (bytes + size x) xs

section

variable (size : α → Nat) (limit base : Nat) (frame xs : List α) (bytes : Nat)

theorem flatten_pack : (pack size limit base frame bytes xs).1.flatten ++
    (pack size limit base frame bytes xs).2 = frame ++ xs := by
  induction xs generalizing frame bytes with
  | nil => simp [pack]
  | cons x xs ih =>
    rw [pack]
    split
    · simp [ih]
    · rw [ih]
      simp

theorem pack_ne_nil : ∀ closed ∈ (pack size limit base frame bytes xs).1, closed ≠ [] := by
  induction xs generalizing frame bytes with
  | nil => simp [pack]
  | cons x xs ih =>
    rw [pack]
    split
    next full =>
      intro closed member
      rcases List.mem_cons.mp member with rfl | later
      · intro empty
        simp [empty] at full
      · exact ih _ _ closed later
    next => exact ih _ _

theorem pack_last_ne_nil (some_left : frame ++ xs ≠ []) :
    (pack size limit base frame bytes xs).2 ≠ [] := by
  induction xs generalizing frame bytes with
  | nil => simpa [pack] using some_left
  | cons x xs ih =>
    rw [pack]
    split
    · exact ih _ _ (by simp)
    · exact ih _ _ (by simp)

end

end Script
