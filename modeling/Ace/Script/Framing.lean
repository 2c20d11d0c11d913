import Mathlib.Data.List.Basic

/-!
# Framing by separators

Cutting a list at the first separator, into the lines between separators, and at the first empty
line. A list that is mapped is cut at the images of its separators, and possibly at more places:
a line survives the map if none of its elements becomes a separator.
-/

namespace Script.Framing

variable {α β : Type} [DecidableEq α] [DecidableEq β]

/-- What stands before the first `sep`, and what stands after it. -/
def cut (sep : α) : List α → Option (List α × List α)
  | [] => none
  | x :: xs => if x = sep then some ([], xs) else (cut sep xs).map fun (l, r) => (x :: l, r)

theorem cut_eq_some_iff {sep : α} {xs l r : List α} :
    cut sep xs = some (l, r) ↔ xs = l ++ sep :: r ∧ sep ∉ l := by
  induction xs generalizing l with
  | nil => simp [cut]
  | cons x xs ih =>
    rw [cut]
    split
    next same =>
      subst same
      constructor
      · intro is_cut
        cases is_cut
        exact ⟨rfl, List.not_mem_nil⟩
      · rintro ⟨split, free⟩
        cases l with
        | nil =>
          obtain ⟨-, rfl⟩ := List.cons.inj split
          rfl
        | cons y l =>
          obtain ⟨rfl, -⟩ := List.cons.inj split
          exact absurd (List.mem_cons_self ..) free
    next ne =>
      constructor
      · intro is_cut
        obtain ⟨⟨l', r'⟩, found, same⟩ := Option.map_eq_some_iff.mp is_cut
        cases same
        obtain ⟨rfl, free⟩ := ih.mp found
        exact ⟨rfl, List.not_mem_cons_of_ne_of_not_mem (Ne.symm ne) free⟩
      · rintro ⟨split, free⟩
        cases l with
        | nil => exact absurd (List.cons.inj split).1 ne
        | cons y l =>
          obtain ⟨rfl, rest⟩ := List.cons.inj split
          rw [ih.mpr ⟨rest, fun member => free (List.mem_cons_of_mem _ member)⟩]
          rfl

/-- The first line and the others. -/
def lines (sep : α) : List α → List α × List (List α)
  | [] => ([], [])
  | x :: xs =>
    if x = sep then ([], (lines sep xs).1 :: (lines sep xs).2)
    else (x :: (lines sep xs).1, (lines sep xs).2)

theorem lines_map {sep : α} {sep' : β} {f : α → β} (image : f sep = sep') (xs : List α) :
    ((∀ x ∈ (lines sep xs).1, f x ≠ sep') →
      (lines sep' (xs.map f)).1 = (lines sep xs).1.map f) ∧
    ∀ line ∈ (lines sep xs).2, (∀ x ∈ line, f x ≠ sep') →
      line.map f ∈ (lines sep' (xs.map f)).2 := by
  induction xs with
  | nil => simp [lines]
  | cons x xs ih =>
    obtain ⟨first, others⟩ := ih
    simp only [List.map_cons, lines]
    by_cases is_sep : x = sep
    · subst is_sep
      simp only [image, if_true]
      refine ⟨fun _ => rfl, fun line member keeps => ?_⟩
      rcases List.mem_cons.mp member with rfl | later
      · rw [first keeps]
        exact List.mem_cons_self ..
      · exact List.mem_cons_of_mem _ (others line later keeps)
    · simp only [if_neg is_sep]
      by_cases becomes : f x = sep'
      · simp only [becomes, if_true]
        refine ⟨fun keeps => absurd becomes (keeps x (List.mem_cons_self ..)), ?_⟩
        intro line member keeps
        exact List.mem_cons_of_mem _ (others line member keeps)
      · simp only [if_neg becomes]
        refine ⟨fun keeps => ?_, others⟩
        rw [first fun y member => keeps y (List.mem_cons_of_mem _ member), List.map_cons]

theorem lines_of_free {sep : α} {line : List α} (free : sep ∉ line) :
    lines sep line = (line, []) := by
  induction line with
  | nil => rfl
  | cons x line ih =>
    have ne : x ≠ sep := fun same => free (same ▸ List.mem_cons_self ..)
    have rest : sep ∉ line := fun member => free (List.mem_cons_of_mem _ member)
    simp only [lines, if_neg ne, ih rest]

theorem lines_cons {sep : α} {line : List α} (free : sep ∉ line) (rest : List α) :
    lines sep (line ++ sep :: rest) = (line, (lines sep rest).1 :: (lines sep rest).2) := by
  induction line with
  | nil => simp only [List.nil_append, lines, if_true]
  | cons x line ih =>
    have ne : x ≠ sep := fun same => free (same ▸ List.mem_cons_self ..)
    have later : sep ∉ line := fun member => free (List.mem_cons_of_mem _ member)
    simp only [List.cons_append, lines, if_neg ne, ih later]

/-- What stands before the first empty line. -/
def beforeBlank (sep : α) : List α → Option (List α)
  | [] => none
  | x :: xs =>
    if x = sep ∧ xs.head? = some sep then some []
    else (beforeBlank sep xs).map (x :: ·)

end Script.Framing
