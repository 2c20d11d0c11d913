import Mathlib.Data.List.Pairwise
import Mathlib.Data.List.Sort

/-!
# Lists sorted by two orders

When two orders that need not agree sort a list alike: exactly when they agree on its members.
-/

namespace Script

variable {α : Type} {r s : α → α → Prop} {l m : List α}

theorem sorted_eq_of_agree (antisymm : ∀ a ∈ l, ∀ b ∈ l, r a b → r b a → a = b)
    (agree : ∀ a ∈ l, ∀ b ∈ l, r a b ↔ s a b) (sorted : l.Pairwise r) (sorted' : m.Pairwise s)
    (perm : l.Perm m) : l = m := by
  have resorted : m.Pairwise r := sorted'.imp_of_mem fun {a b} inA inB related =>
    (agree a (perm.mem_iff.mpr inA) b (perm.mem_iff.mpr inB)).mpr related
  apply perm.eq_of_pairwise (fun a b inA inB => antisymm a inA b (perm.mem_iff.mpr inB)) sorted
  exact resorted

theorem agree_of_sorted (antisymm : ∀ a ∈ l, ∀ b ∈ l, r a b → r b a → a = b)
    (antisymm' : ∀ a ∈ l, ∀ b ∈ l, s a b → s b a → a = b) (refl : ∀ a, r a a) (refl' : ∀ a, s a a)
    (sorted : l.Pairwise r) (sorted' : l.Pairwise s) :
    ∀ a ∈ l, ∀ b ∈ l, r a b ↔ s a b := by
  have both : l.Pairwise fun a b => (r a b ↔ s a b) ∧ (r b a ↔ s b a) := by
    refine (sorted.and sorted').imp_of_mem fun {a b} inA inB related => ?_
    refine ⟨⟨fun _ => related.2, fun _ => related.1⟩, fun back => ?_, fun back => ?_⟩
    · rw [antisymm a inA b inB related.1 back]
      exact refl' b
    · rw [antisymm' a inA b inB related.2 back]
      exact refl b
  have : Std.Symm fun a b => (r a b ↔ s a b) ∧ (r b a ↔ s b a) := ⟨fun _ _ both => both.symm⟩
  intro a inA b inB
  apply And.left
  apply both.forall_of_forall _ inA inB
  exact fun a _ => ⟨⟨fun _ => refl' a, fun _ => refl a⟩, fun _ => refl' a, fun _ => refl a⟩

end Script
