import Ace.Script.Copy
import Ace.Script.Schema

/-!
# Members that a schema fills in

An object may leave out a member whose value its schema would give it anyway: the object reads the
same. A schema that does not know the member does not see it either.
-/

namespace Script

open Schema

/-- Every schema of the member `k` gives a missing one what it gives `d`. -/
def FillsIn (k : String) (d : Value) (shape : List (String × Schema)) : Prop :=
  ∀ s, (k, s) ∈ shape → ∃ w, w.isUndefined = false ∧ s .undefined = some w ∧ s d = some w

/-- Leaving out the member `k` when it is `d` is not seen. -/
def IgnoresDefault (k : String) (d : Value) (s : Schema) : Prop :=
  ∀ fs, Assoc.get? fs k = some d → s (.obj (Assoc.erase k fs)) = s (.obj fs)

variable {k : String} {d : Value}

theorem objectFields_erase {shape : List (String × Schema)} {fs : List (String × Value)}
    (fills : FillsIn k d shape) (present : Assoc.get? fs k = some d) :
    objectFields shape (Assoc.erase k fs) = objectFields shape fs := by
  induction shape with
  | nil => rfl
  | cons p shape ih =>
    obtain ⟨k', s⟩ := p
    have rest : objectFields shape (Assoc.erase k fs) = objectFields shape fs :=
      ih fun s member => fills s (List.mem_cons_of_mem _ member)
    rw [objectFields, objectFields, rest, Assoc.get?_erase]
    by_cases same : k = k'
    · subst same
      obtain ⟨w, defined, filled, kept⟩ := fills s List.mem_cons_self
      simp [present, filled, kept, defined]
    · rw [if_neg same]

theorem ignoresDefault_object {shape : List (String × Schema)} (fills : FillsIn k d shape) :
    IgnoresDefault k d (object shape) := by
  intro fs present
  rw [object, object, objectFields_erase fills present]

theorem IgnoresDefault.requireMember {s : Schema} (ignores : IgnoresDefault k d s) {name : String}
    (other : k ≠ name) : IgnoresDefault k d (requireMember name s) := by
  intro fs present
  have same : (Value.obj (Assoc.erase k fs)).hasOwn name = (Value.obj fs).hasOwn name := by
    simp [Value.hasOwn, Value.fields, Assoc.get?_erase, other]
  rw [Schema.requireMember, Schema.requireMember, same, ignores fs present]

theorem ignoresDefault_discriminated {key : String} {options : List (List String × Schema)}
    (other : k ≠ key) (ignores : ∀ option ∈ options, IgnoresDefault k d option.2) :
    IgnoresDefault k d (discriminated key options) := by
  intro fs present
  have same : (Value.obj (Assoc.erase k fs)).field key = (Value.obj fs).field key := by
    simp [Value.field, Value.fields, Assoc.get?_erase, other]
  rw [discriminated, discriminated, same]
  split
  next tag _ =>
    cases found : options.find? fun option => option.1.contains tag with
    | none => rfl
    | some option => exact ignores option (List.mem_of_find?_eq_some found) fs present
  next => rfl

/-! ### Text of what is left -/

theorem erase_eq_filter {α : Type} (k : String) (fs : List (String × α)) :
    Assoc.erase k fs = fs.filter fun entry => entry.1 ≠ k := by
  induction fs with
  | nil => rfl
  | cons entry fs ih =>
    obtain ⟨k', v⟩ := entry
    by_cases same : k' = k <;> simp [Assoc.erase, same, ih]

theorem erase_comm {α : Type} (k k' : String) (fs : List (String × α)) :
    Assoc.erase k (Assoc.erase k' fs) = Assoc.erase k' (Assoc.erase k fs) := by
  simp only [erase_eq_filter]
  exact List.filter_comm _ _ _

theorem jsonFields_erase (fs : List (String × Value)) (k : String) :
    Value.jsonFields (Assoc.erase k fs) = Assoc.erase k (Value.jsonFields fs) := by
  induction fs with
  | nil => rfl
  | cons entry fs ih =>
    obtain ⟨k', v⟩ := entry
    rw [Assoc.erase, Value.jsonFields]
    by_cases same : k' = k
    · subst same
      rw [if_pos rfl, ih]
      split
      · rw [erase_eq_filter, erase_eq_filter, List.filter_filter]
        simp
      · rw [Assoc.erase, if_pos rfl]
    · rw [if_neg same, Value.jsonFields, ih]
      split
      · rw [erase_comm]
      · rw [Assoc.erase, if_neg same]

end Script
