import Ace.Script.Schema

/-!
# Parsing what was parsed

A schema is idempotent if it accepts what it returns and leaves it alone. The object schemas of
idempotent members are: what they return fits their shape, and whatever fits a shape is left alone,
also after a member was removed or replaced by one that its schema leaves alone.
-/

namespace Script.Schema

def Idempotent (s : Schema) : Prop := ∀ v w, s v = some w → s w = some w

/-! ### Schemas of members -/

theorem Exact.idempotent {s : Schema} (exact : Exact s) : Idempotent s := by
  intro v w parsed
  have same := exact v w parsed
  rw [← same] at parsed
  rw [same] at parsed ⊢
  exact parsed

theorem exact_boolean : Exact boolean := by
  intro v w parsed
  cases v with
  | bool b => exact (Option.some.inj parsed).symm
  | _ => cases parsed

theorem exact_enumeration (names : List String) : Exact (enumeration names) := by
  intro v w parsed
  cases v with
  | str s =>
    simp only [enumeration] at parsed
    split at parsed
    · exact (Option.some.inj parsed).symm
    · cases parsed
  | _ => cases parsed

theorem Exact.nullable {s : Schema} (exact : Exact s) : Exact (nullable s) := by
  intro v w parsed
  cases v with
  | null => exact (Option.some.inj parsed).symm
  | _ => exact exact _ w parsed

theorem Idempotent.optional {s : Schema} (again : Idempotent s) : Idempotent (optional s) := by
  intro v w parsed
  by_cases missing : w = .undefined
  · rw [missing]
    rfl
  · have present : ∀ u, u ≠ Value.undefined → Schema.optional s u = s u := by
      intro u isPresent
      cases u with
      | undefined => exact absurd rfl isPresent
      | _ => rfl
    have notUndefined : v ≠ .undefined := by
      rintro rfl
      exact missing (Option.some.inj parsed).symm
    rw [present w missing]
    rw [present v notUndefined] at parsed
    exact again v w parsed

theorem Idempotent.refine {s : Schema} (again : Idempotent s) (check : Value → Bool) :
    Idempotent (refine s check) := by
  intro v w parsed
  simp only [Schema.refine, Option.bind_eq_some_iff] at parsed ⊢
  obtain ⟨u, first, checked⟩ := parsed
  split at checked
  next passes =>
    cases checked
    exact ⟨w, again v w first, if_pos passes⟩
  · cases checked

theorem arrayElements_again {element : Schema} (again : Idempotent element) {vs : List Value} :
    ∀ {ws : List Value}, arrayElements element vs = some ws →
      arrayElements element ws = some ws ∧ ws.length = vs.length := by
  induction vs with
  | nil =>
    intro ws parsed
    cases parsed
    exact ⟨rfl, rfl⟩
  | cons v vs ih =>
    intro ws parsed
    simp only [arrayElements, Option.bind_eq_bind, Option.bind_eq_some_iff, Option.pure_def,
      Option.some.injEq] at parsed
    obtain ⟨u, first, us, rest, rfl⟩ := parsed
    obtain ⟨still, length⟩ := ih rest
    refine ⟨?_, by rw [List.length_cons, List.length_cons, length]⟩
    simp only [arrayElements, Option.bind_eq_bind, again v u first, still, Option.bind_some,
      Option.pure_def]

theorem Idempotent.arrayOf {element : Schema} (again : Idempotent element) (check : Nat → Bool) :
    Idempotent (arrayOf element check) := by
  intro v w parsed
  cases v with
  | arr vs =>
    simp only [Schema.arrayOf] at parsed
    split at parsed
    next passes =>
      obtain ⟨ws, elements, rfl⟩ := Option.map_eq_some_iff.mp parsed
      obtain ⟨still, length⟩ := arrayElements_again again elements
      simp only [Schema.arrayOf]
      rw [length, if_pos passes, still]
      rfl
    · cases parsed
  | _ => cases parsed

/-! ### Objects -/

/-- Members in the order of a shape, each left alone by its schema. -/
inductive Fits : List (String × Schema) → List (String × Value) → Prop where
  | nil : Fits [] []
  | member {k : String} {s : Schema} {shape : List (String × Schema)} {v : Value}
      {out : List (String × Value)} : s v = some v → Fits shape out →
      Fits ((k, s) :: shape) ((k, v) :: out)
  | absent {k : String} {s : Schema} {shape : List (String × Schema)}
      {out : List (String × Value)} : s .undefined = some .undefined → Fits shape out →
      Fits ((k, s) :: shape) out

variable {shape : List (String × Schema)} {input out : List (String × Value)}

theorem fits_objectFields (again : ∀ entry ∈ shape, Idempotent entry.2)
    (parsed : objectFields shape input = some out) : Fits shape out := by
  induction shape generalizing out with
  | nil =>
    cases parsed
    exact .nil
  | cons entry shape ih =>
    obtain ⟨k, s⟩ := entry
    simp only [objectFields, Option.bind_eq_bind, Option.bind_eq_some_iff, Option.pure_def,
      Option.some.injEq] at parsed
    obtain ⟨v, first, rest, others, rfl⟩ := parsed
    have still := again (k, s) List.mem_cons_self _ v first
    have fits := ih (fun entry member => again entry (List.mem_cons_of_mem _ member)) others
    split
    next missing =>
      rw [Bool.and_eq_true] at missing
      have isUndefined : v = .undefined := by
        cases v with
        | undefined => rfl
        | _ => cases missing.1
      rw [isUndefined] at still
      exact .absent still fits
    · exact .member still fits

theorem Fits.keys (fits : Fits shape out) : (Assoc.keys out).Sublist (shape.map Prod.fst) := by
  induction fits with
  | nil => exact .slnil
  | member still fits ih => exact ih.cons_cons _
  | absent still fits ih => exact ih.cons _

theorem Fits.objectFields_eq (fits : Fits shape out) (distinct : (shape.map Prod.fst).Nodup)
    {whole : List (String × Value)}
    (agree : ∀ k ∈ shape.map Prod.fst, Assoc.get? whole k = Assoc.get? out k) :
    objectFields shape whole = some out := by
  induction fits with
  | nil => rfl
  | @member k s shape v out still fits ih =>
    rw [List.map_cons, List.nodup_cons] at distinct
    have found : Assoc.get? whole k = some v := by
      rw [agree k List.mem_cons_self, Assoc.get?, if_pos rfl]
    have rest := ih distinct.2 fun k' member => by
      have ne : k ≠ k' := fun same => distinct.1 (same ▸ member)
      rw [agree k' (List.mem_cons_of_mem k member), Assoc.get?, if_neg ne]
    simp only [objectFields, Option.bind_eq_bind, found, Option.getD_some, still,
      Option.bind_some, rest, Option.isNone_some, Bool.and_false, Bool.false_eq_true, if_false,
      Option.pure_def]
  | @absent k s shape out still fits ih =>
    rw [List.map_cons, List.nodup_cons] at distinct
    have missing : Assoc.get? whole k = none := by
      rw [agree k List.mem_cons_self, Assoc.get?_eq_none_iff]
      exact fun member => distinct.1 (fits.keys.subset member)
    have rest := ih distinct.2 fun k' member => agree k' (List.mem_cons_of_mem k member)
    simp only [objectFields, Option.bind_eq_bind, missing, Option.getD_none, still,
      Option.bind_some, rest, Option.isNone_none, Value.isUndefined, Bool.and_self, if_true,
      Option.pure_def]

theorem Fits.erase (fits : Fits shape out) {k : String}
    (optional : ∀ s, (k, s) ∈ shape → s .undefined = some .undefined) :
    Fits shape (Assoc.erase k out) := by
  induction fits with
  | nil => exact .nil
  | @member k' s shape v out still fits ih =>
    have rest := ih fun s member => optional s (List.mem_cons_of_mem _ member)
    rw [Assoc.erase]
    split
    next same =>
      subst same
      exact .absent (optional s List.mem_cons_self) rest
    · exact .member still rest
  | absent still fits ih =>
    exact .absent still (ih fun s member => optional s (List.mem_cons_of_mem _ member))

theorem Fits.replace (fits : Fits shape out) {k : String} {w : Value}
    (accepted : ∀ s, (k, s) ∈ shape → s w = some w) : Fits shape (Assoc.replace k w out) := by
  induction fits with
  | nil => exact .nil
  | @member k' s shape v out still fits ih =>
    rw [Assoc.replace]
    split
    next same =>
      subst same
      exact .member (accepted s List.mem_cons_self) fits
    · exact .member still (ih fun s member => accepted s (List.mem_cons_of_mem _ member))
  | absent still fits ih =>
    exact .absent still (ih fun s member => accepted s (List.mem_cons_of_mem _ member))

theorem fits_of_object (again : ∀ entry ∈ shape, Idempotent entry.2) {v w : Value}
    (parsed : object shape v = some w) : ∃ out, w = .obj out ∧ Fits shape out := by
  cases v with
  | obj fields | exotic fields =>
    obtain ⟨out, members, rfl⟩ := Option.map_eq_some_iff.mp parsed
    exact ⟨out, rfl, fits_objectFields again members⟩
  | _ => cases parsed

theorem Fits.object_eq (fits : Fits shape out) (distinct : (shape.map Prod.fst).Nodup) :
    object shape (.obj out) = some (.obj out) := by
  rw [object, fits.objectFields_eq distinct fun _ _ => rfl]
  rfl

theorem Idempotent.object (distinct : (shape.map Prod.fst).Nodup)
    (again : ∀ entry ∈ shape, Idempotent entry.2) : Idempotent (object shape) := by
  intro v w parsed
  obtain ⟨out, rfl, fits⟩ := fits_of_object again parsed
  exact fits.object_eq distinct

end Script.Schema
