import Mathlib.Logic.Relation

/-!
# Commands

Imperative code as a state transformer that can throw. `Ensures` is partial correctness
from one starting state. The rules are equivalences, so `simp only` turns a command into the
conditions on its parts, and a call is discharged with the specification of its callee.

`Keeps R` says that whatever a command does is related to its start by `R`. With a
reflexive and transitive `R` it composes without mentioning intermediate states.
-/

namespace Script

universe u

/-- A command over the state `σ` that can throw an `ε`. -/
abbrev Command (σ ε : Type u) := StateT σ (Except ε)

namespace Command

variable {σ ε α β : Type u}

/-- Run `m` when `c` holds. -/
def when (c : Prop) [Decidable c] (m : Command σ ε PUnit) : Command σ ε PUnit :=
  if c then m else pure ⟨⟩

/-- Throw `e` when `c` holds. -/
def refuse (c : Prop) [Decidable c] (e : ε) : Command σ ε PUnit :=
  if c then throw e else pure ⟨⟩

/-- Run `f` on a value that is there. -/
def whenSome {γ : Type u} (o : Option γ) (f : γ → Command σ ε PUnit) : Command σ ε PUnit :=
  match o with
  | some c => f c
  | none => pure ⟨⟩

def Ensures (m : Command σ ε α) (w : σ) (Q : α → σ → Prop) : Prop :=
  ∀ a w', m w = .ok (a, w') → Q a w'

theorem Ensures.mono {m : Command σ ε α} {w : σ} {P Q : α → σ → Prop} (h : Ensures m w P)
    (le : ∀ a w', P a w' → Q a w') : Ensures m w Q :=
  fun a w' run => le a w' (h a w' run)

theorem Ensures.and {m : Command σ ε α} {w : σ} {P Q : α → σ → Prop} (hp : Ensures m w P)
    (hq : Ensures m w Q) : Ensures m w fun a w' => P a w' ∧ Q a w' :=
  fun a w' run => ⟨hp a w' run, hq a w' run⟩

/-! ### Rules for the combinators -/

theorem bind_apply (m : Command σ ε α) (f : α → Command σ ε β) (w : σ) :
    (m >>= f) w = match m w with
      | .ok (a, w') => f a w'
      | .error e => .error e := by
  show (do let (a, s) ← m w; f a s) = _
  cases m w <;> rfl

@[simp] theorem ensures_pure (a : α) (w : σ) (Q : α → σ → Prop) :
    Ensures (pure a : Command σ ε α) w Q ↔ Q a w := by
  constructor
  · intro h; exact h a w rfl
  · intro h a' w' run
    cases run
    exact h

@[simp] theorem ensures_bind (m : Command σ ε α) (f : α → Command σ ε β) (w : σ)
    (Q : β → σ → Prop) :
    Ensures (m >>= f) w Q ↔ Ensures m w fun a w' => Ensures (f a) w' Q := by
  simp only [Ensures, bind_apply]
  constructor
  · intro h a w' run b w'' run'
    apply h b w''
    rw [run]
    exact run'
  · intro h b w'' run
    split at run
    next a w' first => exact h a w' first b w'' run
    next => cases run

@[simp] theorem ensures_map (f : α → β) (m : Command σ ε α) (w : σ) (Q : β → σ → Prop) :
    Ensures (f <$> m) w Q ↔ Ensures m w fun a w' => Q (f a) w' := by
  have same : (f <$> m : Command σ ε β) = m >>= fun a => pure (f a) := by
    rw [bind_pure_comp]
  rw [same, ensures_bind]
  simp only [ensures_pure]

@[simp] theorem ensures_throw (e : ε) (w : σ) (Q : α → σ → Prop) :
    Ensures (throw e : Command σ ε α) w Q := by
  intro a w' run
  cases run

@[simp] theorem ensures_get (w : σ) (Q : σ → σ → Prop) :
    Ensures (get : Command σ ε σ) w Q ↔ Q w w := by
  constructor
  · intro h; exact h w w rfl
  · intro h a w' run
    cases run
    exact h

@[simp] theorem ensures_set (s w : σ) (Q : PUnit → σ → Prop) :
    Ensures (set s : Command σ ε PUnit) w Q ↔ Q ⟨⟩ s := by
  constructor
  · intro h; exact h ⟨⟩ s rfl
  · intro h a w' run
    cases run
    exact h

@[simp] theorem ensures_modify (f : σ → σ) (w : σ) (Q : PUnit → σ → Prop) :
    Ensures (modify f : Command σ ε PUnit) w Q ↔ Q ⟨⟩ (f w) := by
  constructor
  · intro h; exact h ⟨⟩ (f w) rfl
  · intro h a w' run
    cases run
    exact h

@[simp] theorem ensures_when (c : Prop) [Decidable c] (m : Command σ ε PUnit) (w : σ)
    (Q : PUnit → σ → Prop) :
    Ensures (when c m) w Q ↔ (c → Ensures m w Q) ∧ (¬ c → Q ⟨⟩ w) := by
  unfold when
  by_cases h : c <;> simp [h]

@[simp] theorem ensures_refuse (c : Prop) [Decidable c] (e : ε) (w : σ) (Q : PUnit → σ → Prop) :
    Ensures (refuse c e : Command σ ε PUnit) w Q ↔ (¬ c → Q ⟨⟩ w) := by
  unfold refuse
  by_cases h : c <;> simp [h]

@[simp] theorem ensures_whenSome {γ : Type u} (o : Option γ) (f : γ → Command σ ε PUnit) (w : σ)
    (Q : PUnit → σ → Prop) :
    Ensures (whenSome o f) w Q ↔ (∀ c, o = some c → Ensures (f c) w Q) ∧ (o = none → Q ⟨⟩ w) := by
  unfold whenSome
  cases o <;> simp

/-! ### Loops -/

theorem ensures_forM {γ : Type u} {body : γ → Command σ ε PUnit} {I : σ → Prop} (xs : List γ)
    (step : ∀ x ∈ xs, ∀ w, I w → Ensures (body x) w fun _ w' => I w') (w : σ) (start : I w) :
    Ensures (xs.forM body) w fun _ w' => I w' := by
  induction xs generalizing w with
  | nil => simpa using start
  | cons x xs ih =>
    show Ensures (body x >>= fun _ => xs.forM body) w _
    rw [ensures_bind]
    refine Ensures.mono (step x (List.mem_cons_self ..) w start) ?_
    intro _ w' kept
    exact ih (fun y member => step y (List.mem_cons_of_mem _ member)) w' kept

theorem ensures_forM_all {γ : Type u} {body : γ → Command σ ε PUnit} {I : σ → Prop}
    {P : γ → σ → Prop} (xs : List γ)
    (step : ∀ x ∈ xs, ∀ w, I w → Ensures (body x) w fun _ w' =>
      I w' ∧ P x w' ∧ ∀ y, P y w → P y w')
    (w : σ) (start : I w) :
    Ensures (xs.forM body) w fun _ w' =>
      I w' ∧ (∀ x ∈ xs, P x w') ∧ ∀ y, P y w → P y w' := by
  induction xs generalizing w with
  | nil => simpa using start
  | cons x xs ih =>
    show Ensures (body x >>= fun _ => xs.forM body) w _
    rw [ensures_bind]
    refine Ensures.mono (step x (List.mem_cons_self ..) w start) ?_
    rintro _ w' ⟨kept, own, still⟩
    have later := ih (fun y member => step y (List.mem_cons_of_mem _ member)) w' kept
    refine Ensures.mono later ?_
    rintro _ w'' ⟨kept', others, still'⟩
    refine ⟨kept', ?_, fun y held => still' y (still y held)⟩
    rw [List.forall_mem_cons]
    exact ⟨still' x own, others⟩

/-! ### Commands whose faults are known

`Meets E` is `Ensures` with a condition on the faults: the command reaches its postcondition
or throws one of `E`. -/

def Meets (E : ε → Prop) (m : Command σ ε α) (w : σ) (Q : α → σ → Prop) : Prop :=
  match m w with
  | .ok (a, w') => Q a w'
  | .error e => E e

section Meets

variable {E : ε → Prop}

theorem Meets.mono {m : Command σ ε α} {w : σ} {P Q : α → σ → Prop} (h : Meets E m w P)
    (le : ∀ a w', P a w' → Q a w') : Meets E m w Q := by
  unfold Meets at h ⊢
  split at h
  next a w' run => exact le a w' h
  next => exact h

theorem Meets.ensures {m : Command σ ε α} {w : σ} {Q : α → σ → Prop} (h : Meets E m w Q) :
    Ensures m w Q := by
  intro a w' run
  simpa only [Meets, run] using h

theorem meets_pure (a : α) (w : σ) (Q : α → σ → Prop) :
    Meets E (pure a : Command σ ε α) w Q ↔ Q a w := Iff.rfl

theorem meets_bind (m : Command σ ε α) (f : α → Command σ ε β) (w : σ) (Q : β → σ → Prop) :
    Meets E (m >>= f) w Q ↔ Meets E m w fun a w' => Meets E (f a) w' Q := by
  simp only [Meets, bind_apply]
  cases m w <;> rfl

theorem meets_throw (e : ε) (w : σ) (Q : α → σ → Prop) :
    Meets E (throw e : Command σ ε α) w Q ↔ E e := Iff.rfl

theorem meets_get (w : σ) (Q : σ → σ → Prop) :
    Meets E (get : Command σ ε σ) w Q ↔ Q w w := Iff.rfl

theorem meets_set (s w : σ) (Q : PUnit → σ → Prop) :
    Meets E (set s : Command σ ε PUnit) w Q ↔ Q ⟨⟩ s := Iff.rfl

theorem meets_modify (f : σ → σ) (w : σ) (Q : PUnit → σ → Prop) :
    Meets E (modify f : Command σ ε PUnit) w Q ↔ Q ⟨⟩ (f w) := Iff.rfl

theorem meets_when (c : Prop) [Decidable c] (m : Command σ ε PUnit) (w : σ)
    (Q : PUnit → σ → Prop) :
    Meets E (when c m) w Q ↔ (c → Meets E m w Q) ∧ (¬ c → Q ⟨⟩ w) := by
  unfold when
  by_cases h : c <;> simp [h, meets_pure]

theorem meets_ite (c : Prop) [Decidable c] (m n : Command σ ε α) (w : σ) (Q : α → σ → Prop) :
    Meets E (if c then m else n) w Q ↔ (c → Meets E m w Q) ∧ (¬ c → Meets E n w Q) := by
  by_cases h : c <;> simp [h]

theorem meets_refuse (c : Prop) [Decidable c] (e : ε) (w : σ) (Q : PUnit → σ → Prop) :
    Meets E (refuse c e : Command σ ε PUnit) w Q ↔ (c → E e) ∧ (¬ c → Q ⟨⟩ w) := by
  unfold refuse
  by_cases h : c <;> simp [h, meets_pure, meets_throw]

theorem meets_whenSome {γ : Type u} (o : Option γ) (f : γ → Command σ ε PUnit) (w : σ)
    (Q : PUnit → σ → Prop) :
    Meets E (whenSome o f) w Q ↔ (∀ c, o = some c → Meets E (f c) w Q) ∧ (o = none → Q ⟨⟩ w) := by
  unfold whenSome
  cases o <;> simp [meets_pure]

theorem meets_forM {γ : Type u} (body : γ → Command σ ε PUnit) (I : List γ → σ → Prop)
    (step : ∀ x rest w, I (x :: rest) w → Meets E (body x) w fun _ w' => I rest w')
    (xs : List γ) (w : σ) (start : I xs w) : Meets E (xs.forM body) w fun _ w' => I [] w' := by
  induction xs generalizing w with
  | nil => exact start
  | cons x xs ih =>
    show Meets E (body x >>= fun _ => xs.forM body) w _
    rw [meets_bind]
    apply Meets.mono (step x xs w start)
    intro _ w' kept
    exact ih w' kept

end Meets

/-! ### Commands related to their start -/

def Keeps (R : σ → σ → Prop) (m : Command σ ε α) : Prop :=
  ∀ w, Ensures m w fun _ w' => R w w'

variable {R : σ → σ → Prop}

theorem keeps_pure [Std.Refl R] (a : α) : Keeps R (pure a : Command σ ε α) := by
  intro w
  simpa using Std.Refl.refl w

theorem keeps_throw (e : ε) : Keeps R (throw e : Command σ ε α) := by
  intro w
  simp

theorem Keeps.bind [IsTrans σ R] {m : Command σ ε α} {f : α → Command σ ε β} (hm : Keeps R m)
    (hf : ∀ a, Keeps R (f a)) : Keeps R (m >>= f) := by
  intro w
  rw [ensures_bind]
  refine Ensures.mono (hm w) ?_
  intro a w' first
  refine Ensures.mono (hf a w') ?_
  intro _ w'' second
  exact IsTrans.trans w w' w'' first second

theorem Keeps.when [Std.Refl R] {c : Prop} [Decidable c] {m : Command σ ε PUnit}
    (h : c → Keeps R m) : Keeps R (when c m) := by
  intro w
  rw [ensures_when]
  exact ⟨fun holds => h holds w, fun _ => Std.Refl.refl w⟩

theorem Keeps.whenSome [Std.Refl R] {γ : Type u} {o : Option γ} {f : γ → Command σ ε PUnit}
    (h : ∀ c, o = some c → Keeps R (f c)) : Keeps R (whenSome o f) := by
  intro w
  rw [ensures_whenSome]
  exact ⟨fun c there => h c there w, fun _ => Std.Refl.refl w⟩

theorem keeps_get_bind {f : σ → Command σ ε α}
    (hf : ∀ w, Ensures (f w) w fun _ w' => R w w') : Keeps R (get >>= f) := by
  intro w
  simpa using hf w

theorem Keeps.forM [Std.Refl R] [IsTrans σ R] {γ : Type u} {body : γ → Command σ ε PUnit}
    {xs : List γ} (step : ∀ x ∈ xs, Keeps R (body x)) : Keeps R (xs.forM body) := by
  intro w
  refine ensures_forM (I := fun w' => R w w') xs ?_ w (Std.Refl.refl w)
  intro x member w' kept
  refine Ensures.mono (step x member w') ?_
  intro _ w'' next
  exact IsTrans.trans w w' w'' kept next

end Command

end Script
