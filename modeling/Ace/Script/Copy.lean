import Ace.Script.Value

/-!
# Structured copies

`JSON.parse(JSON.stringify(v))` is `Value.json`. A copy that is then changed in step with
its original keeps the same data but not the same order of members, so copies are compared
by what can be observed: the kind of value at the end of every path. `CopyOn P` compares the
paths in `P` only, for copies that are exact outside one member.
-/

namespace Script

namespace Value

/-- One step into a value. -/
inductive Segment where
  | member (name : String)
  | element (index : Nat)
  deriving DecidableEq

/-- What a value is, without its members or elements. -/
inductive Shape where
  | leaf (v : Value)
  | array (length : Nat)
  | object
  deriving DecidableEq

def shape : Value → Shape
  | arr vs => .array vs.length
  | obj _ => .object
  | exotic _ => .object
  | v => .leaf v

def element (v : Value) (i : Nat) : Value := (v.array?.getD []).getD i undefined

/-- The shape at the end of a path. -/
def observe (v : Value) : List Segment → Shape
  | [] => v.shape
  | .member k :: path => observe (v.field k) path
  | .element i :: path => observe (v.element i) path

/-! ### Reading a structured copy -/

theorem get?_jsonFields (fs : List (String × Value)) (k : String) :
    (Assoc.get? (jsonFields fs) k).getD undefined =
      ((Assoc.get? fs k).getD undefined).json := by
  induction fs with
  | nil => simp [jsonFields, Assoc.get?, json]
  | cons entry rest ih =>
    obtain ⟨k', v⟩ := entry
    by_cases same : k' = k
    · subst same
      cases v <;> simp [jsonFields, Assoc.get?, isUndefined, Assoc.get?_erase, json]
    · unfold jsonFields
      split
      · rw [Assoc.get?_erase, if_neg same, ih, Assoc.get?, if_neg same]
      · rw [Assoc.get?, if_neg same, ih, Assoc.get?, if_neg same]

theorem field_json (v : Value) (k : String) : v.json.field k = (v.field k).json := by
  cases v with
  | obj fs => exact get?_jsonFields fs k
  | exotic fs => exact get?_jsonFields fs k
  | _ => simp [json, field, fields, Assoc.get?]

theorem jsonList_eq (vs : List Value) :
    jsonList vs = vs.map fun v => if v.isUndefined then null else v.json := by
  induction vs with
  | nil => rfl
  | cons v vs ih => simp [jsonList, ih]

/-! ### Reading a value by its shape -/

theorem field_eq_undefined {v : Value} (h : v.shape ≠ .object) (k : String) :
    v.field k = undefined := by
  cases v <;> simp_all [shape, field, fields, Assoc.get?]

theorem setField_eq_self {v : Value} (h : v.shape ≠ .object) (k : String) (x : Value) :
    v.setField k x = v := by
  cases v <;> simp_all [shape, setField]

theorem shape_setField (v : Value) (k : String) (x : Value) : (v.setField k x).shape = v.shape := by
  cases v <;> rfl

theorem field_setField {v : Value} (h : v.shape = .object) (k k' : String) (x : Value) :
    (v.setField k x).field k' = if k = k' then x else v.field k' := by
  cases v <;> simp_all [shape, setField, field, fields, Assoc.get?_put] <;> split <;> rfl

theorem element_eq_undefined {v : Value} (h : v.shape = .object) (i : Nat) :
    v.element i = undefined := by
  cases v <;> simp_all [shape, element, array?]

theorem shape_json (v : Value) : v.json.shape = v.shape := by
  cases v <;> simp [json, shape, jsonList_eq]

theorem string?_of_shape {v w : Value} (h : v.shape = w.shape) : v.string? = w.string? := by
  cases v <;> cases w <;> simp_all [shape, string?]

theorem nat?_of_shape {v w : Value} (h : v.shape = w.shape) : v.nat? = w.nat? := by
  cases v <;> cases w <;> simp_all [shape, nat?]

theorem isUndefined_of_shape {v w : Value} (h : v.shape = w.shape) :
    v.isUndefined = w.isUndefined := by
  cases v <;> cases w <;> simp_all [shape, isUndefined]

/-! ### Observing a changed member -/

theorem observe_setField (v : Value) (k : String) (x : Value) (path : List Segment) :
    (v.setField k x).observe path =
      match path with
      | .member k' :: rest =>
        if k = k' ∧ v.shape = .object then x.observe rest else v.observe path
      | path => v.observe path := by
  by_cases is_object : v.shape = .object
  · cases path with
    | nil => simp only [observe, shape_setField]
    | cons segment path =>
      cases segment with
      | member k' =>
        simp only [observe, field_setField is_object, is_object, and_true]
        split <;> rfl
      | element i =>
        have changed : (v.setField k x).shape = .object := by rw [shape_setField, is_object]
        simp only [observe, element_eq_undefined changed, element_eq_undefined is_object]
  · rw [setField_eq_self is_object]
    split
    · simp [is_object]
    · rfl

theorem observe_json_setField (v : Value) (k : String) (x : Value) (path : List Segment) :
    (v.setField k x).json.observe path = (v.json.setField k x.json).observe path := by
  by_cases is_object : v.shape = .object
  · have copied : v.json.shape = .object := by rw [shape_json, is_object]
    cases path with
    | nil => simp only [observe, shape_json, shape_setField]
    | cons segment path =>
      cases segment with
      | member k' =>
        simp only [observe, field_json, field_setField is_object, field_setField copied]
        split <;> rfl
      | element i =>
        have changed : (v.setField k x).json.shape = .object := by
          rw [shape_json, shape_setField, is_object]
        have changed' : (v.json.setField k x.json).shape = .object := by
          rw [shape_setField, copied]
        simp only [observe, element_eq_undefined changed, element_eq_undefined changed']
  · rw [setField_eq_self is_object, setField_eq_self (by rwa [shape_json])]

theorem observe_setField_unseen (v : Value) (k : String) (x : Value) {path : List Segment}
    (unseen : ∀ rest, path = .member k :: rest → x.observe rest = (v.field k).observe rest) :
    (v.setField k x).observe path = v.observe path := by
  rw [observe_setField]
  split
  next k' rest =>
    split
    next here =>
      obtain ⟨rfl, _⟩ := here
      exact unseen rest rfl
    next => rfl
  next => rfl

theorem observe_json_setField_unseen (v : Value) (k : String) (x : Value) {path : List Segment}
    (unseen : ∀ rest, path = .member k :: rest →
      x.json.observe rest = (v.field k).json.observe rest) :
    (v.setField k x).json.observe path = v.json.observe path := by
  rw [observe_json_setField]
  apply observe_setField_unseen
  intro rest eq
  rw [field_json]
  exact unseen rest eq

/-! ### Copies -/

/-- `c` is a structured copy of `v` at the paths in `P`. -/
def CopyOn (P : List Segment → Prop) (c v : Value) : Prop :=
  ∀ path, P path → c.observe path = v.json.observe path

def IsCopy (c v : Value) : Prop := ∀ path, c.observe path = v.json.observe path

section

variable {P Q : List Segment → Prop} {c v x y : Value}

theorem copyOn_json (P : List Segment → Prop) (v : Value) : CopyOn P v.json v := fun _ _ => rfl

theorem CopyOn.isCopy (h : CopyOn P c v) (all : ∀ path, P path) : IsCopy c v :=
  fun path => h path (all path)

theorem IsCopy.copyOn (h : IsCopy c v) (P : List Segment → Prop) : CopyOn P c v :=
  fun path _ => h path

theorem CopyOn.shape (h : CopyOn P c v) (root : P []) : c.shape = v.shape := by
  have same := h [] root
  simpa [observe, shape_json] using same

theorem CopyOn.field (h : CopyOn P c v) (k : String) :
    CopyOn (fun path => P (.member k :: path)) (c.field k) (v.field k) := by
  intro path inside
  have same := h (.member k :: path) inside
  simpa [observe, field_json] using same

theorem CopyOn.setField (h : CopyOn P c v) (root : P []) {k : String}
    (member : CopyOn (fun path => P (.member k :: path)) x y) :
    CopyOn P (c.setField k x) (v.setField k y) := by
  have same_shape := h.shape root
  intro path inside
  rw [observe_json_setField, observe_setField, observe_setField, shape_json, same_shape]
  split
  next k' rest =>
    split
    next here =>
      obtain ⟨rfl, _⟩ := here
      exact member rest inside
    next => exact h _ inside
  next => exact h path inside

theorem IsCopy.shape (h : IsCopy c v) : c.shape = v.shape :=
  (h.copyOn fun _ => True).shape trivial

theorem IsCopy.field (h : IsCopy c v) (k : String) : IsCopy (c.field k) (v.field k) :=
  ((h.copyOn fun _ => True).field k).isCopy fun _ => trivial

theorem IsCopy.setField (h : IsCopy c v) (k : String) (member : IsCopy x y) :
    IsCopy (c.setField k x) (v.setField k y) :=
  ((h.copyOn fun _ => True).setField trivial (member.copyOn _)).isCopy fun _ => trivial

theorem isCopy_str (s : String) : IsCopy (.str s) (.str s) := fun _ => rfl

theorem isCopy_num (q : ℚ) : IsCopy (.num q) (.num q) := fun _ => rfl

/-! ### Arrays -/

/-- An element in a copy: `undefined` has become `null`. -/
def IsElementCopy (c v : Value) : Prop := IsCopy c (if v.isUndefined then null else v)

theorem isCopy_arr {cs vs : List Value} :
    IsCopy (arr cs) (arr vs) ↔ List.Forall₂ IsElementCopy cs vs := by
  have copied : ∀ i, (h : i < vs.length) →
      (arr vs).json.element i = (if (vs.get ⟨i, h⟩).isUndefined then null else vs.get ⟨i, h⟩).json := by
    intro i h
    simp only [json, element, array?, Option.getD_some, jsonList_eq, List.getD_eq_getElem?_getD,
      List.getElem?_map, List.getElem?_eq_getElem h, Option.map_some, List.get_eq_getElem]
    split <;> rfl
  have plain : ∀ i, (h : i < cs.length) → (arr cs).element i = cs.get ⟨i, h⟩ := by
    intro i h
    simp [element, array?, h]
  rw [List.forall₂_iff_get]
  constructor
  · intro h
    have same_length : cs.length = vs.length := by simpa [Value.shape] using h.shape
    refine ⟨same_length, ?_⟩
    intro i inside inside' path
    have same := h (.element i :: path)
    rw [observe, observe, plain i inside, copied i inside'] at same
    exact same
  · rintro ⟨same_length, elements⟩ path
    cases path with
    | nil =>
      rw [observe, observe, shape_json]
      simp [Value.shape, same_length]
    | cons segment path =>
      cases segment with
      | member k =>
        rw [observe, observe, field_json]
        rfl
      | element i =>
        rw [observe, observe]
        by_cases inside : i < cs.length
        · rw [plain i inside, copied i (same_length ▸ inside)]
          exact elements i inside (same_length ▸ inside) path
        · have outside : vs.length ≤ i := by omega
          have outside' : cs.length ≤ i := by omega
          simp [element, array?, json, jsonList_eq, List.getElem?_eq_none outside, outside']

theorem IsCopy.elements (h : IsCopy c v) :
    List.Forall₂ IsElementCopy (c.array?.getD []) (v.array?.getD []) := by
  have same := h.shape
  cases v with
  | arr vs =>
    cases c with
    | arr cs => exact isCopy_arr.mp h
    | _ => simp [Value.shape] at same
  | _ => cases c <;> first | exact .nil | simp [Value.shape] at same

theorem IsCopy.eq_str (h : IsCopy c v) (s : String) : (c == .str s) = (v == .str s) := by
  have same := h.shape
  cases c <;> cases v <;> simp_all [Value.shape]

end

end Value

end Script
