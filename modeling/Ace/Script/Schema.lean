import Ace.Script.Value

/-!
# Object schemas

A schema is the function its `safeParse` computes: the parsed value, or `none` on
failure. The combinators follow the semantics of a structural validator: an object
schema drops unknown members, an optional member may be missing or undefined, and a
default replaces an undefined member.

`get?_objectFields` says what a parsed object holds, member by member.
-/

namespace Script

abbrev Schema := Value → Option Value

/-- The length of a string in UTF-16 code units. -/
def utf16Length (s : String) : Nat :=
  (s.toList.map fun c => if c.val < 0x10000 then 1 else 2).sum

theorem utf16Length_ofList (chars : List Char) :
    utf16Length (String.ofList chars) =
      (chars.map fun c => if c.val < 0x10000 then 1 else 2).sum := by
  rw [utf16Length, String.toList_ofList]

theorem utf16Length_append (s t : String) :
    utf16Length (s ++ t) = utf16Length s + utf16Length t := by
  simp [utf16Length]

def maxSafeInteger : Nat := 9007199254740991

namespace Schema

def accepts (s : Schema) (v : Value) : Bool := (s v).isSome

def unknown : Schema := some

def literal (name : String) : Schema
  | .str s => if s = name then some (.str s) else none
  | _ => none

def enumeration (names : List String) : Schema
  | .str s => if s ∈ names then some (.str s) else none
  | _ => none

/-- A string that passes `check`. -/
def text (check : String → Bool) : Schema
  | .str s => if check s then some (.str s) else none
  | _ => none

def anyText : Schema := text fun _ => true

/-- `min(low).max(high)`, in code units. -/
def textBetween (low high : Nat) : Schema :=
  text fun s => decide (low ≤ utf16Length s ∧ utf16Length s ≤ high)

def textUpTo (high : Nat) : Schema := text fun s => decide (utf16Length s ≤ high)

def nonemptyText : Schema := text fun s => decide (1 ≤ utf16Length s)

/-- A finite number that passes `check`. -/
def number (check : ℚ → Bool) : Schema
  | .num q => if check q then some (.num q) else none
  | _ => none

def isInteger (q : ℚ) : Bool := decide (q.den = 1 ∧ q.num.natAbs ≤ maxSafeInteger)

def integerBetween (low high : Int) : Schema :=
  number fun q => isInteger q && decide (low ≤ q.num ∧ q.num ≤ high)

def integer : Schema := number isInteger

def nonnegativeInteger : Schema := number fun q => isInteger q && decide (0 ≤ q.num)

def positiveInteger : Schema := number fun q => isInteger q && decide (0 < q.num)

def nonnegative : Schema := number fun q => decide (0 ≤ q)

def boolean : Schema
  | .bool b => some (.bool b)
  | _ => none

def arrayElements (element : Schema) : List Value → Option (List Value)
  | [] => some []
  | v :: vs => do
    let w ← element v
    let ws ← arrayElements element vs
    return w :: ws

/-- An array whose length passes `check`. -/
def arrayOf (element : Schema) (check : Nat → Bool) : Schema
  | .arr vs => if check vs.length then (arrayElements element vs).map .arr else none
  | _ => none

def array (element : Schema) : Schema := arrayOf element fun _ => true

def arrayUpTo (element : Schema) (high : Nat) : Schema :=
  arrayOf element fun n => decide (n ≤ high)

def arrayBetween (element : Schema) (low high : Nat) : Schema :=
  arrayOf element fun n => decide (low ≤ n ∧ n ≤ high)

/-- The members of a parsed object, in the order of the schema. A member that parses to
`undefined` is kept only if the input has it. -/
def objectFields : List (String × Schema) → List (String × Value) → Option (List (String × Value))
  | [], _ => some []
  | (k, s) :: shape, input => do
    let v ← s ((Assoc.get? input k).getD .undefined)
    let rest ← objectFields shape input
    return if v.isUndefined && (Assoc.get? input k).isNone then rest else (k, v) :: rest

def object (shape : List (String × Schema)) : Schema
  | .obj fs => (objectFields shape fs).map .obj
  | .exotic fs => (objectFields shape fs).map .obj
  | _ => none

/-- An object that keeps its unknown members. -/
def looseObject (shape : List (String × Schema)) : Schema
  | .obj fs => (objectFields shape fs).map fun out => .obj (Value.spread fs out)
  | .exotic fs => (objectFields shape fs).map fun out => .obj (Value.spread fs out)
  | _ => none

/-- An object that must not have unknown members. -/
def strictObject (shape : List (String × Schema)) : Schema := fun v =>
  if v.fields.all fun entry => (shape.map Prod.fst).contains entry.1 then object shape v else none

/-- A required member without a constraint of its own must still be present. -/
def requireMember (k : String) (s : Schema) : Schema := fun v =>
  if v.hasOwn k then s v else none

def optional (s : Schema) : Schema
  | .undefined => some .undefined
  | v => s v

def nullable (s : Schema) : Schema
  | .null => some .null
  | v => s v

def withDefault (s : Schema) (default : Value) : Schema
  | .undefined => some default
  | v => s v

def union : List Schema → Schema
  | [], _ => none
  | s :: rest, v => (s v).or (union rest v)

/-- A union whose member `key` selects the option. -/
def discriminated (key : String) (options : List (List String × Schema)) : Schema := fun v =>
  match v.field key with
  | .str tag => (options.find? fun option => option.1.contains tag).bind fun option => option.2 v
  | _ => none

def recordFields (key : String → Bool) (element : Schema) :
    List (String × Value) → Option (List (String × Value))
  | [] => some []
  | (k, v) :: fs => do
    let w ← element v
    let rest ← recordFields key element fs
    if key k then return (k, w) :: rest else none

/-- A plain object with any keys that pass `key`. -/
def record (key : String → Bool) (element : Schema) : Schema
  | .obj fs => (recordFields key element fs).map .obj
  | _ => none

def refine (s : Schema) (check : Value → Bool) : Schema := fun v =>
  (s v).bind fun w => if check w then some w else none

/-! ### What an object schema accepts and returns -/

theorem keys_objectFields {shape : List (String × Schema)} {input out : List (String × Value)}
    (h : objectFields shape input = some out) :
    (Assoc.keys out).Sublist (shape.map Prod.fst) := by
  induction shape generalizing out with
  | nil =>
    simp only [objectFields, Option.some.injEq] at h
    subst h
    exact .slnil
  | cons p shape ih =>
    simp only [objectFields, Option.bind_eq_bind, Option.bind_eq_some_iff, Option.pure_def,
      Option.some.injEq] at h
    obtain ⟨v, _, rest, parsed, rfl⟩ := h
    split
    · exact (ih parsed).cons p.1
    · exact (ih parsed).cons_cons p.1

theorem get?_objectFields {shape : List (String × Schema)} {input out : List (String × Value)}
    (nodup : (shape.map Prod.fst).Nodup) (h : objectFields shape input = some out)
    {k : String} {s : Schema} (mem : (k, s) ∈ shape) :
    s ((Assoc.get? input k).getD .undefined) = some ((Assoc.get? out k).getD .undefined) := by
  induction shape generalizing out with
  | nil => simp at mem
  | cons p shape ih =>
    obtain ⟨k₀, s₀⟩ := p
    simp only [List.map_cons, List.nodup_cons] at nodup
    simp only [objectFields, Option.bind_eq_bind, Option.bind_eq_some_iff, Option.pure_def,
      Option.some.injEq] at h
    obtain ⟨v, hv, rest, hrest, rfl⟩ := h
    rcases List.mem_cons.mp mem with same | mem
    · obtain ⟨rfl, rfl⟩ := Prod.mk.inj same
      have none_rest : Assoc.get? rest k = none :=
        (Assoc.get?_eq_none_iff rest k).mpr fun known =>
          nodup.1 ((keys_objectFields hrest).subset known)
      split
      next undefined =>
        simp only [Bool.and_eq_true] at undefined
        rw [none_rest, hv]
        cases v with
        | undefined => rfl
        | _ => cases undefined.1
      next => simpa [Assoc.get?] using hv
    · have ne : k₀ ≠ k := by
        rintro rfl
        exact nodup.1 (List.mem_map.mpr ⟨_, mem, rfl⟩)
      have tail := ih nodup.2 hrest mem
      split
      · exact tail
      · simpa [Assoc.get?, ne] using tail

theorem object_eq_some {shape : List (String × Schema)} {fs : List (String × Value)} {w : Value}
    (h : object shape (.obj fs) = some w) :
    ∃ out, objectFields shape fs = some out ∧ w = .obj out := by
  simp only [object, Option.map_eq_some_iff] at h
  obtain ⟨out, hout, rfl⟩ := h
  exact ⟨out, hout, rfl⟩

/-! ### Members that a schema keeps -/

/-- A schema that checks and changes nothing. -/
def Exact (s : Schema) : Prop := ∀ v w, s v = some w → w = v

theorem exact_text (check : String → Bool) : Exact (text check) := by
  intro v w h
  cases v <;> simp only [text, reduceCtorEq] at h
  split at h <;> simp_all

theorem exact_number (check : ℚ → Bool) : Exact (number check) := by
  intro v w h
  cases v <;> simp only [number, reduceCtorEq] at h
  split at h <;> simp_all

theorem exact_literal (name : String) : Exact (literal name) := by
  intro v w h
  cases v <;> simp only [literal, reduceCtorEq] at h
  split at h <;> simp_all

theorem Exact.optional {s : Schema} (exact : Exact s) : Exact (optional s) := by
  intro v w h
  cases v <;> first
    | exact exact _ w h
    | simpa [Schema.optional, eq_comm] using h

/-- Whatever `s` accepts becomes an object without duplicate keys and with the same member
`k`. -/
def KeepsMember (k : String) (s : Schema) : Prop :=
  ∀ v w, s v = some w →
    (∃ out, w = .obj out) ∧ (Assoc.keys w.fields).Nodup ∧ w.field k = v.field k

theorem keepsMember_object {shape : List (String × Schema)} {k : String} {s : Schema}
    (nodup : (shape.map Prod.fst).Nodup) (mem : (k, s) ∈ shape) (exact : Exact s) :
    KeepsMember k (object shape) := by
  have fields : ∀ fs out, objectFields shape fs = some out →
      (Value.obj out).field k = (Assoc.get? fs k).getD .undefined := by
    intro fs out h
    exact exact _ _ (get?_objectFields nodup h mem)
  intro v w h
  cases v with
  | obj fs =>
    obtain ⟨out, parsed, rfl⟩ := object_eq_some h
    exact ⟨⟨out, rfl⟩, (keys_objectFields parsed).nodup nodup, fields fs out parsed⟩
  | exotic fs =>
    simp only [object, Option.map_eq_some_iff] at h
    obtain ⟨out, parsed, rfl⟩ := h
    exact ⟨⟨out, rfl⟩, (keys_objectFields parsed).nodup nodup, fields fs out parsed⟩
  | _ => simp [object] at h

theorem KeepsMember.requireMember {k : String} {s : Schema} (h : KeepsMember k s)
    (name : String) : KeepsMember k (requireMember name s) := by
  intro v w parsed
  unfold Schema.requireMember at parsed
  split at parsed
  · exact h v w parsed
  · cases parsed

theorem keepsMember_discriminated {k key : String} {options : List (List String × Schema)}
    (h : ∀ option ∈ options, KeepsMember k option.2) : KeepsMember k (discriminated key options) := by
  intro v w parsed
  unfold discriminated at parsed
  split at parsed
  next =>
    simp only [Option.bind_eq_some_iff] at parsed
    obtain ⟨option, found, parsed⟩ := parsed
    exact h option (List.mem_of_find?_eq_some found) v w parsed
  next => cases parsed

end Schema

end Script
