import Ace.Script.Dictionary
import Mathlib.Data.List.Induction
import Mathlib.Data.Rat.Floor

/-!
# Script values

The data an ECMAScript function can be handed as `unknown`: JSON data, and the other
kinds of value that code which validates its input has to tell apart from JSON data.
Numbers are exact rationals, so the rounding of double arithmetic, `-0` and lone
surrogates in strings are outside the model.

An object keeps its own enumerable properties in enumeration order. `getter` and
`throwingGetter` occur only as the value of a property: reading the property runs the
getter. `circular` is a reference to an enclosing object, and `unreadable` an object
whose traps throw on every access.
-/

namespace Script

inductive Value where
  | undefined
  | null
  | bool (b : Bool)
  | num (q : ℚ)
  /-- `NaN` and the infinities, by their text. -/
  | nonFinite (text : String)
  | str (s : String)
  | arr (elements : List Value)
  | obj (fields : List (String × Value))
  /-- An object whose prototype is neither `Object.prototype` nor null. -/
  | exotic (fields : List (String × Value))
  /-- A function, symbol or bigint, by its `typeof`. -/
  | foreign (kind : String)
  | getter (result : Value)
  | throwingGetter
  | circular
  | unreadable

namespace Value

instance : Inhabited Value := ⟨undefined⟩

/-! ### Decidable equality -/

mutual
def beq : Value → Value → Bool
  | undefined, undefined => true
  | null, null => true
  | bool a, bool b => a == b
  | num a, num b => a == b
  | nonFinite a, nonFinite b => a == b
  | str a, str b => a == b
  | arr a, arr b => beqList a b
  | obj a, obj b => beqFields a b
  | exotic a, exotic b => beqFields a b
  | foreign a, foreign b => a == b
  | getter a, getter b => beq a b
  | throwingGetter, throwingGetter => true
  | circular, circular => true
  | unreadable, unreadable => true
  | _, _ => false

def beqList : List Value → List Value → Bool
  | [], [] => true
  | a :: as, b :: bs => beq a b && beqList as bs
  | _, _ => false

def beqFields : List (String × Value) → List (String × Value) → Bool
  | [], [] => true
  | (k, a) :: as, (l, b) :: bs => k == l && beq a b && beqFields as bs
  | _, _ => false
end

theorem beq_iff (v : Value) : ∀ w, beq v w = true ↔ v = w := by
  refine Value.rec
    (motive_1 := fun v => ∀ w, beq v w = true ↔ v = w)
    (motive_2 := fun vs => ∀ ws, beqList vs ws = true ↔ vs = ws)
    (motive_3 := fun fs => ∀ gs, beqFields fs gs = true ↔ fs = gs)
    (motive_4 := fun p => ∀ w, beq p.2 w = true ↔ p.2 = w)
    ?undefined ?null ?bool ?num ?nonFinite ?str ?arr ?obj ?exotic ?foreign ?getter
    ?throwingGetter ?circular ?unreadable ?nil ?cons ?fnil ?fcons ?pair v
  case undefined => intro w; cases w <;> simp [beq]
  case null => intro w; cases w <;> simp [beq]
  case bool => intro b w; cases w <;> simp [beq]
  case num => intro q w; cases w <;> simp [beq]
  case nonFinite => intro t w; cases w <;> simp [beq]
  case str => intro s w; cases w <;> simp [beq]
  case arr => intro vs ih w; cases w <;> simp [beq, ih]
  case obj => intro fs ih w; cases w <;> simp [beq, ih]
  case exotic => intro fs ih w; cases w <;> simp [beq, ih]
  case foreign => intro k w; cases w <;> simp [beq]
  case getter => intro v ih w; cases w <;> simp [beq, ih]
  case throwingGetter => intro w; cases w <;> simp [beq]
  case circular => intro w; cases w <;> simp [beq]
  case unreadable => intro w; cases w <;> simp [beq]
  case nil => intro ws; cases ws <;> simp [beqList]
  case cons => intro v vs ihv ihvs ws; cases ws <;> simp [beqList, ihv, ihvs]
  case fnil => intro gs; cases gs <;> simp [beqFields]
  case fcons =>
    rintro ⟨k, v⟩ fs ihv ihfs gs
    cases gs with
    | nil => simp [beqFields]
    | cons g gs =>
      obtain ⟨l, w⟩ := g
      simp [beqFields, ihv w, ihfs, and_assoc]
  case pair => intro k v ih; exact ih

instance : DecidableEq Value := fun v w => decidable_of_iff (beq v w = true) (beq_iff v w)

/-! ### Properties -/

/-- The own properties of an object, none for any other value. -/
def fields : Value → List (String × Value)
  | obj fs => fs
  | exotic fs => fs
  | _ => []

/-- The property `k` of a value that holds JSON data, `undefined` when it is absent. -/
def field (v : Value) (k : String) : Value := (Assoc.get? v.fields k).getD undefined

def hasOwn (v : Value) (k : String) : Bool := (Assoc.get? v.fields k).isSome

def isString : Value → Bool
  | str _ => true
  | _ => false

def isBool : Value → Bool
  | bool _ => true
  | _ => false

def isUndefined : Value → Bool
  | undefined => true
  | _ => false

/-- `value !== null && typeof value === "object" && !Array.isArray(value)`. -/
def isObject : Value → Bool
  | obj _ => true
  | exotic _ => true
  | circular => true
  | unreadable => true
  | _ => false

def string? : Value → Option String
  | str s => some s
  | _ => none

def bool? : Value → Option Bool
  | bool b => some b
  | _ => none

def array? : Value → Option (List Value)
  | arr vs => some vs
  | _ => none

/-- A nonnegative integer. -/
def nat? : Value → Option Nat
  | num q => if q.den = 1 ∧ 0 ≤ q.num then some q.num.toNat else none
  | _ => none

def nat (n : Nat) : Value := num n

def ofOption {α : Type} (f : α → Value) : Option α → Value
  | some a => f a
  | none => undefined

/-- `{ ...left, ...right }`. -/
def spread (left right : List (String × Value)) : List (String × Value) :=
  right.foldl (fun acc entry => Assoc.put entry.1 entry.2 acc) left

/-- The entries of an object literal whose optional members are spread in when present. -/
def optionalField (k : String) : Option Value → List (String × Value)
  | some v => [(k, v)]
  | none => []

def setField (v : Value) (k : String) (w : Value) : Value :=
  match v with
  | obj fs => obj (Assoc.put k w fs)
  | exotic fs => exotic (Assoc.put k w fs)
  | other => other

def eraseField (v : Value) (k : String) : Value :=
  match v with
  | obj fs => obj (Assoc.erase k fs)
  | exotic fs => exotic (Assoc.erase k fs)
  | other => other

@[simp] theorem field_obj (fs : List (String × Value)) (k : String) :
    (obj fs).field k = (Assoc.get? fs k).getD undefined := rfl

theorem get?_spread (left right : List (String × Value)) (k : String) :
    Assoc.get? (spread left right) k =
      (Assoc.get? right.reverse k).or (Assoc.get? left k) := by
  induction right using List.reverseRecOn with
  | nil => simp [spread, Assoc.get?]
  | append_singleton right entry ih =>
    simp only [spread, List.foldl_append, List.foldl_cons, List.foldl_nil, List.reverse_append,
      List.reverse_cons, List.reverse_nil, List.nil_append, List.singleton_append] at ih ⊢
    rw [Assoc.get?_put, Assoc.get?, ih]
    split <;> simp

@[simp] theorem field_setField_self (fs : List (String × Value)) (k : String) (w : Value) :
    ((obj fs).setField k w).field k = w := by
  simp [setField, Assoc.get?_put]

theorem field_setField_ne (v : Value) {k k' : String} (w : Value) (h : k ≠ k') :
    (v.setField k w).field k' = v.field k' := by
  cases v <;> simp [setField, field, fields, Assoc.get?_put, h]

/-! ### JSON text

`JSON.stringify` leaves out undefined members, so two values have one text exactly when
they agree without them, members in the same order. A key occurs once in an object; in a raw
list its first entry counts. -/

mutual
def json : Value → Value
  | arr vs => arr (jsonList vs)
  | obj fs => obj (jsonFields fs)
  | exotic fs => obj (jsonFields fs)
  | v => v

def jsonList : List Value → List Value
  | [] => []
  | v :: vs => (if v.isUndefined then null else json v) :: jsonList vs

def jsonFields : List (String × Value) → List (String × Value)
  | [] => []
  | (k, v) :: fs =>
    if v.isUndefined then Assoc.erase k (jsonFields fs) else (k, json v) :: jsonFields fs
end

def sameJson (v w : Value) : Bool := v.json == w.json

@[simp] theorem sameJson_self (v : Value) : sameJson v v = true := by simp [sameJson]

end Value

end Script
