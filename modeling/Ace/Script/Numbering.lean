import Ace.Script.Value
import Mathlib.Logic.Equiv.List
import Mathlib.Data.Rat.Denumerable

/-!
# Numbers for values

Values can be numbered: a number for each, a different one for different values.
-/

namespace Script.Value

def nameNumber (s : String) : ℕ := Encodable.encode (s.toList.map Char.toNat)

theorem nameNumber_inj {s t : String} : nameNumber s = nameNumber t ↔ s = t := by
  refine ⟨fun same => ?_, fun same => same ▸ rfl⟩
  have units := Encodable.encode_injective same
  have toNat_inj : Function.Injective Char.toNat := fun c d same =>
    Char.ext (UInt32.toNat_inj.mp same)
  exact String.toList_inj.mp (toNat_inj.list_map units)

mutual
def number : Value → ℕ
  | undefined => Nat.pair 0 0
  | null => Nat.pair 1 0
  | bool b => Nat.pair 2 b.toNat
  | num q => Nat.pair 3 (Encodable.encode q)
  | nonFinite text => Nat.pair 4 (nameNumber text)
  | str s => Nat.pair 5 (nameNumber s)
  | arr elements => Nat.pair 6 (listNumber elements)
  | obj fields => Nat.pair 7 (fieldsNumber fields)
  | exotic fields => Nat.pair 8 (fieldsNumber fields)
  | foreign kind => Nat.pair 9 (nameNumber kind)
  | getter result => Nat.pair 10 (number result)
  | throwingGetter => Nat.pair 11 0
  | circular => Nat.pair 12 0
  | unreadable => Nat.pair 13 0

def listNumber : List Value → ℕ
  | [] => 0
  | v :: vs => Nat.pair (number v) (listNumber vs) + 1

def fieldsNumber : List (String × Value) → ℕ
  | [] => 0
  | (k, v) :: fields => Nat.pair (nameNumber k) (Nat.pair (number v) (fieldsNumber fields)) + 1
end

theorem number_inj (v : Value) : ∀ w, number v = number w → v = w := by
  have toNat_inj : ∀ a b : Bool, a.toNat = b.toNat → a = b := by decide
  refine Value.rec
    (motive_1 := fun v => ∀ w, number v = number w → v = w)
    (motive_2 := fun vs => ∀ ws, listNumber vs = listNumber ws → vs = ws)
    (motive_3 := fun fs => ∀ gs, fieldsNumber fs = fieldsNumber gs → fs = gs)
    (motive_4 := fun p => ∀ w, number p.2 = number w → p.2 = w)
    ?undefined ?null ?bool ?num ?nonFinite ?str ?arr ?obj ?exotic ?foreign ?getter
    ?throwingGetter ?circular ?unreadable ?nil ?cons ?fnil ?fcons ?pair v
  case undefined => intro w; cases w <;> simp [number, Nat.pair_eq_pair]
  case null => intro w; cases w <;> simp [number, Nat.pair_eq_pair]
  case bool => intro b w; cases w <;> simp [number, Nat.pair_eq_pair]; exact toNat_inj b _
  case num => intro q w; cases w <;> simp [number, Nat.pair_eq_pair]
  case nonFinite => intro t w; cases w <;> simp [number, Nat.pair_eq_pair, nameNumber_inj]
  case str => intro s w; cases w <;> simp [number, Nat.pair_eq_pair, nameNumber_inj]
  case arr => intro vs ih w; cases w <;> simp [number, Nat.pair_eq_pair]; exact ih _
  case obj => intro fs ih w; cases w <;> simp [number, Nat.pair_eq_pair]; exact ih _
  case exotic => intro fs ih w; cases w <;> simp [number, Nat.pair_eq_pair]; exact ih _
  case foreign => intro k w; cases w <;> simp [number, Nat.pair_eq_pair, nameNumber_inj]
  case getter => intro v ih w; cases w <;> simp [number, Nat.pair_eq_pair]; exact ih _
  case throwingGetter => intro w; cases w <;> simp [number, Nat.pair_eq_pair]
  case circular => intro w; cases w <;> simp [number, Nat.pair_eq_pair]
  case unreadable => intro w; cases w <;> simp [number, Nat.pair_eq_pair]
  case nil => intro ws; cases ws <;> simp [listNumber]
  case cons =>
    intro v vs ihv ihvs ws
    cases ws with
    | nil => simp [listNumber]
    | cons w ws =>
      intro same
      obtain ⟨first, rest⟩ := Nat.pair_eq_pair.mp (Nat.succ.inj same)
      rw [ihv w first, ihvs ws rest]
  case fnil => intro gs; cases gs <;> simp [fieldsNumber]
  case fcons =>
    rintro ⟨k, v⟩ fs ihv ihfs gs
    cases gs with
    | nil => simp [fieldsNumber]
    | cons g gs =>
      obtain ⟨l, w⟩ := g
      intro same
      obtain ⟨key, rest⟩ := Nat.pair_eq_pair.mp (Nat.succ.inj same)
      obtain ⟨first, others⟩ := Nat.pair_eq_pair.mp rest
      have value : v = w := ihv w first
      rw [nameNumber_inj.mp key, value, ihfs gs others]
  case pair => intro k v ih; exact ih

end Script.Value
