import Mathlib.Data.List.Basic

/-!
# Text as UTF-16

Strings where their code units matter: a text is its list of code units, so that lone
surrogates, lengths and slices are those of an ECMAScript string.
-/

namespace Script

abbrev CodeUnits := List Nat

def Utf16.encodeChar (c : Char) : CodeUnits :=
  let n := c.toNat
  if n < 0x10000 then [n]
  else [0xD800 + (n - 0x10000) / 0x400, 0xDC00 + (n - 0x10000) % 0x400]

/-- The code units of a literal. -/
def units (s : String) : CodeUnits := s.toList.flatMap Utf16.encodeChar

/-! ### Classes of code units -/

def between (low high : Char) (u : Nat) : Bool := low.toNat ≤ u && u ≤ high.toNat

def oneOf (members : String) (u : Nat) : Bool := (units members).contains u

/-- `\s`, which is also what `trimStart` removes. -/
def isSpaceUnit (u : Nat) : Bool :=
  (9 ≤ u && u ≤ 13) || u == 0x20 || u == 0xA0 || u == 0x1680 || (0x2000 ≤ u && u ≤ 0x200A) ||
    u == 0x2028 || u == 0x2029 || u == 0x202F || u == 0x205F || u == 0x3000 || u == 0xFEFF

/-- `\w` -/
def isWordUnit (u : Nat) : Bool :=
  between 'A' 'Z' u || between 'a' 'z' u || between '0' '9' u || u == '_'.toNat

def isHighSurrogate (u : Nat) : Bool := 0xD800 ≤ u && u ≤ 0xDBFF

def isLowSurrogate (u : Nat) : Bool := 0xDC00 ≤ u && u ≤ 0xDFFF

/-- `Canonicalize` on what an ASCII pattern can tell apart. -/
def lowerUnit (u : Nat) : Nat := if between 'A' 'Z' u then u + 32 else u

/-! ### Bytes -/

/-- The bytes of one unit that is no half of a pair; a lone half is replaced. -/
def unitBytes (u : Nat) : Nat := if u < 0x80 then 1 else if u < 0x800 then 2 else 3

/-- `Buffer.byteLength(text)` -/
def utf8Length : CodeUnits → Nat
  | [] => 0
  | [u] => unitBytes u
  | u :: v :: rest =>
    if isHighSurrogate u && isLowSurrogate v then 4 + utf8Length rest
    else unitBytes u + utf8Length (v :: rest)

/-- No pair is cut between the two texts. -/
def NoPairAcross (front back : CodeUnits) : Prop :=
  ∀ u v, front.getLast? = some u → back.head? = some v →
    ¬(isHighSurrogate u = true ∧ isLowSurrogate v = true)

theorem noPairAcross_nil (back : CodeUnits) : NoPairAcross [] back := fun _ _ last => by cases last

theorem NoPairAcross.of_append {front middle back : CodeUnits} (apart : NoPairAcross (front ++ middle) back) :
    NoPairAcross middle back := by
  intro u v last head
  apply apart u v ?_ head
  rw [List.getLast?_append, last]
  rfl

theorem utf8Length_append {front back : CodeUnits} (apart : NoPairAcross front back) :
    utf8Length (front ++ back) = utf8Length front + utf8Length back := by
  induction front using utf8Length.induct with
  | case1 => rw [List.nil_append, utf8Length, Nat.zero_add]
  | case2 u =>
    cases back with
    | nil => rfl
    | cons v rest =>
      have whole : ¬(isHighSurrogate u && isLowSurrogate v) = true := by
        rw [Bool.and_eq_true]
        exact apart u v rfl rfl
      simp only [List.singleton_append, utf8Length, if_neg whole]
  | case3 u v rest pair ih =>
    have rest' : NoPairAcross rest back := @NoPairAcross.of_append [u, v] _ _ apart
    rw [List.cons_append, List.cons_append, utf8Length, if_pos pair, ih rest', utf8Length, if_pos pair,
      Nat.add_assoc]
  | case4 u v rest single ih =>
    have rest' : NoPairAcross (v :: rest) back := @NoPairAcross.of_append [u] _ _ apart
    rw [List.cons_append, List.cons_append, utf8Length, if_neg single, ← List.cons_append, ih rest',
      utf8Length, if_neg single, Nat.add_assoc]

/-! ### Slices -/

/-- `text.slice(start, stop)` for `0 ≤ start`, `0 ≤ stop`. -/
def slice {α : Type} (text : List α) (start stop : Nat) : List α := (text.take stop).drop start

section

variable {α β : Type} (text : List α) {start stop : Nat}

@[simp] theorem length_slice (start stop : Nat) :
    (slice text start stop).length = min stop text.length - start := by
  simp [slice]

@[simp] theorem map_slice (f : α → β) (start stop : Nat) :
    (slice text start stop).map f = slice (text.map f) start stop := by
  simp [slice, List.map_drop, List.map_take]

theorem getElem?_slice (k : Nat) :
    (slice text start stop)[k]? = if start + k < stop then text[start + k]? else none := by
  rw [slice, List.getElem?_drop, List.getElem?_take]

theorem slice_eq_nil (crossed : stop ≤ start) : slice text start stop = [] := by
  rw [slice, List.drop_eq_nil_iff, List.length_take]
  omega

theorem take_append_slice_append_drop (ordered : start ≤ stop) :
    text.take start ++ (slice text start stop ++ text.drop stop) = text := by
  have front : text.take start = (text.take stop).take start := by
    rw [List.take_take, Nat.min_eq_left ordered]
  rw [slice, front, ← List.append_assoc, List.take_append_drop, List.take_append_drop]

end

end Script
