import Ace.Daemon.TimeOrderedId

/-!
# The layout of an id

An id is its timestamp, its counter and random digits in hexadecimal, cut into groups (`layout`). So
ids are in the order of timestamp and counter, and the timestamp is read back from them.
-/

namespace Ace.TimeOrderedId

open Script Hex
open Json (hexValue)
open Value (hexDigit)

/-! ### Bytes -/

theorem hexOf_byte {b : Nat} (byte : b < 256) (bytes : List Nat) :
    hexOf (b :: bytes) = digits 2 b ++ hexOf bytes := by
  have high : b / 16 % 16 = b / 16 := Nat.mod_eq_of_lt (by omega)
  simp only [hexOf, List.flatMap_cons, digits, high, List.nil_append, List.singleton_append]

theorem hexOf_append (first second : List Nat) :
    hexOf (first ++ second) = hexOf first ++ hexOf second := List.flatMap_append

theorem hexOf_timeBytes (count : Nat) : ∀ (ms : Nat) (bytes : List Nat),
    hexOf (timeBytes count ms bytes) = digits (count * 2) ms ++ hexOf bytes := by
  induction count with
  | zero =>
    intro ms bytes
    rw [timeBytes, Nat.zero_mul, digits, List.nil_append]
  | succ count ih =>
    intro ms bytes
    have last : digits 2 (ms % 256) = digits 2 ms := digits_mod 2 ms
    have split : digits (count * 2 + 2) ms = digits (count * 2) (ms / 256) ++ digits 2 ms :=
      digits_add (count * 2) 2 ms
    rw [timeBytes, ih, hexOf_byte (Nat.mod_lt _ (by decide)), last, Nat.add_mul, Nat.one_mul, split,
      List.append_assoc]

theorem version_byte : ∀ x < 16, digits 2 (0x70 ||| x) = '7' :: digits 1 x := by decide

theorem hexOf_counter {counter : Nat} (small : counter ≤ 0xfff) :
    hexOf [0x70 ||| ((counter >>> 8) &&& 0x0f), counter &&& 0xff] = '7' :: digits 3 counter := by
  have high : (counter >>> 8) &&& 0x0f = counter / 256 := by
    rw [Nat.shiftRight_eq_div_pow, Nat.and_two_pow_sub_one_eq_mod _ 4]
    exact Nat.mod_eq_of_lt (by omega)
  have low : counter &&& 0xff = counter % 256 := Nat.and_two_pow_sub_one_eq_mod _ 8
  have bound : counter / 256 < 16 := by omega
  have version : 0x70 ||| counter / 256 < 256 :=
    Nat.or_lt_two_pow (n := 8) (by decide) (by omega)
  have last : digits 2 (counter % 256) = digits 2 counter := digits_mod 2 counter
  have split : digits 3 counter = digits 1 (counter / 256) ++ digits 2 counter :=
    digits_add 1 2 counter
  rw [high, low, hexOf_byte version, hexOf_byte (Nat.mod_lt _ (by decide)), version_byte _ bound,
    last, split]
  simp only [hexOf, List.flatMap_nil, List.append_nil, List.cons_append]

/-- What may stand after the counter: sixteen digits, the first with the bits of the variant. -/
structure Ending (rest : List Char) : Prop where
  length : rest.length = 16
  digit : ∀ c ∈ rest, ∃ d < 16, c = hexDigit d
  variant : ∃ v more, rest = v :: more ∧ v ∈ ['8', '9', 'a', 'b']

theorem byteAt_lt (bytes : List UInt8) (index : Nat) : byteAt bytes index < 256 := by
  unfold byteAt
  cases bytes[index]? with
  | none => decide
  | some b => exact b.toNat_lt

theorem length_hexOf (bytes : List Nat) : (hexOf bytes).length = bytes.length * 2 := by
  induction bytes with
  | nil => rfl
  | cons b bytes ih =>
    change ([hexDigit (b / 16), hexDigit (b % 16)] ++ hexOf bytes).length = _
    rw [List.length_append, ih]
    simp only [List.length_cons, List.length_nil]
    omega

theorem hexOf_digits {bytes : List Nat} (all : ∀ b ∈ bytes, b < 256) :
    ∀ c ∈ hexOf bytes, ∃ d < 16, c = hexDigit d := by
  intro c member
  obtain ⟨b, among, isDigit⟩ := List.mem_flatMap.mp member
  have small := all b among
  rcases List.mem_cons.mp isDigit with high | low
  · exact ⟨b / 16, by omega, high⟩
  · exact ⟨b % 16, Nat.mod_lt _ (by decide), List.mem_singleton.mp low⟩

theorem variant_byte : ∀ x < 64, hexDigit ((0x80 ||| x) / 16) ∈ ['8', '9', 'a', 'b'] := by decide

theorem ending_spec (tail : List UInt8) :
    Ending (hexOf ((0x80 ||| (byteAt tail 0 &&& 0x3f)) ::
      (List.range 7).map fun index => byteAt tail (index + 1))) := by
  have small : byteAt tail 0 &&& 0x3f < 64 := by
    rw [Nat.and_two_pow_sub_one_eq_mod _ 6]
    exact Nat.mod_lt _ (by decide)
  have first : 0x80 ||| (byteAt tail 0 &&& 0x3f) < 256 :=
    Nat.or_lt_two_pow (n := 8) (by decide) (by omega)
  refine ⟨?_, ?_, ?_⟩
  · rw [length_hexOf, List.length_cons, List.length_map, List.length_range]
  · apply hexOf_digits
    intro b member
    rcases List.mem_cons.mp member with rfl | member
    · exact first
    · obtain ⟨index, _, rfl⟩ := List.mem_map.mp member
      exact byteAt_lt tail (index + 1)
  · exact ⟨_, _, rfl, variant_byte _ small⟩

/-! ### Groups -/

def layout (ms counter : Nat) (rest : List Char) : List Char :=
  digits 8 (ms / 16 ^ 4) ++ '-' :: (digits 4 ms ++ '-' :: ('7' :: digits 3 counter ++
    '-' :: (rest.take 4 ++ '-' :: rest.drop 4)))

theorem slice_middle (before middle end' : List Char) {start stop : Nat}
    (starts : start = before.length) (stops : stop = before.length + middle.length) :
    slice (before ++ (middle ++ end')) start stop = middle := by
  rw [slice, starts, stops, ← List.append_assoc, ← List.length_append, List.take_left,
    List.drop_left]

theorem cut_groups {a b c rest : List Char} (first : a.length = 8) (second : b.length = 4)
    (third : c.length = 4) (last : rest.length = 16) :
    slice (a ++ (b ++ (c ++ rest))) 0 8 ++
      '-' :: slice (a ++ (b ++ (c ++ rest))) 8 12 ++
      '-' :: slice (a ++ (b ++ (c ++ rest))) 12 16 ++
      '-' :: slice (a ++ (b ++ (c ++ rest))) 16 20 ++
      '-' :: (a ++ (b ++ (c ++ rest))).drop 20 =
    a ++ '-' :: (b ++ '-' :: (c ++ '-' :: (rest.take 4 ++ '-' :: rest.drop 4))) := by
  have cutA : slice (a ++ (b ++ (c ++ rest))) 0 8 = a :=
    slice_middle [] a _ rfl (by simp [first])
  have cutB : slice (a ++ (b ++ (c ++ rest))) 8 12 = b :=
    slice_middle a b _ (by simp [first]) (by simp [first, second])
  have cutC : slice (a ++ (b ++ (c ++ rest))) 12 16 = c := by
    rw [← List.append_assoc]
    exact slice_middle (a ++ b) c _ (by simp [first, second]) (by simp [first, second, third])
  have cutD : slice (a ++ (b ++ (c ++ rest))) 16 20 = rest.take 4 := by
    rw [← List.append_assoc, ← List.append_assoc]
    nth_rewrite 1 [← List.take_append_drop 4 rest]
    exact slice_middle (a ++ b ++ c) (rest.take 4) _ (by simp [first, second, third])
      (by simp [first, second, third, last])
  have cutE : (a ++ (b ++ (c ++ rest))).drop 20 = rest.drop 4 := by
    rw [← List.append_assoc, ← List.append_assoc, List.drop_append,
      List.drop_of_length_le (by simp [first, second, third])]
    simp [first, second, third]
  rw [cutA, cutB, cutC, cutD, cutE]
  simp

theorem formatUuidV7_eq {ms : Int} {counter : Nat} (start : 0 ≤ ms) (stop : ms < 2 ^ 48)
    (small : counter ≤ 0xfff) (tail : List UInt8) :
    ∃ rest, Ending rest ∧
      formatUuidV7 ms counter tail = .ok (String.ofList (layout ms.toNat counter rest)) := by
  have valid : ¬(2 ^ 53 - 1 < ms.natAbs ∨ ms < 0 ∨ 2 ^ 48 ≤ ms) := by omega
  refine ⟨_, ending_spec tail, ?_⟩
  rw [formatUuidV7, if_neg valid]
  simp only []
  generalize hexEnd : hexOf ((0x80 ||| (byteAt tail 0 &&& 0x3f)) ::
    (List.range 7).map fun index => byteAt tail (index + 1)) = rest
  have length : rest.length = 16 := by
    rw [← hexEnd]
    exact (ending_spec tail).length
  have time : digits 12 ms.toNat = digits 8 (ms.toNat / 16 ^ 4) ++ digits 4 ms.toNat :=
    digits_add 8 4 ms.toNat
  have hex : hexOf (timeBytes 6 ms.toNat [] ++
      [0x70 ||| ((counter >>> 8) &&& 0x0f), counter &&& 0xff, 0x80 ||| (byteAt tail 0 &&& 0x3f)] ++
      (List.range 7).map fun index => byteAt tail (index + 1)) =
      digits 8 (ms.toNat / 16 ^ 4) ++ (digits 4 ms.toNat ++ ('7' :: digits 3 counter ++ rest)) := by
    have shape : ∀ x y z : Nat, ∀ bytes more : List Nat,
        bytes ++ [x, y, z] ++ more = bytes ++ ([x, y] ++ z :: more) := by simp
    rw [shape, hexOf_append, hexOf_append, hexEnd, hexOf_timeBytes, hexOf_counter small, time]
    simp [hexOf]
  rw [hex, cut_groups (length_digits 8 _) (length_digits 4 _) (by simp) length]
  rfl

/-! ### What an id is -/

/-- A well-formed UUID of version 7, in lower case. -/
def WellFormed (id : String) : Prop :=
  ∃ (a b c d e : List Char) (v : Char),
    id.toList = a ++ '-' :: (b ++ '-' :: ('7' :: c ++ '-' :: (v :: d ++ '-' :: e))) ∧
      a.length = 8 ∧ b.length = 4 ∧ c.length = 3 ∧ d.length = 3 ∧ e.length = 12 ∧
      v ∈ ['8', '9', 'a', 'b'] ∧
      ∀ x ∈ a ++ b ++ c ++ d ++ e, x ∈ "0123456789abcdef".toList

theorem hexDigit_lower : ∀ d < 16, hexDigit d ∈ "0123456789abcdef".toList := by decide

theorem hexDigit_dash : ∀ d < 16, hexDigit d ≠ '-' := by decide

theorem wellFormed_layout {ms counter : Nat} {rest : List Char} (ending : Ending rest) :
    WellFormed (String.ofList (layout ms counter rest)) := by
  obtain ⟨v, more, split, variant⟩ := ending.variant
  have length := ending.length
  rw [split, List.length_cons] at length
  refine ⟨digits 8 (ms / 16 ^ 4), digits 4 ms, digits 3 counter, more.take 3, more.drop 3, v, ?_,
    length_digits 8 _, length_digits 4 _, length_digits 3 _, ?_, ?_, variant, ?_⟩
  · rw [String.toList_ofList, layout, split]
    rfl
  · rw [List.length_take]
    omega
  · rw [List.length_drop]
    omega
  · intro x member
    have digit : ∃ d < 16, x = hexDigit d := by
      rw [List.append_assoc, List.take_append_drop] at member
      simp only [List.mem_append] at member
      rcases member with ((inA | inB) | inC) | inRest
      · exact mem_digits inA
      · exact mem_digits inB
      · exact mem_digits inC
      · apply ending.digit
        rw [split]
        exact List.mem_cons_of_mem v inRest
    obtain ⟨d, small, rfl⟩ := digit
    exact hexDigit_lower d small

theorem filter_dashes {text : List Char} (all : ∀ c ∈ text, ∃ d < 16, c = hexDigit d) :
    text.filter (· ≠ '-') = text := by
  rw [List.filter_eq_self]
  intro c member
  obtain ⟨d, small, rfl⟩ := all c member
  exact decide_eq_true (hexDigit_dash d small)

theorem uuidV7Time_layout {ms counter : Nat} {rest : List Char} (small : ms < 2 ^ 48)
    (ending : Ending rest) :
    uuidV7Time (String.ofList (layout ms counter rest)) = some ms := by
  have seven : ∃ d < 16, '7' = hexDigit d := ⟨7, by decide, by decide⟩
  have time : digits 12 ms = digits 8 (ms / 16 ^ 4) ++ digits 4 ms := digits_add 8 4 ms
  have all : ∀ c ∈ digits 12 ms ++ ('7' :: digits 3 counter ++ rest), ∃ d < 16, c = hexDigit d := by
    intro c member
    rw [List.mem_append, List.mem_append, List.mem_cons] at member
    rcases member with inTime | (rfl | inCounter) | inRest
    · exact mem_digits inTime
    · exact seven
    · exact mem_digits inCounter
    · exact ending.digit c inRest
  -- without the dashes the digits are left
  have hex : (String.ofList (layout ms counter rest)).toList.filter (· ≠ '-') =
      digits 12 ms ++ ('7' :: digits 3 counter ++ rest) := by
    rw [String.toList_ofList, ← filter_dashes all, time, layout]
    simp only [List.filter_append, List.filter_cons_of_neg, ne_eq, not_true_eq_false,
      decide_false, Bool.false_eq_true, not_false_eq_true, List.append_assoc]
    rw [← List.filter_append, List.take_append_drop]
  have valid : ∀ c ∈ digits 12 ms ++ ('7' :: digits 3 counter ++ rest), (hexValue c).isSome := by
    intro c member
    obtain ⟨d, small, rfl⟩ := all c member
    rw [hexValue_digit d small]
    rfl
  have length : (digits 12 ms ++ ('7' :: digits 3 counter ++ rest)).length = 32 := by
    simp [ending.length]
  have version : (digits 12 ms ++ ('7' :: digits 3 counter ++ rest))[12]? = some '7' := by
    rw [List.getElem?_append_right (by simp)]
    simp
  unfold uuidV7Time
  simp only [hex]
  rw [if_pos ⟨length, List.all_eq_true.mpr valid, version⟩, List.take_left' (length_digits 12 ms),
    parse_digits 12 ms (by omega)]

/-! ### Order -/

theorem layout_lt {ms ms' counter counter' : Nat} {rest rest' : List Char} (small : ms' < 2 ^ 48)
    (small' : counter' ≤ 0xfff) (less : ms < ms' ∨ ms = ms' ∧ counter < counter') :
    String.ofList (layout ms counter rest) < String.ofList (layout ms' counter' rest') := by
  rw [String.lt_iff, String.toList_ofList, String.toList_ofList, layout, layout]
  rcases less with earlier | ⟨rfl, lower⟩
  · rcases Nat.lt_or_eq_of_le (Nat.div_le_div_right (c := 16 ^ 4) (Nat.le_of_lt earlier))
      with first | same
    · apply append_lt_append_right (by simp)
      exact digits_lt (by omega) first
    · -- the first eight digits are the same, the next four decide
      rw [same]
      apply append_lt_append_left
      rw [List.cons_lt_cons_iff]
      refine .inr ⟨rfl, append_lt_append_right (by simp) ?_ _ _⟩
      rw [← digits_mod 4 ms, ← digits_mod 4 ms']
      exact digits_lt (Nat.mod_lt _ (by decide)) (by omega)
  · apply append_lt_append_left
    rw [List.cons_lt_cons_iff]
    refine .inr ⟨rfl, append_lt_append_left _ ?_⟩
    rw [List.cons_lt_cons_iff]
    refine .inr ⟨rfl, append_lt_append_right (by simp) ?_ _ _⟩
    rw [List.cons_lt_cons_iff]
    exact .inr ⟨rfl, digits_lt (by omega) lower⟩

end Ace.TimeOrderedId
