import Ace.Client.Base64

/-!
# Strict base64

The script decodes a chunk exactly where four letters, or letters and padding, encode bytes,
and leaves the array full. The platform's decoder accepts white space as well, but then it
returns fewer bytes than the length of the text tells.

## Main result

`decodeBase64_strict`: either decoder accepts the canonical encodings of at most `limit` bytes
and nothing else, and inverts them.
-/

namespace Ace.Client

open Script Script.Base64

/-! ### Letters -/

theorem digit_eq (u : Nat) : digit u = match value? u with
    | some n => (n : ℤ)
    | none => -1 := by
  unfold digit value?
  split_ifs <;> simp only <;> omega

theorem digit_letter {n : Nat} (small : n < 64) : digit (letter n) = n := by
  rw [digit_eq, value?_letter small]

theorem digit_pad : digit pad = -1 := rfl

theorem digit_cases (u : Nat) : digit u < 0 ∨ ∃ n < 64, u = letter n := by
  rw [digit_eq]
  cases known : value? u with
  | none => exact .inl (by decide)
  | some n => exact .inr ⟨n, value?_eq_some.mp known⟩

theorem digit_of_mem_encode {bytes : Bytes} (known : IsBytes bytes) {u : Nat}
    (member : u ∈ encode bytes) (other : u ≠ pad) : 0 ≤ digit u := by
  rcases mem_encode known u member with rfl | ⟨n, small, rfl⟩
  · exact absurd rfl other
  · rw [digit_letter small]
    exact Int.natCast_nonneg n

theorem encode_head {bytes : Bytes} (known : IsBytes bytes) {u v : Nat} {more : CodeUnits}
    (whole : u :: v :: more = encode bytes) : 0 ≤ digit u ∧ 0 ≤ digit v := by
  have first : u ≠ pad := by
    rintro rfl
    exact @not_encode_pad [] (by simp) (v :: more) bytes whole
  have one := digit_of_mem_encode known (whole ▸ List.mem_cons_self) first
  refine ⟨one, digit_of_mem_encode known (whole ▸ by simp) ?_⟩
  rintro rfl
  rcases digit_cases u with negative | ⟨n, _, rfl⟩
  · omega
  · exact @not_encode_pad [n] (by simp) more bytes whole

/-! ### Bits -/

theorem toByte_natCast (n : Nat) : toByte (n : ℤ) = n % 256 := by
  unfold toByte
  omega

theorem toByte_bits {a b : Nat} (i j : Nat) (hb : b / 2 ^ j < 2 ^ i) :
    toByte (Int.lor ((a : ℤ) <<< i) ((b : ℤ) >>> j)) = (a * 2 ^ i + b / 2 ^ j) % 256 := by
  have left : ((a : ℤ) <<< i) = ((a <<< i : Nat) : ℤ) := rfl
  have right : ((b : ℤ) >>> j) = ((b >>> j : Nat) : ℤ) := rfl
  rw [left, right]
  have both : Int.lor ((a <<< i : Nat) : ℤ) ((b >>> j : Nat) : ℤ) =
      ((a <<< i ||| b >>> j : Nat) : ℤ) := rfl
  rw [both, toByte_natCast, Nat.shiftRight_eq_div_pow,
    ← Nat.shiftLeft_add_eq_or_of_lt hb, Nat.shiftLeft_eq]

theorem land_natCast (b k : Nat) : Int.land (b : ℤ) ((2 ^ k - 1 : Nat) : ℤ) = (b % 2 ^ k : Nat) := by
  have both : Int.land (b : ℤ) ((2 ^ k - 1 : Nat) : ℤ) = ((b &&& (2 ^ k - 1) : Nat) : ℤ) := rfl
  rw [both, Nat.and_two_pow_sub_one_eq_mod]

/-! ### The array -/

/-- An array of which `written` is written and the rest still zero. -/
def filled (written : Bytes) (free : Nat) : Decoded where
  bytes := written ++ List.replicate free 0
  index := written.length

theorem store_filled (written : Bytes) (free : Nat) (n : ℤ) :
    (filled written (free + 1)).store n = filled (written ++ [toByte n]) free := by
  simp [filled, Decoded.store, List.replicate_succ, List.set_append_right]

theorem storeInside_filled (written : Bytes) (free : Nat) (n : ℤ) :
    (filled written (free + 1)).storeInside n = filled (written ++ [toByte n]) free := by
  rw [← store_filled, Decoded.storeInside, if_pos]
  simp [filled]

theorem storeInside_full (written : Bytes) (n : ℤ) :
    (filled written 0).storeInside n = filled written 0 := by
  rw [Decoded.storeInside, if_neg]
  simp [filled]

@[simp] theorem bytes_filled (written : Bytes) : (filled written 0).bytes = written :=
  List.append_nil written

/-! ### One chunk -/

section

variable {a b c e : Nat} (ha : a < 64) (hb : b < 64) (hc : c < 64) (he : e < 64)
  (written : Bytes)

include ha hb in
theorem firstByte : toByte (Int.lor ((a : ℤ) <<< (2 : Nat)) ((b : ℤ) >>> (4 : Nat))) = a * 4 + b / 16 := by
  rw [toByte_bits 2 4 (by omega)]
  omega

include hb hc in
theorem secondByte : toByte (Int.lor ((b : ℤ) <<< (4 : Nat)) ((c : ℤ) >>> (2 : Nat))) = b % 16 * 16 + c / 4 := by
  rw [toByte_bits 4 2 (by omega)]
  omega

include hc he in
theorem thirdByte : toByte (Int.lor ((c : ℤ) <<< (6 : Nat)) (e : ℤ)) = c % 4 * 64 + e := by
  have bits := toByte_bits (a := c) (b := e) 6 0 (by omega)
  have whole : ((e : ℤ) >>> (0 : Nat)) = (e : ℤ) := rfl
  rw [whole] at bits
  rw [bits]
  omega

include ha hb hc he in
theorem decodeChunk_full (padding : Nat) (last : Bool) (free : Nat)
    (none : last = true → padding = 0) :
    decodeChunk padding last (letter a) (letter b) (letter c) (letter e) (filled written (free + 3)) =
      some (filled (written ++ chunkBytes a b c e) free) := by
  have clean : ¬ (last = true ∧ padding = 2) ∧ ¬ (last = true ∧ padding = 1) := by
    constructor <;> rintro ⟨isLast, is⟩ <;> simp [none isLast] at is
  rw [decodeChunk]
  simp only [digit_letter ha, digit_letter hb, digit_letter hc, digit_letter he]
  rw [if_neg (by
    rintro (negative | negative | ⟨negative, _⟩ | ⟨negative, _⟩ | ⟨isLast, is, _⟩ | ⟨isLast, is, _⟩)
    · omega
    · omega
    · omega
    · omega
    · exact clean.1 ⟨isLast, is⟩
    · exact clean.2 ⟨isLast, is⟩)]
  simp only [store_filled, storeInside_filled, firstByte ha hb, secondByte hb hc, thirdByte hc he,
    List.append_assoc, List.cons_append, List.nil_append, chunkBytes]

include ha hb in
theorem decodeChunk_two : decodeChunk 2 true (letter a) (letter b) pad pad (filled written 1) =
    (finalBytes [a, b]).map fun bytes => filled (written ++ bytes) 0 := by
  have leftover : Int.land (b : ℤ) 15 = (b % 16 : Nat) := land_natCast b 4
  rw [decodeChunk, finalBytes]
  simp only [digit_letter ha, digit_letter hb, digit_pad, leftover]
  by_cases clean : b % 16 = 0
  · rw [if_neg (by simp [clean]), if_pos clean]
    simp only [store_filled, storeInside_full, firstByte ha hb, Option.map_some]
  · rw [if_pos (by simp; omega), if_neg clean]
    rfl

include ha hb hc in
theorem decodeChunk_three :
    decodeChunk 1 true (letter a) (letter b) (letter c) pad (filled written 2) =
      (finalBytes [a, b, c]).map fun bytes => filled (written ++ bytes) 0 := by
  have leftover : Int.land (c : ℤ) 3 = (c % 4 : Nat) := land_natCast c 2
  rw [decodeChunk, finalBytes]
  simp only [digit_letter ha, digit_letter hb, digit_letter hc, digit_pad, leftover]
  by_cases clean : c % 4 = 0
  · rw [if_neg (by simp [clean]), if_pos clean]
    simp only [store_filled, storeInside_filled, storeInside_full, firstByte ha hb,
      secondByte hb hc, Option.map_some, List.append_assoc, List.cons_append, List.nil_append]
  · rw [if_pos (by simp; omega), if_neg clean]
    rfl

end

theorem decodeChunk_head {padding : Nat} {last : Bool} {u v w x : Nat} {d : Decoded}
    (negative : digit u < 0 ∨ digit v < 0) : decodeChunk padding last u v w x d = none := by
  rw [decodeChunk]
  exact if_pos (by tauto)

theorem decodeChunk_third {padding : Nat} {last : Bool} {u v w x : Nat} {d : Decoded}
    (negative : digit w < 0) (unpadded : ¬ (last = true ∧ padding = 2 ∧ w = pad)) :
    decodeChunk padding last u v w x d = none := by
  rw [decodeChunk]
  exact if_pos (.inr (.inr (.inl ⟨negative, unpadded⟩)))

theorem decodeChunk_fourth {padding : Nat} {last : Bool} {u v w x : Nat} {d : Decoded}
    (negative : digit x < 0) (unpadded : ¬ (last = true ∧ padding ≠ 0 ∧ x = pad)) :
    decodeChunk padding last u v w x d = none := by
  rw [decodeChunk]
  exact if_pos (.inr (.inr (.inr (.inl ⟨negative, unpadded⟩))))

/-! ### Padding -/

theorem paddingOf_chunk (u v w x : Nat) :
    paddingOf [u, v, w, x] = if x = pad then if w = pad then 2 else 1 else 0 := by
  have two : [pad, pad].isSuffixOf [u, v, w, x] = (decide (w = pad) && decide (x = pad)) := by
    simp [List.isSuffixOf, List.isPrefixOf, Bool.and_comm, eq_comm, Bool.beq_eq_decide_eq]
  have one : [pad].isSuffixOf [u, v, w, x] = decide (x = pad) := by
    simp [List.isSuffixOf, List.isPrefixOf, eq_comm, Bool.beq_eq_decide_eq]
  rw [paddingOf, two, one]
  by_cases last : x = pad <;> by_cases before : w = pad <;> simp [last, before]

theorem isSuffixOf_append {end_ rest : CodeUnits} (front : CodeUnits)
    (fits : end_.length ≤ rest.length) :
    end_.isSuffixOf (front ++ rest) = end_.isSuffixOf rest := by
  rw [Bool.eq_iff_iff, List.isSuffixOf_iff_suffix, List.isSuffixOf_iff_suffix]
  constructor
  · intro suffix
    exact List.suffix_of_suffix_length_le suffix (List.suffix_append front rest) fits
  · exact fun suffix => suffix.trans (List.suffix_append front rest)

theorem paddingOf_append (front : CodeUnits) {rest : CodeUnits} (fits : 2 ≤ rest.length) :
    paddingOf (front ++ rest) = paddingOf rest := by
  rw [paddingOf, isSuffixOf_append front (by simpa using fits),
    isSuffixOf_append front (by simp; omega), paddingOf]

theorem paddingOf_le (text : CodeUnits) : paddingOf text ≤ 2 := by
  unfold paddingOf
  split_ifs <;> omega

/-! ### The rounds -/

theorem decodeChunk_last (u v w x : Nat) (written result : Bytes) :
    (decodeChunk (paddingOf [u, v, w, x]) true u v w x
        (filled written (3 - paddingOf [u, v, w, x]))).map (·.bytes) = some result ↔
      ∃ more, IsBytes more ∧ [u, v, w, x] = encode more ∧ result = written ++ more := by
  by_cases head : digit u < 0 ∨ digit v < 0
  · rw [decodeChunk_head head]
    refine iff_of_false (by simp) ?_
    rintro ⟨more, known, whole, _⟩
    have letters := encode_head known whole
    omega
  · rw [not_or] at head
    obtain ⟨a, ha, rfl⟩ := (digit_cases u).resolve_left head.1
    obtain ⟨b, hb, rfl⟩ := (digit_cases v).resolve_left head.2
    rw [paddingOf_chunk]
    by_cases padded : x = pad
    · subst padded
      rw [if_pos rfl]
      by_cases twice : w = pad
      · subst twice
        rw [if_pos rfl, decodeChunk_two ha hb]
        have two := encode_two ha hb [pad]
        constructor
        · intro found
          cases known : finalBytes [a, b] with
          | none => simp [known] at found
          | some more =>
            obtain ⟨isBytes, whole⟩ := (two more).mpr ⟨rfl, known⟩
            exact ⟨more, isBytes, whole, by simpa [known] using found.symm⟩
        · rintro ⟨more, isBytes, whole, rfl⟩
          simp [((two more).mp ⟨isBytes, whole⟩).2]
      · rw [if_neg twice]
        rcases digit_cases w with negative | ⟨c, hc, rfl⟩
        · rw [decodeChunk_third negative (by simp)]
          refine iff_of_false (by simp) ?_
          rintro ⟨more, known, whole, _⟩
          have letter := digit_of_mem_encode known (whole ▸ (by simp : w ∈ _)) twice
          omega
        · rw [decodeChunk_three ha hb hc]
          have three := encode_three ha hb hc []
          constructor
          · intro found
            cases known : finalBytes [a, b, c] with
            | none => simp [known] at found
            | some more =>
              obtain ⟨isBytes, whole⟩ := (three more).mpr ⟨rfl, known⟩
              exact ⟨more, isBytes, whole, by simpa [known] using found.symm⟩
          · rintro ⟨more, isBytes, whole, rfl⟩
            simp [((three more).mp ⟨isBytes, whole⟩).2]
    · rw [if_neg padded]
      rcases digit_cases x with negative | ⟨e, he, rfl⟩
      · rw [decodeChunk_fourth negative (by simp)]
        refine iff_of_false (by simp) ?_
        rintro ⟨more, known, whole, _⟩
        have letter := digit_of_mem_encode known (whole ▸ (by simp : x ∈ _)) padded
        omega
      · rcases digit_cases w with negative | ⟨c, hc, rfl⟩
        · rw [decodeChunk_third negative (by simp)]
          refine iff_of_false (by simp) ?_
          rintro ⟨more, known, whole, _⟩
          by_cases isPad : w = pad
          · subst isPad
            have last := ((encode_two ha hb [letter e] more).mp ⟨known, whole⟩).1
            exact letter_ne_pad e (List.cons_eq_cons.mp last).1
          · have letter := digit_of_mem_encode known (whole ▸ (by simp : w ∈ _)) isPad
            omega
        · rw [decodeChunk_full ha hb hc he written 0 true 0 (fun _ => rfl)]
          have full := encode_full ha hb hc he []
          constructor
          · intro found
            obtain ⟨isBytes, whole⟩ := (full (chunkBytes a b c e ++ [])).mpr
              ⟨[], rfl, by simp [IsBytes], rfl⟩
            exact ⟨_, isBytes, whole, by simpa using found.symm⟩
          · rintro ⟨more, isBytes, whole, rfl⟩
            obtain ⟨rest, rfl, _, none⟩ := (full more).mp ⟨isBytes, whole⟩
            have empty : rest = [] := by
              have lengths := congrArg List.length none
              rw [length_encode, List.length_nil] at lengths
              exact List.eq_nil_of_length_eq_zero (by omega)
            simp [empty]

def room (text : CodeUnits) : Nat := text.length / 4 * 3 - paddingOf text

theorem decodeChunks_iff (text : CodeUnits) (chunked : text.length % 4 = 0) (written result : Bytes) :
    (decodeChunks (paddingOf text) text (filled written (room text))).map (·.bytes) = some result ↔
      ∃ more, IsBytes more ∧ text = encode more ∧ result = written ++ more := by
  match text, chunked with
  | [], _ =>
    have empty : room [] = 0 := rfl
    rw [decodeChunks, empty]
    constructor
    · intro found
      exact ⟨[], by simp [IsBytes], rfl, by simpa using found.symm⟩
    · rintro ⟨more, _, none, rfl⟩
      have lengths := congrArg List.length none
      rw [length_encode, List.length_nil] at lengths
      have nothing : more = [] := List.eq_nil_of_length_eq_zero (by omega)
      simp [nothing]
  | [_], chunked | [_, _], chunked | [_, _, _], chunked => simp at chunked
  | [u, v, w, x], _ =>
    have last := decodeChunk_last u v w x written result
    have space : room [u, v, w, x] = 3 - paddingOf [u, v, w, x] := by simp [room]
    rw [space, decodeChunks, List.isEmpty_nil]
    generalize decodeChunk (paddingOf [u, v, w, x]) true u v w x
      (filled written (3 - paddingOf [u, v, w, x])) = chunk at last ⊢
    rw [← last]
    cases chunk <;> rfl
  | u :: v :: w :: x :: y :: rest, chunked =>
    have tail : (y :: rest).length % 4 = 0 := by
      simp only [List.length_cons] at chunked ⊢
      omega
    have longer : 4 ≤ (y :: rest).length := by
      simp only [List.length_cons] at tail ⊢
      omega
    have same : paddingOf (u :: v :: w :: x :: y :: rest) = paddingOf (y :: rest) :=
      paddingOf_append [u, v, w, x] (by omega)
    have small := paddingOf_le (y :: rest)
    have space : room (u :: v :: w :: x :: y :: rest) = room (y :: rest) + 3 := by
      rw [room, room, same]
      simp only [List.length_cons] at longer ⊢
      omega
    rw [space, same, decodeChunks, List.isEmpty_cons]
    -- A chunk before the last has four letters.
    by_cases all : (0 ≤ digit u ∧ 0 ≤ digit v) ∧ 0 ≤ digit w ∧ 0 ≤ digit x
    · obtain ⟨a, ha, rfl⟩ := (digit_cases u).resolve_left (by omega)
      obtain ⟨b, hb, rfl⟩ := (digit_cases v).resolve_left (by omega)
      obtain ⟨c, hc, rfl⟩ := (digit_cases w).resolve_left (by omega)
      obtain ⟨e, he, rfl⟩ := (digit_cases x).resolve_left (by omega)
      rw [decodeChunk_full ha hb hc he written _ false _ (by simp)]
      simp only
      rw [decodeChunks_iff (y :: rest) tail]
      have full := encode_full ha hb hc he (y :: rest)
      constructor
      · rintro ⟨more, known, whole, rfl⟩
        obtain ⟨isBytes, encoded⟩ := (full (chunkBytes a b c e ++ more)).mpr ⟨more, rfl, known, whole⟩
        exact ⟨_, isBytes, encoded, by rw [List.append_assoc]⟩
      · rintro ⟨more, known, whole, rfl⟩
        obtain ⟨others, rfl, isBytes, encoded⟩ := (full more).mp ⟨known, whole⟩
        exact ⟨others, isBytes, encoded, by rw [List.append_assoc]⟩
    · have rejected : decodeChunk (paddingOf (y :: rest)) false u v w x
          (filled written (room (y :: rest) + 3)) = none := by
        by_cases head : digit u < 0 ∨ digit v < 0
        · exact decodeChunk_head head
        · by_cases third : digit w < 0
          · exact decodeChunk_third third (by simp)
          · exact decodeChunk_fourth (by omega) (by simp)
      rw [rejected]
      refine iff_of_false (by simp) ?_
      rintro ⟨more, known, whole, _⟩
      have head := encode_head known whole
      obtain ⟨a, ha, rfl⟩ := (digit_cases u).resolve_left (by omega)
      obtain ⟨b, hb, rfl⟩ := (digit_cases v).resolve_left (by omega)
      by_cases third : w = pad
      · subst third
        have short := ((encode_two ha hb (x :: y :: rest) more).mp ⟨known, whole⟩).1
        simp at short
      · have isLetter := digit_of_mem_encode known (whole ▸ (by simp : w ∈ _)) third
        obtain ⟨c, hc, rfl⟩ := (digit_cases w).resolve_left (by omega)
        by_cases fourth : x = pad
        · subst fourth
          have short := ((encode_three ha hb hc (y :: rest) more).mp ⟨known, whole⟩).1
          simp at short
        · have alsoLetter := digit_of_mem_encode known (whole ▸ (by simp : x ∈ _)) fourth
          exact all ⟨head, isLetter, alsoLetter⟩
  termination_by text.length

/-! ### Both decoders -/

theorem room_encode : ∀ bytes : Bytes, IsBytes bytes → room (encode bytes) = bytes.length
  | [], _ => rfl
  | [x], _ => by simp [room, encode, paddingOf_chunk]
  | [x, y], _ => by simp [room, encode, paddingOf_chunk, letter_ne_pad]
  | [x, y, z], _ => by simp [room, encode, paddingOf_chunk, letter_ne_pad]
  | x :: y :: z :: w :: rest, known => by
    have tail := room_encode (w :: rest) fun b member => known b (by simp_all)
    have length := length_encode (w :: rest)
    rw [room] at tail
    have padding : paddingOf (encode (x :: y :: z :: w :: rest)) = paddingOf (encode (w :: rest)) := by
      refine paddingOf_append [_, _, _, _] ?_
      rw [length, List.length_cons]
      omega
    have longer : (encode (x :: y :: z :: w :: rest)).length = (encode (w :: rest)).length + 4 := by
      rw [length_encode, length]
      simp only [List.length_cons]
      omega
    have small := paddingOf_le (encode (w :: rest))
    rw [room, padding, longer]
    simp only [List.length_cons] at length tail ⊢
    omega

theorem length_eq_room {text : CodeUnits} (chunked : text.length % 4 = 0) :
    (text.length : ℤ) / 4 * 3 - paddingOf text = room text := by
  have small := paddingOf_le text
  have fits : paddingOf text ≤ text.length / 4 * 3 := by
    rcases text with _ | ⟨u, rest⟩
    · exact Nat.le_refl 0
    · simp only [List.length_cons] at chunked ⊢
      omega
  unfold room
  omega

theorem letters_eq_self {text : CodeUnits} {bytes : Bytes} (chunked : text.length % 4 = 0)
    (known : IsBytes bytes) (whole : letters text = encode bytes)
    (length : bytes.length = room text) : letters text = text := by
  have shorter : (letters text).length ≤ text.length := List.length_filter_le _ _
  have encoded := length_encode bytes
  rw [← whole] at encoded
  by_cases same : (letters text).length = text.length
  · exact List.filter_sublist.eq_of_length same
  · have small := paddingOf_le text
    unfold room at length
    omega

theorem decodeBase64_eq_some (native : Bool) (text : CodeUnits) (limit : ℤ) (bytes : Bytes) :
    decodeBase64 native text limit = some bytes ↔
      IsBytes bytes ∧ bytes.length ≤ limit ∧ text = encode bytes := by
  rw [decodeBase64]
  by_cases chunked : text.length % 4 = 0
  · simp only [length_eq_room chunked, chunked, Int.toNat_natCast]
    -- Whoever accepts it, an encoding fills the room of the text.
    have fits : ∀ {bytes}, IsBytes bytes → text = encode bytes → bytes.length = room text := by
      rintro bytes known rfl
      exact (room_encode bytes known).symm
    by_cases large : limit < room text
    · rw [if_pos (by simp [large])]
      refine iff_of_false (by simp) ?_
      rintro ⟨known, small, whole⟩
      have length := fits known whole
      omega
    · rw [if_neg (by omega)]
      cases native with
      | false =>
        rw [if_neg Bool.false_ne_true, decodeInScript]
        have start : ({ bytes := List.replicate (room text) 0, index := 0 } : Decoded) =
            filled [] (room text) := rfl
        rw [start, decodeChunks_iff text chunked]
        constructor
        · rintro ⟨more, known, whole, rfl⟩
          have length := fits known whole
          exact ⟨known, by omega, whole⟩
        · rintro ⟨known, _, whole⟩
          exact ⟨bytes, known, whole, rfl⟩
      | true =>
        rw [if_pos rfl]
        cases decoded : fromBase64 text with
        | none =>
          refine iff_of_false (by simp) ?_
          rintro ⟨known, _, rfl⟩
          have accepted := (fromBase64_iff (encode bytes) bytes).mpr ⟨known, letters_encode known⟩
          rw [decoded] at accepted
          cases accepted
        | some found =>
          obtain ⟨known, whole⟩ := (fromBase64_iff text found).mp decoded
          simp only
          constructor
          · intro returned
            split at returned
            · cases returned
            · next length =>
              cases returned
              rw [not_not, Nat.cast_inj] at length
              rw [letters_eq_self chunked known whole length] at whole
              exact ⟨known, by omega, whole⟩
          · rintro ⟨isBytes, _, rfl⟩
            have same := (fromBase64_iff (encode bytes) bytes).mpr ⟨isBytes, letters_encode isBytes⟩
            rw [decoded] at same
            cases same
            rw [if_neg]
            rw [not_not, Nat.cast_inj]
            exact fits known rfl
  · rw [if_pos (.inl chunked)]
    refine iff_of_false (by simp) ?_
    rintro ⟨_, _, rfl⟩
    rw [length_encode] at chunked
    omega

/-- **Strict base64.** The two decoders agree on every text. Either accepts exactly the
canonical encodings of at most `limit` bytes, and inverts them. -/
theorem decodeBase64_strict (text : CodeUnits) (limit : ℤ) :
    decodeBase64 true text limit = decodeBase64 false text limit ∧
      ∀ native bytes, decodeBase64 native text limit = some bytes ↔
        IsBytes bytes ∧ bytes.length ≤ limit ∧ text = encode bytes := by
  refine ⟨?_, fun native bytes => decodeBase64_eq_some native text limit bytes⟩
  refine Option.ext fun bytes => ?_
  rw [decodeBase64_eq_some, decodeBase64_eq_some]

end Ace.Client
