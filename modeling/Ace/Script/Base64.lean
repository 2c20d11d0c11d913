import Ace.Script.Utf16
import Mathlib.Tactic.SplitIfs

/-!
# Base64

The standard encoding with padding, and the platform's decoder with the strict handling of the
last chunk. That decoder passes over ASCII white space wherever it stands. Apart from the
white space it accepts the encodings of byte strings and nothing else.
-/

namespace Script.Base64

abbrev Bytes := List Nat

def IsBytes (bytes : Bytes) : Prop := ∀ b ∈ bytes, b < 256

/-- `=` -/
def pad : Nat := 61

/-! ### Letters -/

/-- The letter for six bits. -/
def letter (n : Nat) : Nat :=
  if n < 26 then 65 + n
  else if n < 52 then 71 + n
  else if n < 62 then n - 4
  else if n = 62 then 43
  else 47

/-- The six bits that a letter stands for. -/
def value? (u : Nat) : Option Nat :=
  if 65 ≤ u ∧ u ≤ 90 then some (u - 65)
  else if 97 ≤ u ∧ u ≤ 122 then some (u - 71)
  else if 48 ≤ u ∧ u ≤ 57 then some (u + 4)
  else if u = 43 then some 62
  else if u = 47 then some 63
  else none

def isAsciiSpace (u : Nat) : Bool := u == 9 || u == 10 || u == 12 || u == 13 || u == 32

theorem value?_letter : ∀ {n : Nat}, n < 64 → value? (letter n) = some n := by decide

theorem value?_eq_some {u n : Nat} : value? u = some n ↔ n < 64 ∧ u = letter n := by
  refine ⟨fun known => ?_, fun ⟨small, is⟩ => is ▸ value?_letter small⟩
  unfold value? at known
  split_ifs at known with upper lower digit plus slash
  all_goals cases known
  · rw [letter, if_pos (by omega)]
    omega
  · rw [letter, if_neg (by omega), if_pos (by omega)]
    omega
  · rw [letter, if_neg (by omega), if_neg (by omega), if_pos (by omega)]
    omega
  · exact ⟨by omega, plus⟩
  · exact ⟨by omega, slash⟩

theorem letter_ne_pad (n : Nat) : letter n ≠ pad := by
  unfold letter pad
  split_ifs <;> omega

theorem not_space_letter (n : Nat) : isAsciiSpace (letter n) = false := by
  unfold isAsciiSpace letter
  split_ifs <;> simp <;> omega

/-! ### Encoding -/

/-- The canonical encoding with padding. -/
def encode : Bytes → CodeUnits
  | [] => []
  | [x] => [letter (x / 4), letter (x % 4 * 16), pad, pad]
  | [x, y] => [letter (x / 4), letter (x % 4 * 16 + y / 16), letter (y % 16 * 4), pad]
  | x :: y :: z :: rest =>
    letter (x / 4) :: letter (x % 4 * 16 + y / 16) :: letter (y % 16 * 4 + z / 64) ::
      letter (z % 64) :: encode rest

/-- The length of an encoding is a multiple of four, and tells that of what is encoded up to
the padding. -/
theorem length_encode : ∀ bytes : Bytes, (encode bytes).length = (bytes.length + 2) / 3 * 4
  | [] => rfl
  | [_] => by simp [encode]
  | [_, _] => by simp [encode]
  | x :: y :: z :: rest => by
    have shorter := length_encode rest
    simp only [encode, List.length_cons, shorter]
    omega

/-! ### The platform's decoder -/

/-- Three bytes of four times six bits. -/
def chunkBytes (a b c d : Nat) : Bytes := [a * 4 + b / 16, b % 16 * 16 + c / 4, c % 4 * 64 + d]

/-- The bytes of the last chunk, where bits are left over that must be zero. -/
def finalBytes : List Nat → Option Bytes
  | [a, b] => if b % 16 = 0 then some [a * 4 + b / 16] else none
  | [a, b, c] => if c % 4 = 0 then some [a * 4 + b / 16, b % 16 * 16 + c / 4] else none
  | _ => none

def skipSpace (text : CodeUnits) : CodeUnits := text.dropWhile isAsciiSpace

/-- What may follow the first `=` after `chunk`: white space, and a second one after two
letters. -/
def closes (chunk : List Nat) (rest : CodeUnits) : Bool :=
  match chunk.length with
  | 2 =>
    match skipSpace rest with
    | [] => false
    | u :: rest => u == pad && (skipSpace rest).isEmpty
  | 3 => (skipSpace rest).isEmpty
  | _ => false

/-- The loop of `Uint8Array.fromBase64(text, { lastChunkHandling: "strict" })`. -/
def decodeFrom : List Nat → CodeUnits → Option Bytes
  | chunk, [] => if chunk.isEmpty then some [] else none
  | chunk, u :: rest =>
    if isAsciiSpace u then decodeFrom chunk rest
    else if u = pad then if closes chunk rest then finalBytes chunk else none
    else
      match value? u with
      | none => none
      | some n =>
        match chunk with
        | [a, b, c] => (decodeFrom [] rest).map (chunkBytes a b c n ++ ·)
        | _ => decodeFrom (chunk ++ [n]) rest

def fromBase64 (text : CodeUnits) : Option Bytes := decodeFrom [] text

/-! ### What is accepted -/

def letters (text : CodeUnits) : CodeUnits := text.filter (!isAsciiSpace ·)

theorem letters_cons_space {u : Nat} (space : isAsciiSpace u = true) (rest : CodeUnits) :
    letters (u :: rest) = letters rest := by simp [letters, space]

theorem letters_cons {u : Nat} (other : isAsciiSpace u = false) (rest : CodeUnits) :
    letters (u :: rest) = u :: letters rest := by simp [letters, other]

theorem skipSpace_cons_space {u : Nat} (space : isAsciiSpace u = true) (rest : CodeUnits) :
    skipSpace (u :: rest) = skipSpace rest := by simp [skipSpace, space]

theorem skipSpace_cons {u : Nat} (other : isAsciiSpace u = false) (rest : CodeUnits) :
    skipSpace (u :: rest) = u :: rest := by simp [skipSpace, other]

theorem letters_skipSpace (text : CodeUnits) : letters (skipSpace text) = letters text := by
  induction text with
  | nil => rfl
  | cons u rest ih =>
    cases space : isAsciiSpace u with
    | true => rw [skipSpace_cons_space space, letters_cons_space space, ih]
    | false => rw [skipSpace_cons space]

theorem skipSpace_eq_nil {text : CodeUnits} : skipSpace text = [] ↔ letters text = [] := by
  induction text with
  | nil => exact Iff.rfl
  | cons u rest ih =>
    cases space : isAsciiSpace u with
    | true => rw [skipSpace_cons_space space, letters_cons_space space, ih]
    | false => simp [skipSpace_cons space, letters_cons space]

theorem skipSpace_cases (text : CodeUnits) : skipSpace text = [] ∨
    ∃ u rest, skipSpace text = u :: rest ∧ isAsciiSpace u = false := by
  induction text with
  | nil => exact .inl rfl
  | cons u rest ih =>
    cases space : isAsciiSpace u with
    | true => rwa [skipSpace_cons_space space]
    | false => exact .inr ⟨u, rest, skipSpace_cons space rest, space⟩

theorem closes_iff {chunk : List Nat} {rest : CodeUnits} :
    closes chunk rest = true ↔ (chunk.length = 2 ∧ letters rest = [pad]) ∨
      (chunk.length = 3 ∧ letters rest = []) := by
  unfold closes
  split
  next two =>
    have whole := letters_skipSpace rest
    rcases skipSpace_cases rest with none | ⟨u, after, begins, other⟩
    · rw [none] at whole ⊢
      rw [← whole, two]
      simp [letters]
    · rw [begins, letters_cons other] at whole
      simp only [begins, Bool.and_eq_true, beq_iff_eq, List.isEmpty_iff, skipSpace_eq_nil]
      rw [← whole, two]
      simp
  next three => simp [skipSpace_eq_nil, three]
  next two three =>
    refine iff_of_false Bool.false_ne_true ?_
    rintro (⟨is, _⟩ | ⟨is, _⟩)
    · exact two is
    · exact three is

/-! ### Encodings, chunk by chunk -/

theorem letter_inj {m n : Nat} (small : m < 64) (small' : n < 64) (same : letter m = letter n) :
    m = n := by
  have first := value?_letter small
  rw [same, value?_letter small'] at first
  exact (Option.some.inj first).symm

theorem mem_encode : ∀ {bytes : Bytes}, IsBytes bytes → ∀ u ∈ encode bytes,
    u = pad ∨ ∃ n < 64, u = letter n
  | [], _, u, member => absurd member List.not_mem_nil
  | [x], known, u, member => by
    have bound := known x (by simp)
    simp only [encode, List.mem_cons, List.not_mem_nil, or_false] at member
    rcases member with rfl | rfl | rfl | rfl
    · exact .inr ⟨_, by omega, rfl⟩
    · exact .inr ⟨_, by omega, rfl⟩
    · exact .inl rfl
    · exact .inl rfl
  | [x, y], known, u, member => by
    have bound := known x (by simp)
    have bound' := known y (by simp)
    simp only [encode, List.mem_cons, List.not_mem_nil, or_false] at member
    rcases member with rfl | rfl | rfl | rfl
    · exact .inr ⟨_, by omega, rfl⟩
    · exact .inr ⟨_, by omega, rfl⟩
    · exact .inr ⟨_, by omega, rfl⟩
    · exact .inl rfl
  | x :: y :: z :: rest, known, u, member => by
    have bound := known x (by simp)
    have bound' := known y (by simp)
    have bound'' := known z (by simp)
    simp only [encode, List.mem_cons] at member
    rcases member with rfl | rfl | rfl | rfl | later
    · exact .inr ⟨_, by omega, rfl⟩
    · exact .inr ⟨_, by omega, rfl⟩
    · exact .inr ⟨_, by omega, rfl⟩
    · exact .inr ⟨_, by omega, rfl⟩
    · exact mem_encode (fun b inRest => known b (by simp [inRest])) u later

theorem encode_full {a b c d : Nat} (ha : a < 64) (hb : b < 64) (hc : c < 64) (hd : d < 64)
    (more : CodeUnits) (bytes : Bytes) :
    (IsBytes bytes ∧ letter a :: letter b :: letter c :: letter d :: more = encode bytes) ↔
      ∃ rest, bytes = chunkBytes a b c d ++ rest ∧ IsBytes rest ∧ more = encode rest := by
  constructor
  · rintro ⟨known, whole⟩
    match bytes, known, whole with
    | [], _, whole => cases whole
    | [x], _, whole =>
      simp only [encode, List.cons.injEq] at whole
      exact absurd whole.2.2.1 (letter_ne_pad c)
    | [x, y], _, whole =>
      simp only [encode, List.cons.injEq] at whole
      exact absurd whole.2.2.2.1 (letter_ne_pad d)
    | x :: y :: z :: rest, known, whole =>
      have bound := known x (by simp)
      have bound' := known y (by simp)
      have bound'' := known z (by simp)
      simp only [encode, List.cons.injEq] at whole
      obtain ⟨one, two, three, four, more_eq⟩ := whole
      have first := letter_inj ha (by omega) one
      have second := letter_inj hb (by omega) two
      have third := letter_inj hc (by omega) three
      have fourth := letter_inj hd (by omega) four
      refine ⟨rest, ?_, fun b inRest => known b (by simp [inRest]), more_eq⟩
      simp only [chunkBytes, List.cons_append, List.nil_append, List.cons.injEq, and_true]
      omega
  · rintro ⟨rest, rfl, known, rfl⟩
    constructor
    · intro b member
      simp only [chunkBytes, List.mem_append, List.mem_cons, List.not_mem_nil, or_false] at member
      rcases member with (rfl | rfl | rfl) | inRest
      · omega
      · omega
      · omega
      · exact known b inRest
    · have one : (a * 4 + b / 16) / 4 = a := by omega
      have two : (a * 4 + b / 16) % 4 * 16 + (b % 16 * 16 + c / 4) / 16 = b := by omega
      have three : (b % 16 * 16 + c / 4) % 16 * 4 + (c % 4 * 64 + d) / 64 = c := by omega
      have four : (c % 4 * 64 + d) % 64 = d := by omega
      simp only [chunkBytes, List.cons_append, List.nil_append, encode, one, two, three, four]

theorem encode_two {a b : Nat} (ha : a < 64) (hb : b < 64) (more : CodeUnits) (bytes : Bytes) :
    (IsBytes bytes ∧ letter a :: letter b :: pad :: more = encode bytes) ↔
      more = [pad] ∧ finalBytes [a, b] = some bytes := by
  constructor
  · rintro ⟨known, whole⟩
    match bytes, known, whole with
    | [], _, whole => cases whole
    | [x], known, whole =>
      have bound := known x (by simp)
      simp only [encode, List.cons.injEq, true_and] at whole
      have first := letter_inj ha (by omega) whole.1
      have second := letter_inj hb (by omega) whole.2.1
      refine ⟨whole.2.2, ?_⟩
      rw [finalBytes, if_pos (by omega)]
      exact congrArg some (List.cons_eq_cons.mpr ⟨by omega, rfl⟩)
    | [x, y], _, whole =>
      simp only [encode, List.cons.injEq] at whole
      exact absurd whole.2.2.1.symm (letter_ne_pad _)
    | x :: y :: z :: rest, _, whole =>
      simp only [encode, List.cons.injEq] at whole
      exact absurd whole.2.2.1.symm (letter_ne_pad _)
  · rintro ⟨rfl, found⟩
    rw [finalBytes] at found
    split at found
    next clean =>
      cases found
      refine ⟨fun x member => ?_, ?_⟩
      · rw [List.mem_singleton.mp member]
        omega
      · have one : (a * 4 + b / 16) / 4 = a := by omega
        have two : (a * 4 + b / 16) % 4 * 16 = b := by omega
        simp only [encode, one, two]
    next => cases found

theorem encode_three {a b c : Nat} (ha : a < 64) (hb : b < 64) (hc : c < 64) (more : CodeUnits)
    (bytes : Bytes) :
    (IsBytes bytes ∧ letter a :: letter b :: letter c :: pad :: more = encode bytes) ↔
      more = [] ∧ finalBytes [a, b, c] = some bytes := by
  constructor
  · rintro ⟨known, whole⟩
    match bytes, known, whole with
    | [], _, whole => cases whole
    | [x], _, whole =>
      simp only [encode, List.cons.injEq] at whole
      exact absurd whole.2.2.1 (letter_ne_pad c)
    | [x, y], known, whole =>
      have bound := known x (by simp)
      have bound' := known y (by simp)
      simp only [encode, List.cons.injEq, true_and] at whole
      have first := letter_inj ha (by omega) whole.1
      have second := letter_inj hb (by omega) whole.2.1
      have third := letter_inj hc (by omega) whole.2.2.1
      refine ⟨whole.2.2.2, ?_⟩
      rw [finalBytes, if_pos (by omega)]
      refine congrArg some (List.cons_eq_cons.mpr ⟨by omega, List.cons_eq_cons.mpr ⟨by omega, rfl⟩⟩)
    | x :: y :: z :: rest, _, whole =>
      simp only [encode, List.cons.injEq] at whole
      exact absurd whole.2.2.2.1.symm (letter_ne_pad _)
  · rintro ⟨rfl, found⟩
    rw [finalBytes] at found
    split at found
    next clean =>
      cases found
      refine ⟨fun x member => ?_, ?_⟩
      · simp only [List.mem_cons, List.not_mem_nil, or_false] at member
        rcases member with rfl | rfl <;> omega
      · have one : (a * 4 + b / 16) / 4 = a := by omega
        have two : (a * 4 + b / 16) % 4 * 16 + (b % 16 * 16 + c / 4) / 16 = b := by omega
        have three : (b % 16 * 16 + c / 4) % 16 * 4 = c := by omega
        simp only [encode, one, two, three]
    next => cases found

/-! ### What the decoder accepts -/

theorem not_encode_pad {chunk : List Nat} (short : chunk.length < 2) (more : CodeUnits)
    (bytes : Bytes) : chunk.map letter ++ pad :: more ≠ encode bytes := by
  intro whole
  match chunk, short with
  | [], _ =>
    match bytes with
    | [] => cases whole
    | [x] | [x, y] | x :: y :: z :: rest =>
      simp only [encode, List.map_nil, List.nil_append, List.cons.injEq] at whole
      exact letter_ne_pad _ whole.1.symm
  | [a], _ =>
    match bytes with
    | [] => cases whole
    | [x] | [x, y] | x :: y :: z :: rest =>
      simp only [encode, List.map_cons, List.map_nil, List.cons_append, List.nil_append,
        List.cons.injEq] at whole
      exact letter_ne_pad _ whole.2.1.symm

theorem decodeFrom_iff (text : CodeUnits) : ∀ chunk : List Nat, (∀ n ∈ chunk, n < 64) →
    chunk.length < 4 → ∀ bytes, decodeFrom chunk text = some bytes ↔
      IsBytes bytes ∧ chunk.map letter ++ letters text = encode bytes := by
  induction text with
  | nil =>
    intro chunk small short bytes
    rw [decodeFrom]
    cases chunk with
    | nil =>
      constructor
      · rintro ⟨⟩
        exact ⟨by simp [IsBytes], rfl⟩
      · rintro ⟨_, whole⟩
        have lengths := congrArg List.length whole
        rw [length_encode] at lengths
        simp only [letters, List.map_nil, List.filter_nil, List.append_nil, List.length_nil] at lengths
        have none : bytes = [] := List.eq_nil_of_length_eq_zero (by omega)
        rw [none]
        rfl
    | cons n rest =>
      refine iff_of_false (by simp) ?_
      rintro ⟨_, whole⟩
      have lengths := congrArg List.length whole
      rw [length_encode] at lengths
      simp [letters] at lengths short
      omega
  | cons u rest ih =>
    intro chunk small short bytes
    rw [decodeFrom]
    by_cases space : isAsciiSpace u = true
    · rw [if_pos space, letters_cons_space space]
      exact ih chunk small short bytes
    · have other : isAsciiSpace u = false := by simpa using space
      rw [if_neg space, letters_cons other]
      by_cases padding : u = pad
      · -- The padding closes the last chunk.
        subst padding
        rw [if_pos rfl]
        have closed : (if closes chunk rest then finalBytes chunk else none) = some bytes ↔
            closes chunk rest = true ∧ finalBytes chunk = some bytes := by
          cases closes chunk rest <;> simp
        rw [closed, closes_iff]
        match chunk, small, short with
        | [], _, _ =>
          exact iff_of_false (by simp) fun holds => not_encode_pad (by simp) _ _ holds.2
        | [a], _, _ =>
          exact iff_of_false (by simp) fun holds => not_encode_pad (by simp) _ _ holds.2
        | [a, b], small, _ =>
          have two := encode_two (small a (by simp)) (small b (by simp)) (letters rest) bytes
          simpa using two.symm
        | [a, b, c], small, _ =>
          have three := encode_three (small a (by simp)) (small b (by simp)) (small c (by simp))
            (letters rest) bytes
          simpa using three.symm
      · rw [if_neg padding]
        cases known : value? u with
        | none =>
          refine iff_of_false (by simp) ?_
          rintro ⟨isBytes, whole⟩
          have member : u ∈ encode bytes := whole ▸ List.mem_append_right _ List.mem_cons_self
          rcases mem_encode isBytes u member with isPad | ⟨n, small, rfl⟩
          · exact padding isPad
          · rw [value?_letter small] at known
            cases known
        | some n =>
          obtain ⟨bound, rfl⟩ := value?_eq_some.mp known
          match chunk, small, short with
          | [], small, _ =>
            simpa using ih [n] (by simpa using bound) (by simp) bytes
          | [a], small, _ =>
            simpa using ih [a, n] (by simpa using ⟨small a (by simp), bound⟩) (by simp) bytes
          | [a, b], small, _ =>
            have ha := small a (by simp)
            have hb := small b (by simp)
            simpa using ih [a, b, n] (by simpa using ⟨ha, hb, bound⟩) (by simp) bytes
          | [a, b, c], small, _ =>
            have full := encode_full (small a (by simp)) (small b (by simp)) (small c (by simp))
              bound (letters rest) bytes
            simp only [List.map_cons, List.map_nil, List.cons_append, List.nil_append]
            rw [full, Option.map_eq_some_iff]
            constructor
            · rintro ⟨tail, decoded, rfl⟩
              obtain ⟨isBytes, encoded⟩ := (ih [] (by simp) (by simp) tail).mp decoded
              exact ⟨tail, rfl, isBytes, encoded⟩
            · rintro ⟨tail, rfl, isBytes, encoded⟩
              exact ⟨tail, (ih [] (by simp) (by simp) tail).mpr ⟨isBytes, encoded⟩, rfl⟩

theorem fromBase64_iff (text : CodeUnits) (bytes : Bytes) :
    fromBase64 text = some bytes ↔ IsBytes bytes ∧ letters text = encode bytes :=
  decodeFrom_iff text [] (by simp) (by simp) bytes

theorem letters_encode {bytes : Bytes} (known : IsBytes bytes) :
    letters (encode bytes) = encode bytes := by
  rw [letters, List.filter_eq_self]
  intro u member
  rcases mem_encode known u member with rfl | ⟨n, _, rfl⟩
  · rfl
  · rw [not_space_letter]
    rfl

end Script.Base64
