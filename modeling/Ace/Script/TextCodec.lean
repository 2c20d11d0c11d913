import Ace.Script.Text
import Ace.Script.Utf16

/-!
# The two text encodings

What a reader of encoded text relies on. In UTF-8 only the first byte of a character is no
continuation byte, and it tells how long the character is. In UTF-16 a character is one unit that
is no surrogate or a high and a low surrogate. Either decoder gives back what was encoded.
-/

namespace Script.Text

/-! ### UTF-8 -/

/-- `(byte & 0xc0) === 0x80` -/
def isContinuation (b : Nat) : Bool := b / 64 == 2

/-- The length of the character that a byte starts. -/
def characterBytes (first : Nat) : Nat :=
  if first < 0x80 then 1 else if first < 0xe0 then 2 else if first < 0xf0 then 3 else 4

theorem toNat_lt (c : Char) : c.toNat < 0x110000 := by
  rcases c.valid with low | high
  · have : c.toNat < 0xD800 := low
    omega
  · exact high.2

theorem not_surrogate (c : Char) : c.toNat < 0xD800 ∨ 0xDFFF < c.toNat := by
  rcases c.valid with low | high
  · exact .inl low
  · exact .inr high.1

theorem isContinuation_add (n : Nat) : isContinuation (0x80 + n % 64) = true := by
  simp only [isContinuation, beq_iff_eq]
  omega

theorem not_isContinuation {b : Nat} (outside : b < 0x80 ∨ 0xC0 ≤ b) :
    isContinuation b = false := by
  simp only [isContinuation, beq_eq_false_iff_ne, ne_eq]
  omega

theorem encodeChar_eq_cons (c : Char) : ∃ first others, encodeChar c = first :: others ∧
    isContinuation first = false ∧ (∀ b ∈ others, isContinuation b = true) ∧
    others.length + 1 = characterBytes first := by
  have bound := toNat_lt c
  simp only [encodeChar]
  split
  next one =>
    refine ⟨_, _, rfl, not_isContinuation (.inl one), by simp, ?_⟩
    rw [characterBytes, if_pos one]
    rfl
  next two_up =>
    split
    next two =>
      refine ⟨_, _, rfl, not_isContinuation (by omega), by simp [isContinuation_add], ?_⟩
      rw [characterBytes, if_neg (by omega), if_pos (by omega)]
      rfl
    next three_up =>
      split
      next three =>
        refine ⟨_, _, rfl, not_isContinuation (by omega), by simp [isContinuation_add], ?_⟩
        rw [characterBytes, if_neg (by omega), if_neg (by omega), if_pos (by omega)]
        rfl
      next =>
        refine ⟨_, _, rfl, not_isContinuation (by omega), by simp [isContinuation_add], ?_⟩
        rw [characterBytes, if_neg (by omega), if_neg (by omega), if_neg (by omega)]
        rfl

theorem length_encodeChar (c : Char) :
    0 < (encodeChar c).length ∧ (encodeChar c).length ≤ 4 := by
  simp only [encodeChar]
  split
  · simp
  · split
    · simp
    · split <;> simp

theorem decodeBytes_continue {needed lower upper bits b : Nat} (more : 1 < needed)
    (within : lower ≤ b ∧ b ≤ upper) (rest : List Nat) :
    decodeBytes (b :: rest) { needed, lower, upper, bits } =
      decodeBytes rest { needed := needed - 1, bits := bits * 64 + b % 64 } := by
  have some_needed : needed ≠ 0 := by omega
  have not_last : needed ≠ 1 := by omega
  simp only [decodeBytes, some_needed, not_last, if_false, if_pos within]

theorem decodeBytes_last {lower upper bits b : Nat} (within : lower ≤ b ∧ b ≤ upper)
    (rest : List Nat) :
    decodeBytes (b :: rest) { needed := 1, lower, upper, bits } =
      Char.ofNat (bits * 64 + b % 64) :: decodeBytes rest {} := by
  simp only [decodeBytes, Nat.one_ne_zero, if_false, if_pos within, if_true]

theorem decodeBytes_encodeChar (c : Char) (rest : List Nat) :
    decodeBytes (encodeChar c ++ rest) {} = c :: decodeBytes rest {} := by
  have bound := toNat_lt c
  have scalar := not_surrogate c
  have char : ∀ n, n = c.toNat → Char.ofNat n = c := fun n same => by
    rw [same, Char.ofNat_toNat]
  simp only [encodeChar]
  split
  next one => simp [decodeBytes, startByte, one]
  next two_up =>
    split
    next two =>
      have first : startByte (0xC0 + c.toNat / 64) =
          ([], { needed := 1, bits := (0xC0 + c.toNat / 64) % 32 }) := by
        rw [startByte, if_neg (by omega), if_pos (by omega)]
      simp only [List.cons_append, List.nil_append, decodeBytes, if_true, first]
      rw [if_neg (by decide), if_pos (by omega), char _ (by omega)]
    next three_up =>
      split
      next three =>
        have first : startByte (0xE0 + c.toNat / 4096) =
            ([], { needed := 2, bits := (0xE0 + c.toNat / 4096) % 16,
                   lower := if 0xE0 + c.toNat / 4096 = 0xE0 then 0xA0 else 0x80,
                   upper := if 0xE0 + c.toNat / 4096 = 0xED then 0x9F else 0xBF }) := by
          rw [startByte, if_neg (by omega), if_neg (by omega), if_pos (by omega)]
        rw [List.cons_append, decodeBytes, if_pos rfl, first]
        simp only [List.cons_append, List.nil_append]
        rw [decodeBytes_continue (by omega) (by constructor <;> split <;> omega),
          decodeBytes_last (by omega), char _ (by omega)]
      next four =>
        have first : startByte (0xF0 + c.toNat / 262144) =
            ([], { needed := 3, bits := (0xF0 + c.toNat / 262144) % 8,
                   lower := if 0xF0 + c.toNat / 262144 = 0xF0 then 0x90 else 0x80,
                   upper := if 0xF0 + c.toNat / 262144 = 0xF4 then 0x8F else 0xBF }) := by
          rw [startByte, if_neg (by omega), if_neg (by omega), if_neg (by omega),
            if_pos (by omega)]
        rw [List.cons_append, decodeBytes, if_pos rfl, first]
        simp only [List.cons_append, List.nil_append]
        rw [decodeBytes_continue (by omega) (by constructor <;> split <;> omega),
          decodeBytes_continue (by omega) (by omega), decodeBytes_last (by omega),
          char _ (by omega)]

theorem decodeBytes_encode (cs : List Char) : decodeBytes (encode cs) {} = cs := by
  induction cs with
  | nil => rfl
  | cons c cs ih =>
    rw [encode, List.flatMap_cons, decodeBytes_encodeChar]
    exact congrArg (c :: ·) ih

end Script.Text

namespace Script.Utf16

/-! ### UTF-16 -/

/-- A code unit, its low byte first. -/
def unitBytes (u : Nat) : List Nat := [u % 256, u / 256]

/-- A character in UTF-16LE. -/
def charBytes (c : Char) : List Nat := (encodeChar c).flatMap unitBytes

def encode (cs : List Char) : List Nat := cs.flatMap charBytes

def surrogatePair (high low : Nat) : Char :=
  Char.ofNat (0x10000 + (high - 0xD800) * 0x400 + (low - 0xDC00))

/-- A unit where a character may start: what it decodes to, and whether it waits for another. -/
def startUnit (u : Nat) : List Char × Option Nat :=
  if isHighSurrogate u then ([], some u)
  else if isLowSurrogate u then ([Text.replacement], none)
  else ([Char.ofNat u], none)

/-- The replacing UTF-16LE decoder, after a high surrogate or between characters. -/
def decodeBytes : List Nat → Option Nat → List Char
  | low :: high :: rest, pending =>
    let u := low + high * 256
    match pending with
    | some lead =>
      if isLowSurrogate u then surrogatePair lead u :: decodeBytes rest none
      else
        -- The unit that breaks a pair is read again as a start.
        let (out, pending) := startUnit u
        Text.replacement :: out ++ decodeBytes rest pending
    | none =>
      let (out, pending) := startUnit u
      out ++ decodeBytes rest pending
  | [_], _ => [Text.replacement]
  | [], pending => if pending.isSome then [Text.replacement] else []

theorem charBytes_cases (c : Char) :
    (∃ low high, charBytes c = [low, high] ∧ low + high * 256 = c.toNat ∧
      isHighSurrogate (low + high * 256) = false ∧ isLowSurrogate (low + high * 256) = false) ∨
    ∃ a b low high, charBytes c = [a, b, low, high] ∧ isHighSurrogate (a + b * 256) = true ∧
      isLowSurrogate (a + b * 256) = false ∧ isHighSurrogate (low + high * 256) = false ∧
      isLowSurrogate (low + high * 256) = true ∧
      surrogatePair (a + b * 256) (low + high * 256) = c := by
  have bound := Text.toNat_lt c
  have scalar := Text.not_surrogate c
  have whole : ∀ u, u % 256 + u / 256 * 256 = u := fun u => by omega
  simp only [charBytes, encodeChar]
  split
  next small =>
    refine .inl ⟨_, _, rfl, ?_, ?_, ?_⟩ <;> rw [whole]
    · simp only [isHighSurrogate, Bool.and_eq_false_iff, decide_eq_false_iff_not]
      omega
    · simp only [isLowSurrogate, Bool.and_eq_false_iff, decide_eq_false_iff_not]
      omega
  next large =>
    have high : 0xD800 ≤ 0xD800 + (c.toNat - 0x10000) / 0x400 ∧
        0xD800 + (c.toNat - 0x10000) / 0x400 ≤ 0xDBFF := by omega
    have low : 0xDC00 ≤ 0xDC00 + (c.toNat - 0x10000) % 0x400 ∧
        0xDC00 + (c.toNat - 0x10000) % 0x400 ≤ 0xDFFF := by omega
    refine .inr ⟨_, _, _, _, rfl, ?_, ?_, ?_, ?_, ?_⟩
    · rw [whole, isHighSurrogate, decide_eq_true high.1, decide_eq_true high.2]
      rfl
    · rw [whole, isLowSurrogate, decide_eq_false (by omega)]
      rfl
    · rw [whole, isHighSurrogate, Bool.and_eq_false_iff, decide_eq_false_iff_not,
        decide_eq_false_iff_not]
      omega
    · rw [whole, isLowSurrogate, decide_eq_true low.1, decide_eq_true low.2]
      rfl
    · rw [whole, whole, surrogatePair]
      have same : 0x10000 + (0xD800 + (c.toNat - 0x10000) / 0x400 - 0xD800) * 0x400 +
          (0xDC00 + (c.toNat - 0x10000) % 0x400 - 0xDC00) = c.toNat := by omega
      rw [same, Char.ofNat_toNat]

theorem decodeBytes_charBytes (c : Char) (rest : List Nat) :
    decodeBytes (charBytes c ++ rest) none = c :: decodeBytes rest none := by
  rcases charBytes_cases c with ⟨low, high, bytes, unit, not_high, not_low⟩ |
    ⟨a, b, low, high, bytes, is_high, -, -, is_low, pair⟩
  · rw [bytes]
    simp only [List.cons_append, List.nil_append, decodeBytes, startUnit, not_high, not_low,
      Bool.false_eq_true, if_false]
    rw [unit, Char.ofNat_toNat]
  · rw [bytes]
    simp only [List.cons_append, List.nil_append, decodeBytes, startUnit, is_high, is_low, if_true,
      pair]

theorem decodeBytes_encode (cs : List Char) : decodeBytes (encode cs) none = cs := by
  induction cs with
  | nil => rfl
  | cons c cs ih =>
    rw [encode, List.flatMap_cons, decodeBytes_charBytes]
    exact congrArg (c :: ·) ih

theorem length_charBytes (c : Char) :
    0 < (charBytes c).length ∧ (charBytes c).length ≤ 4 ∧ (charBytes c).length % 2 = 0 := by
  rcases charBytes_cases c with ⟨low, high, bytes, -⟩ | ⟨a, b, low, high, bytes, -⟩ <;>
    simp [bytes]

theorem even_encode (cs : List Char) : (encode cs).length % 2 = 0 := by
  induction cs with
  | nil => rfl
  | cons c cs ih =>
    have even := (length_charBytes c).2.2
    have shape : encode (c :: cs) = charBytes c ++ encode cs := rfl
    rw [shape, List.length_append]
    omega

end Script.Utf16
