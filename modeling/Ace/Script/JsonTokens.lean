import Ace.Script.TextCodec

/-!
# The tokens of JSON texts

JSON as bytes, as far as a machine that looks for strings sees it: a string is a quote, pieces and
a quote, where a piece is a character or an escape, and what is between strings has no quote. Texts
are derived over such tokens.
-/

namespace Script.JsonTokens

/-! ### Strings -/

def isHexByte (byte : Nat) : Bool :=
  (48 ≤ byte && byte ≤ 57) || (65 ≤ byte && byte ≤ 70) || (97 ≤ byte && byte ≤ 102)

/-- What may follow the backslash of a short escape. -/
def escapeLetters : List Nat := units "\"\\/bfnrt"

/-- A character that stands for itself. -/
def Unescaped (c : Char) : Prop := 0x20 ≤ c.toNat ∧ c.toNat ≠ 34 ∧ c.toNat ≠ 92

/-- A piece of a string that is never cut. -/
inductive Piece where
  | char (c : Char) (unescaped : Unescaped c)
  | escape (letter : Nat) (known : letter ∈ escapeLetters)
  | unicode (digits : List Nat) (four : digits.length = 4) (hex : ∀ d ∈ digits, isHexByte d = true)

def Piece.bytes : Piece → List Nat
  | .char c _ => Text.encodeChar c
  | .escape letter _ => [92, letter]
  | .unicode digits _ _ => 92 :: 117 :: digits

/-- The raw bytes between the quotes. -/
def raw (pieces : List Piece) : List Nat := pieces.flatMap Piece.bytes

@[simp] theorem raw_nil : raw [] = [] := rfl

@[simp] theorem raw_append (ps qs : List Piece) : raw (ps ++ qs) = raw ps ++ raw qs :=
  List.flatMap_append

@[simp] theorem raw_singleton (p : Piece) : raw [p] = p.bytes := List.append_nil _

/-- A piece that is an ASCII character. -/
def Piece.IsAscii : Piece → Prop
  | .char c _ => c.toNat < 0x80
  | .escape .. | .unicode .. => False

theorem exists_spelling (text : List Char) (plain : ∀ c ∈ text, Unescaped c ∧ c.toNat < 0x80) :
    ∃ pieces, raw pieces = Text.encode text ∧ ∀ p ∈ pieces, p.IsAscii := by
  induction text with
  | nil => exact ⟨[], rfl, fun p member => absurd member List.not_mem_nil⟩
  | cons c text ih =>
    obtain ⟨pieces, bytes, ascii⟩ := ih fun d member => plain d (List.mem_cons_of_mem c member)
    obtain ⟨unescaped, low⟩ := plain c List.mem_cons_self
    refine ⟨.char c unescaped :: pieces, ?_, List.forall_mem_cons.mpr ⟨low, ascii⟩⟩
    rw [raw, List.flatMap_cons, Text.encode, List.flatMap_cons]
    exact congrArg (Text.encodeChar c ++ ·) bytes

/-! ### Tokens -/

/-- Bytes between strings. -/
structure Gap where
  bytes : List Nat
  noQuote : 34 ∉ bytes

inductive Token where
  | gap (g : Gap)
  | string (pieces : List Piece)

def Token.bytes : Token → List Nat
  | .gap g => g.bytes
  | .string pieces => 34 :: (raw pieces ++ [34])

def render (tokens : List Token) : List Nat := tokens.flatMap Token.bytes

theorem render_cons (t : Token) (ts : List Token) : render (t :: ts) = t.bytes ++ render ts := rfl

/-! ### Texts -/

def IsSpace (bytes : List Nat) : Prop := ∀ b ∈ bytes, b ∈ [0x20, 0x09, 0x0A, 0x0D]

def IsDigits (bytes : List Nat) : Prop := bytes ≠ [] ∧ ∀ b ∈ bytes, 48 ≤ b ∧ b ≤ 57

/-- `-?(0|[1-9][0-9]*)(\.[0-9]+)?([eE][+-]?[0-9]+)?` -/
def IsNumber (bytes : List Nat) : Prop :=
  ∃ sign whole fraction exponent, bytes = sign ++ whole ++ fraction ++ exponent ∧
    (sign = [] ∨ sign = units "-") ∧
    (IsDigits whole ∧ (whole.head? = some 48 → whole.length = 1)) ∧
    (fraction = [] ∨ ∃ digits, fraction = 46 :: digits ∧ IsDigits digits) ∧
    (exponent = [] ∨ ∃ e plus digits, exponent = e :: (plus ++ digits) ∧ (e = 69 ∨ e = 101) ∧
      (plus = [] ∨ plus = units "+" ∨ plus = units "-") ∧ IsDigits digits)

def IsLiteral (bytes : List Nat) : Prop :=
  bytes = units "true" ∨ bytes = units "false" ∨ bytes = units "null" ∨ IsNumber bytes

/-- What a run of tokens is derived as. -/
inductive Form where
  | value
  | elements
  | members
  | texts

inductive Derives : Form → List Token → Prop where
  | literal {g : Gap} : IsLiteral g.bytes → Derives .value [.gap g]
  | string (pieces : List Piece) : Derives .value [.string pieces]
  | padded {before after : Gap} {ts : List Token} : IsSpace before.bytes → IsSpace after.bytes →
      Derives .value ts → Derives .value (.gap before :: (ts ++ [.gap after]))
  | emptyArray {g : Gap} {space : List Nat} : IsSpace space →
      g.bytes = units "[" ++ space ++ units "]" → Derives .value [.gap g]
  | array {opening closing : Gap} {ts : List Token} : opening.bytes = units "[" →
      closing.bytes = units "]" → Derives .elements ts →
      Derives .value (.gap opening :: (ts ++ [.gap closing]))
  | element {ts : List Token} : Derives .value ts → Derives .elements ts
  | moreElements {comma : Gap} {ts us : List Token} : comma.bytes = units "," →
      Derives .elements ts → Derives .elements us → Derives .elements (ts ++ .gap comma :: us)
  | emptyObject {g : Gap} {space : List Nat} : IsSpace space →
      g.bytes = units "\x7b" ++ space ++ units "\x7d" → Derives .value [.gap g]
  | object {opening closing : Gap} {ts : List Token} : opening.bytes = units "\x7b" →
      closing.bytes = units "\x7d" → Derives .members ts →
      Derives .value (.gap opening :: (ts ++ [.gap closing]))
  | member {before colon : Gap} {space : List Nat} {ts : List Token} (name : List Piece) :
      IsSpace before.bytes → IsSpace space → colon.bytes = space ++ units ":" →
      Derives .value ts → Derives .members (.gap before :: .string name :: .gap colon :: ts)
  | moreMembers {comma : Gap} {ts us : List Token} : comma.bytes = units "," →
      Derives .members ts → Derives .members us → Derives .members (ts ++ .gap comma :: us)
  /-- Texts with white space around and between them. -/
  | noText {space : Gap} : IsSpace space.bytes → Derives .texts [.gap space]
  | text {space : Gap} {ts us : List Token} : IsSpace space.bytes → space.bytes ≠ [] →
      Derives .value ts → Derives .texts us → Derives .texts (ts ++ .gap space :: us)
  | lastText {ts : List Token} : Derives .value ts → Derives .texts ts

/-- The same tokens but for the contents of strings. -/
def Alike : Token → Token → Prop
  | .gap g, .gap h => g = h
  | .string _, .string _ => True
  | .gap _, .string _ | .string _, .gap _ => False

theorem alike_gap {g : Gap} {t : Token} (alike : Alike (.gap g) t) : t = .gap g := by
  cases t with
  | gap h => exact congrArg Token.gap (Eq.symm alike)
  | string pieces => exact alike.elim

theorem alike_string {pieces : List Piece} {t : Token} (alike : Alike (.string pieces) t) :
    ∃ others, t = .string others := by
  cases t with
  | gap h => exact alike.elim
  | string others => exact ⟨others, rfl⟩

theorem forall₂_append_left {ts us vs : List Token} (alike : List.Forall₂ Alike (ts ++ us) vs) :
    ∃ ts' us', vs = ts' ++ us' ∧ List.Forall₂ Alike ts ts' ∧ List.Forall₂ Alike us us' := by
  induction ts generalizing vs with
  | nil => exact ⟨[], vs, rfl, .nil, alike⟩
  | cons t ts ih =>
    cases alike with
    | cons head tail =>
      obtain ⟨ts', us', rfl, front, back⟩ := ih tail
      exact ⟨_ :: ts', us', rfl, .cons head front, back⟩

theorem forall₂_gap {g : Gap} {us vs : List Token} (alike : List.Forall₂ Alike (.gap g :: us) vs) :
    ∃ us', vs = .gap g :: us' ∧ List.Forall₂ Alike us us' := by
  cases alike with
  | cons head tail =>
    cases alike_gap head
    exact ⟨_, rfl, tail⟩

theorem forall₂_gap_last {g : Gap} {vs : List Token} (alike : List.Forall₂ Alike [.gap g] vs) :
    vs = [.gap g] := by
  obtain ⟨us, rfl, nothing⟩ := forall₂_gap alike
  cases nothing
  rfl

theorem Derives.alike {form : Form} {ts us : List Token} (derived : Derives form ts)
    (alike : List.Forall₂ Alike ts us) : Derives form us := by
  induction derived generalizing us with
  | literal isLiteral =>
    rw [forall₂_gap_last alike]
    exact .literal isLiteral
  | string pieces =>
    cases alike with
    | cons head tail =>
      obtain ⟨others, rfl⟩ := alike_string head
      cases tail
      exact .string others
  | padded before after inner ih =>
    obtain ⟨vs, rfl, rest⟩ := forall₂_gap alike
    obtain ⟨ts', last, rfl, middle, end_⟩ := forall₂_append_left rest
    rw [forall₂_gap_last end_]
    exact .padded before after (ih middle)
  | emptyArray space bytes =>
    rw [forall₂_gap_last alike]
    exact .emptyArray space bytes
  | array opening closing inner ih =>
    obtain ⟨vs, rfl, rest⟩ := forall₂_gap alike
    obtain ⟨ts', last, rfl, middle, end_⟩ := forall₂_append_left rest
    rw [forall₂_gap_last end_]
    exact .array opening closing (ih middle)
  | element inner ih => exact .element (ih alike)
  | moreElements comma front back ihFront ihBack =>
    obtain ⟨ts', rest, rfl, first, second⟩ := forall₂_append_left alike
    obtain ⟨us', rfl, others⟩ := forall₂_gap second
    exact .moreElements comma (ihFront first) (ihBack others)
  | emptyObject space bytes =>
    rw [forall₂_gap_last alike]
    exact .emptyObject space bytes
  | object opening closing inner ih =>
    obtain ⟨vs, rfl, rest⟩ := forall₂_gap alike
    obtain ⟨ts', last, rfl, middle, end_⟩ := forall₂_append_left rest
    rw [forall₂_gap_last end_]
    exact .object opening closing (ih middle)
  | member name before space colon inner ih =>
    obtain ⟨vs, rfl, rest⟩ := forall₂_gap alike
    cases rest with
    | cons head tail =>
      obtain ⟨others, rfl⟩ := alike_string head
      obtain ⟨us', rfl, value⟩ := forall₂_gap tail
      exact .member others before space colon (ih value)
  | moreMembers comma front back ihFront ihBack =>
    obtain ⟨ts', rest, rfl, first, second⟩ := forall₂_append_left alike
    obtain ⟨us', rfl, others⟩ := forall₂_gap second
    exact .moreMembers comma (ihFront first) (ihBack others)
  | noText space =>
    rw [forall₂_gap_last alike]
    exact .noText space
  | text space some_ first others ihFirst ihOthers =>
    obtain ⟨ts', rest, rfl, head, second⟩ := forall₂_append_left alike
    obtain ⟨us', rfl, more⟩ := forall₂_gap second
    exact .text space some_ (ihFirst head) (ihOthers more)
  | lastText inner ih => exact .lastText (ih alike)

end Script.JsonTokens
