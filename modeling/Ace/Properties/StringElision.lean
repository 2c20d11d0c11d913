import Ace.Properties.ElidedChunks
import Ace.Script.JsonTokens
import Ace.Script.Matching
import Mathlib.Data.List.Forall2

/-!
# Elision of the strings of JSON texts

A string that is being read is described by the bytes read so far and the pieces that were begun.
Only the first byte of a piece can cut it off, so what is kept of it is whole pieces.

## Main result

`elide_exact`
-/

namespace Ace.Provider.JsonElision

open Script Script.JsonTokens

variable {limits : ElisionLimits}

/-! ### What is being tracked -/

abbrev Track := Bool × Nat

def JsonElider.tracked (e : JsonElider) : Track := (e.escape, e.unicode)

def Track.next (t : Track) (byte : Nat) : Track :=
  if t.2 ≠ 0 then (t.1, t.2 - 1)
  else if t.1 then (false, if byte = letterU then 4 else t.2)
  else if byte = backslash then (true, t.2)
  else t

def boundary : Track := (false, 0)

def Track.closes (t : Track) (byte : Nat) : Bool :=
  byte = lineFeed || (byte = quote && !t.1 && t.2 = 0)

def Track.starts (t : Track) (byte : Nat) : Bool :=
  !t.1 && t.2 = 0 && (byte < 0x80 || 0xC0 ≤ byte)

theorem track_eq (e : JsonElider) (byte : Nat) : e.track byte =
    { e with
      bytes := e.bytes + 1
      escape := (e.tracked.next byte).1
      unicode := (e.tracked.next byte).2 } := by
  by_cases digits : e.unicode = 0
  · by_cases escaped : e.escape = true
    · simp [JsonElider.track, JsonElider.tracked, Track.next, digits, escaped]
    · by_cases slash : byte = backslash
      · simp [JsonElider.track, JsonElider.tracked, Track.next, digits, escaped, slash]
      · simp [JsonElider.track, JsonElider.tracked, Track.next, digits, escaped, slash]
  · simp [JsonElider.track, JsonElider.tracked, Track.next, digits]

theorem closes_eq (e : JsonElider) (byte : Nat) : closes e byte = e.tracked.closes byte := rfl

theorem cuts_iff (e : JsonElider) (byte : Nat) : cuts limits e byte = true ↔
    e.mode = .passing ∧ limits.textBytes ≤ e.bytes ∧ e.tracked.starts byte = true := by
  have digits : (decide (e.tracked.2 = 0) = true) = (e.unicode = 0) := decide_eq_true_eq
  simp only [cuts, Track.starts, Bool.and_eq_true, Bool.or_eq_true, Bool.not_eq_true',
    decide_eq_true_eq, digits, and_assoc]
  rfl

/-- Bytes inside of a piece: none ends the string, none starts a piece. -/
def Steady : Track → List Nat → Track → Prop
  | t, [], t' => t = t'
  | t, byte :: bytes, t' =>
    t.closes byte = false ∧ t.starts byte = false ∧ Steady (t.next byte) bytes t'

theorem steady_continuation {bytes : List Nat}
    (continues : ∀ b ∈ bytes, Text.isContinuation b = true) : Steady boundary bytes boundary := by
  induction bytes with
  | nil => rfl
  | cons b bytes ih =>
    have range : 128 ≤ b ∧ b < 192 := by
      have := continues b List.mem_cons_self
      simp only [Text.isContinuation, beq_iff_eq] at this
      omega
    have stays : Track.next boundary b = boundary := by
      simp only [Track.next, boundary, ne_eq, not_true_eq_false, if_false, Bool.false_eq_true]
      rw [if_neg (by simp only [backslash]; omega)]
    refine ⟨?_, ?_, ?_⟩
    · have : b ≠ 10 ∧ b ≠ 34 := by omega
      simp [Track.closes, lineFeed, quote, this]
    · have : ¬b < 128 ∧ ¬192 ≤ b := by omega
      simp [Track.starts, this]
    · rw [stays]
      exact ih fun c member => continues c (List.mem_cons_of_mem b member)

theorem steady_digits {digits : List Nat} (hex : ∀ d ∈ digits, isHexByte d = true) :
    Steady (false, digits.length) digits boundary := by
  induction digits with
  | nil => rfl
  | cons d digits ih =>
    have notLine : d ≠ 10 := by
      have := hex d List.mem_cons_self
      simp only [isHexByte, Bool.or_eq_true, Bool.and_eq_true, decide_eq_true_eq] at this
      omega
    refine ⟨?_, ?_, ?_⟩
    · simp [Track.closes, lineFeed, notLine]
    · simp [Track.starts]
    · have one : Track.next (false, (d :: digits).length) d = (false, digits.length) := by
        simp [Track.next]
      rw [one]
      exact ih fun e member => hex e (List.mem_cons_of_mem d member)

theorem first_of_encodeChar {c : Char} {first : Nat} {others : List Nat}
    (bytes : Text.encodeChar c = first :: others) :
    first = c.toNat ∧ first < 0x80 ∨ 0xC0 ≤ first := by
  simp only [Text.encodeChar] at bytes
  split at bytes
  next small => exact .inl ⟨(List.cons.inj bytes).1.symm, (List.cons.inj bytes).1 ▸ small⟩
  next =>
    split at bytes
    · have := (List.cons.inj bytes).1
      omega
    · split at bytes
      · have := (List.cons.inj bytes).1
        omega
      · have := (List.cons.inj bytes).1
        omega

theorem piece_bytes (p : Piece) : ∃ first others, p.bytes = first :: others ∧
    boundary.closes first = false ∧ boundary.starts first = true ∧
    Steady (boundary.next first) others boundary := by
  cases p with
  | char c unescaped =>
    obtain ⟨first, others, bytes, -, continuation, -⟩ := Text.encodeChar_eq_cons c
    have range := first_of_encodeChar bytes
    obtain ⟨low, notQuote, notBackslash⟩ := unescaped
    have plain : first ≠ 10 ∧ first ≠ 34 ∧ first ≠ 92 := by omega
    refine ⟨first, others, bytes, ?_, ?_, ?_⟩
    · simp [Track.closes, boundary, lineFeed, quote, plain]
    · have : first < 128 ∨ 192 ≤ first := by omega
      simpa [Track.starts, boundary] using this
    · have stays : Track.next boundary first = boundary := by
        simp [Track.next, boundary, backslash, plain]
      rw [stays]
      exact steady_continuation continuation
  | escape letter known =>
    refine ⟨92, [letter], rfl, rfl, rfl, ?_⟩
    have cases_ : ∀ l ∈ escapeLetters, Track.closes (true, 0) l = false ∧
        Track.next (true, 0) l = boundary := by decide
    obtain ⟨notClosing, back⟩ := cases_ letter known
    exact ⟨notClosing, rfl, back⟩
  | unicode digits four hex =>
    refine ⟨92, 117 :: digits, rfl, rfl, rfl, rfl, rfl, ?_⟩
    have more : Track.next (boundary.next 92) 117 = (false, digits.length) := by
      rw [four]
      rfl
    rw [more]
    exact steady_digits hex

/-! ### Labels -/

def LabelUnit (u : Nat) : Bool := nameUnit u || oneOf ":/;=" u

def IsLabel (label : List Char) : Prop := ∀ c ∈ label, Unescaped c ∧ c.toNat < 0x80

theorem labelUnit_plain {u : Nat} (isUnit : LabelUnit u = true) :
    0x20 ≤ u ∧ u ≠ 34 ∧ u ≠ 92 ∧ u < 0x80 := by
  have dots : units ".+-" = [46, 43, 45] := rfl
  have marks : units ":/;=" = [58, 47, 59, 61] := rfl
  simp [LabelUnit, nameUnit, isWordUnit, between, oneOf, dots, marks] at isUnit
  omega

theorem dataHeader_within : dataHeader.within LabelUnit := by
  have name : ∀ u, nameUnit u = true → LabelUnit u = true := fun u isName => by
    rw [LabelUnit, isName, Bool.true_or]
  have text : ∀ us : CodeUnits, (∀ u ∈ us, LabelUnit u = true) →
      (Pattern.text us).within LabelUnit := by
    intro us
    induction us with
    | nil => exact fun _ => trivial
    | cons u us ih =>
      intro inside
      refine ⟨fun v same => ?_, ih fun v member => inside v (List.mem_cons_of_mem u member)⟩
      rw [eq_of_beq same]
      exact inside u List.mem_cons_self
  refine ⟨text _ (by decide), ⟨name, name⟩, text _ (by decide), ⟨name, name⟩, ?_, ?_⟩
  · exact ⟨text _ (by decide), ⟨name, name⟩, text _ (by decide), ⟨name, name⟩⟩
  · exact ⟨text _ (by decide), trivial⟩

theorem run_sequence_ending (ps : List Pattern) : ∀ c,
    ∀ d ∈ (Pattern.sequence (ps ++ [.ending])).run c, d.rest = [] := by
  induction ps with
  | nil =>
    intro c d member
    rw [List.nil_append, Pattern.sequence, Pattern.run] at member
    split at member
    next isEnd =>
      rw [List.mem_singleton.mp member]
      exact List.isEmpty_iff.mp isEnd
    · exact absurd member List.not_mem_nil
  | cons p ps ih =>
    intro c d member
    have unfolded : Pattern.sequence (p :: (ps ++ [.ending])) =
        .seq p (Pattern.sequence (ps ++ [.ending])) := by
      cases ps <;> rfl
    rw [List.cons_append, unfolded, Pattern.run, List.mem_flatMap] at member
    obtain ⟨e, -, rest⟩ := member
    exact ih e d rest

theorem isLabel_of_header {header : List Char} (isHeader : isDataHeader header = true) :
    IsLabel header := by
  rw [isDataHeader, Bool.not_eq_true', List.isEmpty_eq_false_iff_exists_mem] at isHeader
  obtain ⟨d, member⟩ := isHeader
  have whole : d.rest = [] := run_sequence_ending [.text (units "data:"), .plus (.unit nameUnit),
    .text (units "/"), .plus (.unit nameUnit),
    .star (.sequence [.text (units ";"), .plus (.unit nameUnit), .text (units "="),
      .plus (.unit nameUnit)]), .text (units ";base64")] _ d member
  obtain ⟨us, units_, inside⟩ := Pattern.run_consumes dataHeader dataHeader_within _ d member
  rw [whole, List.append_nil] at units_
  intro c isChar
  have ofChar : ∀ u ∈ Utf16.encodeChar c, LabelUnit u = true := fun u isUnit =>
    inside u (units_ ▸ List.mem_flatMap.mpr ⟨c, isChar, isUnit⟩)
  rw [Utf16.encodeChar] at ofChar
  split at ofChar
  · obtain ⟨low, notQuote, notBackslash, ascii⟩ :=
      labelUnit_plain (ofChar c.toNat List.mem_cons_self)
    exact ⟨⟨low, notQuote, notBackslash⟩, ascii⟩
  · -- a surrogate is not in a header
    obtain ⟨-, -, -, ascii⟩ := labelUnit_plain (ofChar _ List.mem_cons_self)
    omega

theorem plain_of_text (text : List Char)
    (plain : text.all (fun c => 0x20 ≤ c.toNat && c.toNat ≠ 34 && c.toNat ≠ 92 && c.toNat < 0x80) =
      true) : IsLabel text := by
  intro c member
  have := List.all_eq_true.mp plain c member
  simp only [Bool.and_eq_true, decide_eq_true_eq] at this
  exact ⟨⟨this.1.1.1, this.1.1.2, this.1.2⟩, this.2⟩

theorem isLabel_of_binaryLabel {hold : List Nat} {label : List Char}
    (binary : binaryLabel hold = some label) : IsLabel label := by
  simp only [binaryLabel] at binary
  split at binary
  next isData =>
    cases binary
    exact isLabel_of_header isData.2.2.2.2
  next =>
    split at binary
    · cases binary
      exact plain_of_text _ rfl
    · cases binary

/-! ### What has been output of a string -/

/-- Every piece starts before the limit. -/
def Early (limits : ElisionLimits) (pieces : List Piece) : Prop :=
  ∀ before p after, pieces = before ++ p :: after → (raw before).length < limits.textBytes

theorem early_nil : Early limits [] := fun before p after same => by
  have := congrArg List.length same
  simp at this

theorem Early.snoc {pieces : List Piece} (early : Early limits pieces) {p : Piece}
    (next : (raw pieces).length < limits.textBytes) : Early limits (pieces ++ [p]) := by
  intro before q after same
  rcases List.eq_nil_or_concat after with rfl | ⟨front, last, rfl⟩
  · rw [(List.append_inj' same rfl).1] at next
    exact next
  · rw [List.concat_eq_append, ← List.cons_append, ← List.append_assoc] at same
    exact early before q front (List.append_inj' same rfl).1

/-- The bytes read, the pieces begun, and the output since the quote. -/
def Shown (limits : ElisionLimits) (read : List Nat) (begun : List Piece) (e : JsonElider)
    (out : List Nat) : Prop :=
  match e.mode with
  | .outside => False
  | .holding => read.length < limits.holdBytes ∧ e.hold = read ∧ out = [] ∧ Early limits begun
  | .passing => limits.holdBytes ≤ read.length ∧ out = read ∧ Early limits begun
  | .eliding => limits.holdBytes ≤ read.length ∧ out = [] ∧ IsLabel e.label
  | .truncating => ∃ before after, begun = before ++ after ∧ after ≠ [] ∧ out = raw before ∧
      limits.textBytes ≤ out.length

structure Within (limits : ElisionLimits) (read : List Nat) (begun : List Piece) (t : Track)
    (e : JsonElider) (out : List Nat) : Prop where
  bytes : e.bytes = read.length
  tracked : e.tracked = t
  shown : Shown limits read begun e out

theorem inside_within {read : List Nat} {begun : List Piece} {t : Track} {e : JsonElider}
    {out : List Nat} (within : Within limits read begun t e out) {byte : Nat}
    (notCut : cuts limits e byte = false) :
    Within limits (read ++ [byte]) begun (t.next byte) (inside limits e byte).1
      (out ++ (inside limits e byte).2) := by
  obtain ⟨bytes, tracked, shown⟩ := within
  have length : e.bytes + 1 = (read ++ [byte]).length := by
    rw [bytes, List.length_append, List.length_singleton]
  rw [inside, if_neg (by simp [notCut]), track_eq, tracked]
  unfold Shown at shown
  cases mode : e.mode with
  | outside =>
    rw [mode] at shown
    exact shown.elim
  | passing =>
    simp only [mode] at shown
    obtain ⟨long, rfl, early⟩ := shown
    refine ⟨length, rfl, ?_⟩
    simp only [Shown, true_and]
    refine ⟨?_, early⟩
    rw [List.length_append]
    omega
  | eliding =>
    simp only [mode] at shown
    obtain ⟨long, rfl, label⟩ := shown
    refine ⟨length, rfl, ?_⟩
    simp only [Shown, List.append_nil, true_and]
    refine ⟨?_, label⟩
    rw [List.length_append]
    omega
  | truncating =>
    simp only [mode] at shown
    obtain ⟨before, after, same, some_, rfl, long⟩ := shown
    refine ⟨length, rfl, ?_⟩
    simp only [Shown, List.append_nil]
    exact ⟨before, after, same, some_, rfl, long⟩
  | holding =>
    simp only [mode] at shown
    obtain ⟨short, rfl, rfl, early⟩ := shown
    simp only
    split
    next still =>
      refine ⟨length, rfl, ?_⟩
      simp only [Shown, List.append_nil, true_and]
      exact ⟨still, early⟩
    next full =>
      split
      next label binary =>
        refine ⟨length, rfl, ?_⟩
        simp only [Shown, List.append_nil, true_and]
        exact ⟨Nat.not_lt.mp full, isLabel_of_binaryLabel binary⟩
      next =>
        refine ⟨length, rfl, ?_⟩
        simp only [Shown, List.nil_append, true_and]
        exact ⟨Nat.not_lt.mp full, early⟩

theorem Within.isOpen {read : List Nat} {begun : List Piece} {t : Track} {e : JsonElider}
    {out : List Nat} (within : Within limits read begun t e out) : e.mode ≠ .outside := by
  intro outside
  have shown := within.shown
  unfold Shown at shown
  rw [outside] at shown
  exact shown

theorem absorb_eq_inside {read : List Nat} {begun : List Piece} {t : Track} {e : JsonElider}
    {out : List Nat} (within : Within limits read begun t e out) {byte : Nat}
    (notClosing : t.closes byte = false) : absorb limits e byte = inside limits e byte := by
  have stays : closes e byte = false := by rw [closes_eq, within.tracked, notClosing]
  rw [absorb, if_neg within.isOpen, if_neg (by simp [stays])]

theorem steady_within {bytes : List Nat} : ∀ {read : List Nat} {begun : List Piece} {t t' : Track}
    {e : JsonElider} {out : List Nat}, Within limits read begun t e out → Steady t bytes t' →
    Within limits (read ++ bytes) begun t' (absorbAll limits e bytes).1
      (out ++ (absorbAll limits e bytes).2) := by
  induction bytes with
  | nil =>
    intro read begun t t' e out within steady
    rw [← show t = t' from steady, absorbAll, List.append_nil, List.append_nil]
    exact within
  | cons byte bytes ih =>
    intro read begun t t' e out within steady
    obtain ⟨notClosing, notStarting, rest⟩ := steady
    have notCut : cuts limits e byte = false := by
      rw [← Bool.not_eq_true, cuts_iff, within.tracked, notStarting]
      exact fun cut => Bool.false_ne_true cut.2.2
    have more := ih (inside_within within notCut) rest
    rw [absorbAll, absorb_eq_inside within notClosing]
    simp only
    rw [← List.append_assoc, List.append_cons]
    exact more

theorem begin_within {ps : List Piece} {e : JsonElider} {out : List Nat}
    (within : Within limits (raw ps) ps boundary e out) (p : Piece)
    (notCut : ¬(e.mode = .passing ∧ limits.textBytes ≤ e.bytes)) :
    Within limits (raw ps) (ps ++ [p]) boundary e out := by
  obtain ⟨bytes, tracked, shown⟩ := within
  refine ⟨bytes, tracked, ?_⟩
  have ordered := limits.text
  unfold Shown at shown ⊢
  cases mode : e.mode with
  | outside =>
    rw [mode] at shown
    exact shown
  | holding =>
    simp only [mode] at shown ⊢
    obtain ⟨short, held, nothing, early⟩ := shown
    exact ⟨short, held, nothing, early.snoc (by omega)⟩
  | passing =>
    simp only [mode] at shown ⊢
    obtain ⟨long, all, early⟩ := shown
    refine ⟨long, all, early.snoc ?_⟩
    rw [← bytes]
    exact Nat.not_le.mp fun reached => notCut ⟨mode, reached⟩
  | eliding =>
    simp only [mode] at shown ⊢
    exact shown
  | truncating =>
    simp only [mode] at shown ⊢
    obtain ⟨before, after, rfl, some_, kept, long⟩ := shown
    refine ⟨before, after ++ [p], List.append_assoc _ _ _, ?_, kept, long⟩
    exact List.append_ne_nil_of_left_ne_nil some_ [p]

theorem cut_within {ps : List Piece} {e : JsonElider} {out : List Nat}
    (within : Within limits (raw ps) ps boundary e out) (p : Piece) {first : Nat}
    (cut : cuts limits e first = true) :
    Within limits (raw ps ++ [first]) (ps ++ [p]) (boundary.next first) (inside limits e first).1
      (out ++ (inside limits e first).2) := by
  obtain ⟨bytes, tracked, shown⟩ := within
  obtain ⟨passing, reached, -⟩ := cuts_iff e first |>.mp cut
  unfold Shown at shown
  simp only [passing] at shown
  obtain ⟨-, rfl, -⟩ := shown
  rw [inside, if_pos cut, track_eq]
  refine ⟨by rw [List.length_append, ← bytes, List.length_singleton], ?_, ?_⟩
  · rw [← tracked]
    rfl
  · simp only [Shown, List.append_nil]
    exact ⟨ps, [p], rfl, List.cons_ne_nil p [], rfl, bytes ▸ reached⟩

theorem piece_within {ps : List Piece} {e : JsonElider} {out : List Nat}
    (within : Within limits (raw ps) ps boundary e out) (p : Piece) :
    Within limits (raw (ps ++ [p])) (ps ++ [p]) boundary (absorbAll limits e p.bytes).1
      (out ++ (absorbAll limits e p.bytes).2) := by
  obtain ⟨first, others, bytes, notClosing, starts, steady⟩ := piece_bytes p
  have head : Within limits (raw ps ++ [first]) (ps ++ [p]) (boundary.next first)
      (inside limits e first).1 (out ++ (inside limits e first).2) := by
    by_cases cut : cuts limits e first = true
    · exact cut_within within p cut
    · refine inside_within (begin_within within p fun reached => cut ?_) (Bool.not_eq_true _ ▸ cut)
      rw [cuts_iff, within.tracked]
      exact ⟨reached.1, reached.2, starts⟩
  have rest := steady_within head steady
  rw [raw_append, raw_singleton, bytes, absorbAll, absorb_eq_inside within notClosing]
  simp only
  rw [← List.append_assoc, List.append_cons]
  exact rest

theorem pieces_within {ps : List Piece} : ∀ {qs : List Piece} {e : JsonElider} {out : List Nat},
    Within limits (raw qs) qs boundary e out →
    Within limits (raw (qs ++ ps)) (qs ++ ps) boundary (absorbAll limits e (raw ps)).1
      (out ++ (absorbAll limits e (raw ps)).2) := by
  induction ps with
  | nil =>
    intro qs e out within
    rw [raw_nil, absorbAll, List.append_nil, List.append_nil]
    exact within
  | cons p ps ih =>
    intro qs e out within
    have rest := ih (piece_within within p)
    have split_ : raw (p :: ps) = p.bytes ++ raw ps := rfl
    rw [split_, absorbAll_append, List.append_cons, ← List.append_assoc]
    exact rest

/-! ### A string -/

/-- What becomes of the content of a string. -/
inductive Shortened (limits : ElisionLimits) : List Piece → List Piece → Prop where
  /-- It is kept; its last piece starts before the limit. -/
  | kept {ps : List Piece} : Early limits ps → Shortened limits ps ps
  /-- It is cut between two pieces, and a marker tells how much more it was. -/
  | cut {before after marker : List Piece} :
      limits.holdBytes ≤ (raw (before ++ after)).length → after ≠ [] →
      limits.textBytes ≤ (raw before).length →
      raw marker = Text.encode (JsonElider.truncatedText
        ((raw (before ++ after)).length - limits.textBytes)) →
      (∀ p ∈ marker, p.IsAscii) → Shortened limits (before ++ after) (before ++ marker)
  /-- A placeholder stands for it. -/
  | elided {ps placeholder : List Piece} {label : List Char} :
      limits.holdBytes ≤ (raw ps).length →
      raw placeholder = Text.encode (JsonElider.elidedText (raw ps).length label) →
      (∀ p ∈ placeholder, p.IsAscii) → Shortened limits ps placeholder

theorem plain_digits (n : Nat) : IsLabel (Nat.toDigits 10 n) := by
  intro c member
  have digit := Nat.isDigit_of_mem_toDigits (by decide) (by decide) member
  simp only [Char.isDigit, Bool.and_eq_true, decide_eq_true_eq] at digit
  have low : 48 ≤ c.toNat := digit.1
  have high : c.toNat ≤ 57 := digit.2
  exact ⟨⟨by omega, by omega, by omega⟩, by omega⟩

theorem IsLabel.append {first second : List Char} (left : IsLabel first) (right : IsLabel second) :
    IsLabel (first ++ second) := fun c member =>
  (List.mem_append.mp member).elim (left c) (right c)

theorem plain_elidedText (n : Nat) {label : List Char} (isLabel : IsLabel label) :
    IsLabel (JsonElider.elidedText n label) :=
  ((((plain_of_text _ rfl).append (plain_digits n)).append (plain_of_text _ rfl)).append
    isLabel).append (plain_of_text _ rfl)

theorem plain_truncatedText (n : Nat) : IsLabel (JsonElider.truncatedText n) :=
  ((plain_of_text _ rfl).append (plain_digits n)).append (plain_of_text _ rfl)

theorem shortened_of_within {ps : List Piece} {e : JsonElider} {out : List Nat}
    (within : Within limits (raw ps) ps boundary e out) :
    ∃ qs, out ++ e.closing limits = raw qs ∧ Shortened limits ps qs ∧
      ((raw ps).length < limits.holdBytes → qs = ps) := by
  obtain ⟨bytes, -, shown⟩ := within
  have ordered := limits.text
  unfold Shown at shown
  unfold JsonElider.closing
  cases mode : e.mode with
  | outside =>
    rw [mode] at shown
    exact shown.elim
  | holding =>
    simp only [mode] at shown
    obtain ⟨short, held, rfl, early⟩ := shown
    exact ⟨ps, held, .kept early, fun _ => rfl⟩
  | passing =>
    simp only [mode] at shown
    obtain ⟨long, rfl, early⟩ := shown
    exact ⟨ps, List.append_nil _, .kept early, fun _ => rfl⟩
  | eliding =>
    simp only [mode] at shown
    obtain ⟨long, rfl, isLabel⟩ := shown
    obtain ⟨placeholder, spelled, ascii⟩ :=
      exists_spelling _ (plain_elidedText (raw ps).length isLabel)
    refine ⟨placeholder, ?_, .elided long spelled ascii, fun short => ?_⟩
    · rw [bytes]
      exact spelled.symm
    · omega
  | truncating =>
    simp only [mode] at shown
    obtain ⟨before, after, rfl, some_, rfl, long⟩ := shown
    obtain ⟨marker, spelled, ascii⟩ :=
      exists_spelling _ (plain_truncatedText ((raw (before ++ after)).length - limits.textBytes))
    have whole : limits.holdBytes ≤ (raw (before ++ after)).length := by
      rw [raw_append, List.length_append]
      omega
    refine ⟨before ++ marker, ?_, .cut whole some_ long spelled ascii, fun short => ?_⟩
    · rw [bytes, raw_append before marker, spelled]
    · omega

/-! ### Tokens -/

/-- What becomes of a token. -/
inductive Becomes (limits : ElisionLimits) : Token → Token → Prop where
  | gap (g : Gap) : Becomes limits (.gap g) (.gap g)
  | string {ps qs : List Piece} : Shortened limits ps qs →
      ((raw ps).length < limits.holdBytes → qs = ps) → Becomes limits (.string ps) (.string qs)

theorem Becomes.alike {t u : Token} (becomes : Becomes limits t u) : Alike t u := by
  cases becomes with
  | gap g => exact rfl
  | string shortened short => exact trivial

theorem absorbAll_gap {bytes : List Nat} {e : JsonElider} (outside : e.mode = .outside)
    (noQuote : 34 ∉ bytes) : absorbAll limits e bytes = (e, bytes) := by
  induction bytes with
  | nil => rfl
  | cons byte bytes ih =>
    have notQuote : byte ≠ quote := fun same => noQuote (same ▸ List.mem_cons_self)
    rw [absorbAll, absorb, if_pos outside, if_neg notQuote]
    simp only
    rw [ih fun member => noQuote (List.mem_cons_of_mem byte member)]
    rfl

theorem opened_within (e : JsonElider) : Within limits (raw []) [] boundary e.opened [] :=
  ⟨rfl, rfl, Nat.lt_of_lt_of_le (by decide) limits.hold, rfl, rfl, early_nil⟩

theorem absorbAll_string {ps : List Piece} {e : JsonElider} (outside : e.mode = .outside) :
    (absorbAll limits e (Token.string ps).bytes).1.mode = .outside ∧
      ∃ qs, (absorbAll limits e (Token.string ps).bytes).2 = (Token.string qs).bytes ∧
        Becomes limits (.string ps) (.string qs) := by
  have within := @pieces_within limits ps [] e.opened [] (opened_within e)
  rw [List.nil_append, List.nil_append] at within
  have opening : absorb limits e 34 = (e.opened, [34]) := by
    rw [absorb, if_pos outside]
    rfl
  have closing : ∀ e' : JsonElider, e'.mode ≠ .outside → e'.tracked = boundary →
      absorb limits e' 34 = (e'.closed, e'.closing limits ++ [34]) := fun e' isOpen tracked => by
    rw [absorb, if_neg isOpen, closes_eq, tracked]
    rfl
  obtain ⟨qs, output, shortened, short⟩ := shortened_of_within within
  rw [Token.bytes, absorbAll, opening]
  simp only
  rw [absorbAll_append, absorbAll, closing _ within.isOpen within.tracked]
  refine ⟨rfl, qs, ?_, .string shortened short⟩
  simp only [absorbAll, Token.bytes]
  rw [← output]
  simp only [List.append_assoc, List.append_nil, List.cons_append, List.nil_append]

theorem absorbAll_tokens (tokens : List Token) : ∀ {e : JsonElider}, e.mode = .outside →
    (absorbAll limits e (render tokens)).1.mode = .outside ∧
      ∃ tokens', (absorbAll limits e (render tokens)).2 = render tokens' ∧
        List.Forall₂ (Becomes limits) tokens tokens' := by
  induction tokens with
  | nil => exact fun outside => ⟨outside, [], rfl, .nil⟩
  | cons token tokens ih =>
    intro e outside
    rw [render_cons, absorbAll_append]
    cases token with
    | gap g =>
      obtain ⟨still, tokens', output, become⟩ := ih outside
      rw [show (Token.gap g).bytes = g.bytes from rfl, absorbAll_gap outside g.noQuote]
      refine ⟨still, .gap g :: tokens', ?_, .cons (.gap g) become⟩
      simp only
      rw [output, render_cons]
      rfl
    | string ps =>
      obtain ⟨between, qs, first, becomes⟩ := @absorbAll_string limits ps e outside
      obtain ⟨still, tokens', output, become⟩ := ih between
      refine ⟨still, .string qs :: tokens', ?_, .cons becomes become⟩
      simp only
      rw [first, output, render_cons]

/-- The output depends on the bytes and not on the chunks; and the output for JSON texts is those
texts, with every string kept, cut between two pieces, or a placeholder. -/
theorem elide_exact (limits : ElisionLimits) :
    (∀ chunks chunks' : List (List Nat), chunks.flatten = chunks'.flatten →
      elide limits chunks = elide limits chunks') ∧
    ∀ (tokens : List Token) (chunks : List (List Nat)), chunks.flatten = render tokens →
      ∃ tokens', elide limits chunks = render tokens' ∧
        List.Forall₂ (Becomes limits) tokens tokens' ∧
        (Derives .texts tokens → Derives .texts tokens') := by
  refine ⟨fun chunks chunks' same => by rw [elide_eq, elide_eq, same], ?_⟩
  intro tokens chunks bytes
  obtain ⟨outside, tokens', output, become⟩ := @absorbAll_tokens limits tokens {} rfl
  refine ⟨tokens', ?_, become, fun derived => derived.alike ?_⟩
  · rw [elide_eq, bytes, output, finish, if_neg (not_not.mpr outside), List.append_nil]
  · exact become.imp fun t u becomes => becomes.alike

end Ace.Provider.JsonElision
