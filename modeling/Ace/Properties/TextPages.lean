import Mathlib.Data.List.Induction
import Ace.Projection.TextPage

/-!
# Paging stored text loses nothing

Every cut of an encoded text falls behind some characters and inside at most one more. The reader
finds both: how many whole characters stand before a cut, and how much of a character stands before
the first whole one. So a page is the text between two boundaries, and pages that follow one
another make up the whole.

## Main result

`textPages_lossless`
-/

namespace Ace.TextPage

open Script

/-! ### Encoded text -/

def charOf : StreamEncoding → Char → List Nat
  | .utf16le, c => Utf16.charBytes c
  | .utf8, c => Text.encodeChar c

def bytesOf (encoding : StreamEncoding) (cs : List Char) : List Nat := cs.flatMap (charOf encoding)

variable {encoding : StreamEncoding}

@[simp] theorem bytesOf_nil : bytesOf encoding [] = [] := rfl

@[simp] theorem bytesOf_cons (c : Char) (cs : List Char) :
    bytesOf encoding (c :: cs) = charOf encoding c ++ bytesOf encoding cs := rfl

@[simp] theorem bytesOf_append (a b : List Char) :
    bytesOf encoding (a ++ b) = bytesOf encoding a ++ bytesOf encoding b := List.flatMap_append

theorem length_charOf (c : Char) :
    0 < (charOf encoding c).length ∧ (charOf encoding c).length ≤ 4 := by
  cases encoding with
  | utf8 => exact Text.length_encodeChar c
  | utf16le =>
    obtain ⟨positive, bounded, -⟩ := Utf16.length_charBytes c
    exact ⟨positive, bounded⟩

theorem bytesOf_eq_nil {cs : List Char} : bytesOf encoding cs = [] ↔ cs = [] := by
  cases cs with
  | nil => simp
  | cons c cs =>
    have positive := (@length_charOf encoding c).1
    simp [List.length_pos_iff.mp positive]

theorem decodeBytes_bytesOf (cs : List Char) :
    decodeBytes (bytesOf encoding cs) encoding = cs := by
  cases encoding with
  | utf8 => exact Text.decodeBytes_encode cs
  | utf16le => exact Utf16.decodeBytes_encode cs

theorem even_bytesOf (cs : List Char) : (bytesOf .utf16le cs).length % 2 = 0 :=
  Utf16.even_encode cs

theorem exists_cut (cs : List Char) (n : Nat) : ∃ a b, cs = a ++ b ∧
    (bytesOf encoding a).length ≤ n ∧
    (b = [] ∨ ∃ c rest, b = c :: rest ∧
      n - (bytesOf encoding a).length < (charOf encoding c).length) := by
  induction cs generalizing n with
  | nil => exact ⟨[], [], rfl, by simp, .inl rfl⟩
  | cons c cs ih =>
    by_cases inside : n < (charOf encoding c).length
    · exact ⟨[], c :: cs, rfl, by simp, .inr ⟨c, cs, rfl, by simpa using inside⟩⟩
    · obtain ⟨a, b, split, fits, next⟩ := ih (n - (charOf encoding c).length)
      refine ⟨c :: a, b, by rw [split]; rfl, ?_, ?_⟩
      · rw [bytesOf_cons, List.length_append]
        omega
      · rcases next with done | ⟨d, rest, same, short⟩
        · exact .inl done
        · refine .inr ⟨d, rest, same, ?_⟩
          rw [bytesOf_cons, List.length_append]
          omega

/-! ### Whole characters -/

theorem leadEnd_append {front : List Nat} {first : Nat} {others : List Nat}
    (starts : Text.isContinuation first = false)
    (continued : ∀ b ∈ others, Text.isContinuation b = true) (rest : List Nat) :
    leadEnd (front ++ first :: (others ++ rest)) (front.length + 1 + others.length) =
      front.length + 1 := by
  -- The induction is on the continuation bytes, from the last one back.
  induction others using List.reverseRecOn generalizing rest with
  | nil =>
    have at_first : (front ++ first :: ([] ++ rest)).getD front.length 0 = first := by simp
    rw [List.length_nil, Nat.add_zero, leadEnd, at_first, starts]
    rfl
  | append_singleton others last ih =>
    have at_last : (front ++ first :: (others ++ [last] ++ rest)).getD
        (front.length + 1 + others.length) 0 = last := by
      have regroup : front ++ first :: (others ++ [last] ++ rest) =
          (front ++ first :: others) ++ last :: rest := by simp
      have index : front.length + 1 + others.length = (front ++ first :: others).length := by
        simp only [List.length_append, List.length_cons]
        omega
      rw [regroup, index]
      simp
    rw [List.length_append, List.length_singleton, ← Nat.add_assoc, leadEnd, at_last,
      continued last (by simp), if_pos rfl, List.append_assoc]
    exact ih (fun b member => continued b (by simp [member])) ([last] ++ rest)

theorem whole_utf8 (front : List Nat) {first : Nat} {others : List Nat}
    (starts : Text.isContinuation first = false)
    (continued : ∀ b ∈ others, Text.isContinuation b = true) :
    wholeCharacterLength (front ++ first :: others) .utf8 =
      if others.length + 1 < Text.characterBytes first then front.length
      else front.length + others.length + 1 := by
  have found := @leadEnd_append front _ _ starts continued []
  rw [List.append_nil] at found
  have length : (front ++ first :: others).length = front.length + 1 + others.length := by
    rw [List.length_append, List.length_cons]
    omega
  have at_first : (front ++ first :: others).getD front.length 0 = first := by simp
  simp only [wholeCharacterLength, length, found, at_first]
  split
  · rw [if_pos (by omega)]
  · rw [if_neg (by omega)]
    omega

theorem wholeCharacterLength_utf8 (a : List Char) {c : Char} {k : Nat}
    (short : k < (Text.encodeChar c).length) :
    wholeCharacterLength (bytesOf .utf8 a ++ (Text.encodeChar c).take k) .utf8 =
      (bytesOf .utf8 a).length := by
  obtain ⟨first, others, shape, starts, continued, width⟩ := Text.encodeChar_eq_cons c
  rw [shape] at short ⊢
  cases k with
  | zero =>
    rw [List.take_zero, List.append_nil]
    induction a using List.reverseRecOn with
    | nil => rfl
    | append_singleton a c' _ =>
      obtain ⟨first', others', shape', starts', continued', width'⟩ := Text.encodeChar_eq_cons c'
      have last : bytesOf .utf8 (a ++ [c']) = bytesOf .utf8 a ++ first' :: others' := by
        rw [bytesOf_append, bytesOf_cons, bytesOf_nil, List.append_nil, charOf, shape']
      rw [last, whole_utf8 _ starts' continued', if_neg (by omega), List.length_append,
        List.length_cons, Nat.add_assoc]
  | succ k =>
    rw [List.length_cons] at short
    have continued_k : ∀ b ∈ others.take k, Text.isContinuation b = true :=
      fun b member => continued b (List.mem_of_mem_take member)
    rw [List.take_succ_cons, whole_utf8 _ starts continued_k, if_pos]
    rw [List.length_take]
    omega

theorem unitAt_append (front : List Nat) (low high : Nat) (rest : List Nat) :
    unitAt (front ++ low :: high :: rest) front.length = low + high * 256 := by
  simp [unitAt]

theorem last_unit (a : List Char) (rest : List Nat) (nonempty : 2 ≤ (bytesOf .utf16le a).length) :
    isHighSurrogate (unitAt (bytesOf .utf16le a ++ rest)
      ((bytesOf .utf16le a).length - 2)) = false := by
  induction a using List.reverseRecOn with
  | nil => simp at nonempty
  | append_singleton a c _ =>
    rw [bytesOf_append, bytesOf_cons, bytesOf_nil, List.append_nil, charOf]
    rcases Utf16.charBytes_cases c with ⟨low, high, bytes, -, not_high, -⟩ |
      ⟨b₁, b₂, low, high, bytes, -, -, not_high, -⟩
    · rw [bytes, List.append_assoc]
      have index : (bytesOf .utf16le a ++ [low, high]).length - 2 =
          (bytesOf .utf16le a).length := by simp
      rw [index, List.cons_append, List.cons_append, unitAt_append]
      exact not_high
    · have regroup : bytesOf .utf16le a ++ [b₁, b₂, low, high] ++ rest =
          (bytesOf .utf16le a ++ [b₁, b₂]) ++ low :: high :: rest := by simp
      have index : (bytesOf .utf16le a ++ [b₁, b₂, low, high]).length - 2 =
          (bytesOf .utf16le a ++ [b₁, b₂]).length := by simp
      rw [bytes, index, regroup, unitAt_append]
      exact not_high

theorem wholeCharacterLength_utf16 (a : List Char) {c : Char} {k : Nat}
    (short : k < (Utf16.charBytes c).length) :
    wholeCharacterLength (bytesOf .utf16le a ++ (Utf16.charBytes c).take k) .utf16le =
      (bytesOf .utf16le a).length := by
  have even := even_bytesOf a
  have length : (bytesOf .utf16le a ++ (Utf16.charBytes c).take k).length =
      (bytesOf .utf16le a).length + k := by
    rw [List.length_append, List.length_take, Nat.min_eq_left (Nat.le_of_lt short)]
  simp only [wholeCharacterLength, length]
  by_cases odd_only : k < 2
  · -- At most one byte of the next unit.
    have used : (bytesOf .utf16le a).length + k - ((bytesOf .utf16le a).length + k) % 2 =
        (bytesOf .utf16le a).length := by omega
    rw [used, if_neg]
    rintro ⟨nonempty, is_high⟩
    rw [last_unit a _ nonempty] at is_high
    cases is_high
  · rcases Utf16.charBytes_cases c with ⟨low, high, bytes, -⟩ |
      ⟨b₁, b₂, low, high, bytes, is_high, -⟩
    · rw [bytes] at short
      exact absurd short (by simpa using odd_only)
    · have used : (bytesOf .utf16le a).length + k - ((bytesOf .utf16le a).length + k) % 2 =
          (bytesOf .utf16le a).length + 2 := by
        rw [bytes] at short
        simp only [List.length_cons, List.length_nil] at short
        omega
      obtain ⟨k, rfl⟩ : ∃ k', k = k' + 2 := ⟨k - 2, by omega⟩
      rw [used, Nat.add_sub_cancel, bytes, List.take_succ_cons, List.take_succ_cons,
        unitAt_append, if_pos ⟨by omega, is_high⟩]

theorem wholeCharacterLength_cut (a : List Char) {c : Char} {k : Nat}
    (short : k < (charOf encoding c).length) :
    wholeCharacterLength (bytesOf encoding a ++ (charOf encoding c).take k) encoding =
      (bytesOf encoding a).length := by
  cases encoding with
  | utf8 => exact wholeCharacterLength_utf8 a short
  | utf16le => exact wholeCharacterLength_utf16 a short

/-! ### Partial leads -/

theorem first_unit (b : List Char) (m : Nat) (enough : 2 ≤ ((bytesOf .utf16le b).take m).length) :
    isLowSurrogate (unitAt ((bytesOf .utf16le b).take m) 0) = false := by
  obtain ⟨m, rfl⟩ : ∃ m', m = m' + 2 := by
    rw [List.length_take] at enough
    exact ⟨m - 2, by omega⟩
  cases b with
  | nil => simp at enough
  | cons c b =>
    rw [bytesOf_cons, charOf]
    rcases Utf16.charBytes_cases c with ⟨low, high, bytes, -, -, not_low⟩ |
      ⟨low, high, b₁, b₂, bytes, -, not_low, -⟩
    · rw [bytes]
      exact not_low
    · rw [bytes]
      exact not_low

theorem takeWhile_bytesOf (b : List Char) (m : Nat) :
    ((bytesOf .utf8 b).take m).takeWhile Text.isContinuation = [] := by
  cases b with
  | nil => simp
  | cons c b =>
    obtain ⟨first, others, shape, starts, -⟩ := Text.encodeChar_eq_cons c
    cases m with
    | zero => rfl
    | succ m => simp [charOf, shape, starts]

theorem partialLead_boundary (a b : List Char) (m : Nat) :
    partialLead ((bytesOf encoding b).take m) (bytesOf encoding a).length encoding = 0 := by
  cases encoding with
  | utf8 => simp only [partialLead, takeWhile_bytesOf, List.length_nil, ite_self]
  | utf16le =>
    simp only [partialLead, even_bytesOf, Nat.zero_add]
    split
    · rfl
    · split
      next low =>
        rw [first_unit b m low.1] at low
        cases low.2
      · rfl

theorem unitAt_cons (x : Nat) (xs : List Nat) (i : Nat) :
    unitAt (x :: xs) (i + 1) = unitAt xs i := by
  simp [unitAt]

theorem partialLead_utf16 (a : List Char) {c : Char} {j : Nat} (inside : 0 < j)
    (short : j < (Utf16.charBytes c).length) (b : List Char) {m : Nat} (room : 4 ≤ m) :
    partialLead (((Utf16.charBytes c).drop j ++ bytesOf .utf16le b).take m)
      ((bytesOf .utf16le a).length + j) .utf16le = (Utf16.charBytes c).length - j := by
  have even := even_bytesOf a
  have away : (bytesOf .utf16le a).length + j ≠ 0 := by omega
  have parity : ((bytesOf .utf16le a).length + j) % 2 = j % 2 := by omega
  obtain ⟨m, rfl⟩ : ∃ m', m = m' + 4 := ⟨m - 4, by omega⟩
  -- After one byte of an odd start, the next unit starts the following text.
  have odd : ∀ high : Nat, ¬ (1 + 2 ≤ ((high :: bytesOf .utf16le b).take (m + 4)).length ∧
      isLowSurrogate (unitAt ((high :: bytesOf .utf16le b).take (m + 4)) 1) = true) := by
    rintro high ⟨enough, low⟩
    rw [List.take_succ_cons] at enough low
    rw [unitAt_cons, first_unit b _ (by simpa using enough)] at low
    cases low
  simp only [partialLead, if_neg away, parity]
  rcases Utf16.charBytes_cases c with ⟨low, high, bytes, -⟩ |
    ⟨b₁, b₂, low, high, bytes, -, -, -, is_low, -⟩
  · rw [bytes] at short ⊢
    obtain rfl : j = 1 := by
      simp only [List.length_cons, List.length_nil] at short
      omega
    exact if_neg (odd high)
  · rw [bytes] at short ⊢
    simp only [List.length_cons, List.length_nil] at short
    obtain rfl | rfl | rfl : j = 1 ∨ j = 2 ∨ j = 3 := by omega
    · exact if_pos ⟨by simp, is_low⟩
    · exact if_pos ⟨by simp, is_low⟩
    · simp only [Nat.reduceMod]
      exact if_neg (odd high)

theorem partialLead_utf8 (a : List Char) {c : Char} {j : Nat} (inside : 0 < j)
    (short : j < (Text.encodeChar c).length) (b : List Char) {m : Nat} (room : 4 ≤ m) :
    partialLead (((Text.encodeChar c).drop j ++ bytesOf .utf8 b).take m)
      ((bytesOf .utf8 a).length + j) .utf8 = (Text.encodeChar c).length - j := by
  have away : (bytesOf .utf8 a).length + j ≠ 0 := by omega
  have bounded := (Text.length_encodeChar c).2
  obtain ⟨first, others, shape, -, continued, -⟩ := Text.encodeChar_eq_cons c
  rw [shape] at short bounded ⊢
  obtain ⟨j, rfl⟩ : ∃ j', j = j' + 1 := ⟨j - 1, by omega⟩
  have kept : ∀ x ∈ others.drop j, Text.isContinuation x = true :=
    fun x member => continued x (List.mem_of_mem_drop member)
  have fits : (others.drop j).length ≤ m := by
    rw [List.length_drop]
    simp only [List.length_cons] at bounded
    omega
  simp only [partialLead, if_neg away, List.drop_succ_cons]
  rw [List.take_append, List.take_of_length_le fits, List.takeWhile_append_of_pos kept,
    takeWhile_bytesOf, List.append_nil, List.length_drop, List.length_cons]
  omega

theorem partialLead_inside (a : List Char) {c : Char} {j : Nat} (inside : 0 < j)
    (short : j < (charOf encoding c).length) (b : List Char) {m : Nat} (room : 4 ≤ m) :
    partialLead (((charOf encoding c).drop j ++ bytesOf encoding b).take m)
      ((bytesOf encoding a).length + j) encoding = (charOf encoding c).length - j := by
  cases encoding with
  | utf8 => exact partialLead_utf8 a inside short b room
  | utf16le => exact partialLead_utf16 a inside short b room

/-! ### One page -/

/-- The page of some bytes to skip, whole characters and a part of the next one. It is never
without progress: the part alone is a page only if nothing stands after it. -/
theorem decodeTextPage_cut {pre : List Nat} {now : List Char} {c : Char} {k offset : Nat}
    {eof : Bool} (short : k < (charOf encoding c).length)
    (skips : partialLead (pre ++ (bytesOf encoding now ++ (charOf encoding c).take k)) offset
      encoding = pre.length)
    (progress : now = [] → k ≠ 0 → 0 < pre.length ∧ eof = false) :
    decodeTextPage ⟨pre ++ (bytesOf encoding now ++ (charOf encoding c).take k), eof⟩ offset
        encoding =
      { text := now
        nextOffset := offset + (pre.length + (bytesOf encoding now).length)
        eof := eof && decide (k = 0) } := by
  have length : (pre ++ (bytesOf encoding now ++ (charOf encoding c).take k)).length =
      pre.length + (bytesOf encoding now).length + k := by
    rw [List.length_append, List.length_append, List.length_take,
      Nat.min_eq_left (Nat.le_of_lt short)]
    omega
  have start : min (pre.length + (bytesOf encoding now).length + k) pre.length = pre.length := by
    omega
  have text : decodeBytes (((pre ++ (bytesOf encoding now ++ (charOf encoding c).take k)).take
      (pre.length + (bytesOf encoding now).length)).drop pre.length) encoding = now := by
    rw [← List.append_assoc, ← List.length_append, List.take_left, List.drop_left,
      decodeBytes_bytesOf]
  simp only [decodeTextPage, skips, length, start, List.drop_left,
    wholeCharacterLength_cut now short]
  -- The page stops after the whole characters, also where there are none.
  have stop : (if pre.length < pre.length + (bytesOf encoding now).length then
      pre.length + (bytesOf encoding now).length
      else if 0 < pre.length ∧ (!eof) = true then pre.length
      else pre.length + (bytesOf encoding now).length + k) =
      pre.length + (bytesOf encoding now).length := by
    split
    · rfl
    next none_whole =>
      have empty : now = [] := by
        rw [← @bytesOf_eq_nil encoding, ← List.length_eq_zero_iff]
        omega
      split
      · rw [empty, bytesOf_nil, List.length_nil, Nat.add_zero]
      next stays =>
        by_cases nothing : k = 0
        · rw [nothing, Nat.add_zero]
        · obtain ⟨unaligned, not_eof⟩ := progress empty nothing
          exact absurd ⟨unaligned, by simp [not_eof]⟩ stays
  rw [stop, text]
  congr 2
  rw [Bool.eq_iff_iff, beq_iff_eq, decide_eq_true_iff]
  omega

/-- What a read returns that skips `lead` bytes before the text `after`: some of its characters,
at least one if nothing was skipped, and all of them at the end. -/
structure Reads (encoding : StreamEncoding) (offset lead : Nat) (after : List Char)
    (page : TextPage) (later : List Char) : Prop where
  split : after = page.text ++ later
  next : page.nextOffset = offset + (lead + (bytesOf encoding page.text).length)
  last : page.eof = true ↔ later = []
  more : page.eof = false → 0 < lead + (bytesOf encoding page.text).length

/-- A page of at least four bytes holds the rest of one character and, if it is not the last page
or has nothing to skip, a whole one. -/
theorem reads_of_lead {stream pre : List Nat} {after : List Char} {offset limit : Nat}
    (stored : stream.drop offset = pre ++ bytesOf encoding after)
    (bound : offset ≤ stream.length) (few : pre.length < 4) (room : 4 ≤ limit)
    (skips : partialLead ((pre ++ bytesOf encoding after).take limit) offset encoding =
      pre.length) :
    ∃ later, Reads encoding offset pre.length after
      (decodeTextPage (readOutputBytes stream offset limit) offset encoding) later := by
  obtain ⟨now, later, rfl, fits, next⟩ := @exists_cut encoding after
    (limit - pre.length)
  have total : stream.length = offset + (pre ++ bytesOf encoding (now ++ later)).length := by
    rw [← stored, List.length_drop]
    omega
  refine ⟨later, ?_⟩
  have front : (pre ++ bytesOf encoding (now ++ later)).take limit = pre ++
      (bytesOf encoding now ++ (bytesOf encoding later).take
        (limit - pre.length - (bytesOf encoding now).length)) := by
    rw [List.take_append, List.take_of_length_le (by omega), bytesOf_append, List.take_append,
      List.take_of_length_le fits]
  rw [readOutputBytes, stored]
  simp only [total]
  rw [front] at skips ⊢
  rcases next with rfl | ⟨c, rest, rfl, short⟩
  · -- The page reaches the end.
    have none_left : (bytesOf encoding ([] : List Char)).take
        (limit - pre.length - (bytesOf encoding now).length) = (charOf encoding 'a').take 0 := by
      simp
    rw [none_left] at skips ⊢
    rw [decodeTextPage_cut (length_charOf 'a').1 skips (fun _ nothing => absurd rfl nothing)]
    refine ⟨rfl, rfl, by simp, fun not_last => ?_⟩
    simp at not_last
  · have part : (bytesOf encoding (c :: rest)).take
        (limit - pre.length - (bytesOf encoding now).length) =
        (charOf encoding c).take (limit - pre.length - (bytesOf encoding now).length) := by
      rw [bytesOf_cons, List.take_append_of_le_length (Nat.le_of_lt short)]
    rw [part] at skips ⊢
    have not_eof : decide (offset + (pre ++ bytesOf encoding (now ++ c :: rest)).length ≤
        offset + (pre ++ (bytesOf encoding now ++ (charOf encoding c).take
          (limit - pre.length - (bytesOf encoding now).length))).length) = false := by
      simp only [bytesOf_append, bytesOf_cons, List.length_append, List.length_take,
        decide_eq_false_iff_not]
      omega
    have bounded := (@length_charOf encoding c).2
    have moves : 0 < pre.length ∨ 0 < (bytesOf encoding now).length := by omega
    have forward : 0 < pre.length + (bytesOf encoding now).length := by omega
    rw [not_eof, decodeTextPage_cut short skips ?_]
    · exact ⟨rfl, rfl, by simp, fun _ => forward⟩
    · rintro rfl -
      rw [bytesOf_nil, List.length_nil] at moves
      exact ⟨moves.resolve_right (Nat.lt_irrefl 0), rfl⟩

/-- The page that is read of a stored text. -/
def pageOf (encoding : StreamEncoding) (text : List Char) (offset limit : Nat) : TextPage :=
  decodeTextPage (readOutputBytes (bytesOf encoding text) offset limit) offset encoding

theorem reads_boundary (before after : List Char) {limit : Nat} (room : 4 ≤ limit) :
    ∃ later, Reads encoding (bytesOf encoding before).length 0 after
      (pageOf encoding (before ++ after) (bytesOf encoding before).length limit) later := by
  refine @reads_of_lead encoding _ [] _ _ _ ?_ ?_ (by decide) room ?_
  · rw [bytesOf_append, List.drop_left]
    rfl
  · rw [bytesOf_append, List.length_append]
    omega
  · exact partialLead_boundary before after limit

theorem reads_inside (before after : List Char) {c : Char} {j limit : Nat} (inside : 0 < j)
    (short : j < (charOf encoding c).length) (room : 4 ≤ limit) :
    ∃ later, Reads encoding ((bytesOf encoding before).length + j)
      ((charOf encoding c).length - j) after
      (pageOf encoding (before ++ c :: after) ((bytesOf encoding before).length + j) limit)
      later := by
  have bounded := (@length_charOf encoding c).2
  have skipped : ((charOf encoding c).drop j).length = (charOf encoding c).length - j :=
    List.length_drop
  rw [← skipped]
  refine reads_of_lead ?_ ?_ (by omega) room ?_
  · rw [bytesOf_append, bytesOf_cons, List.drop_append, List.drop_eq_nil_of_le (by omega),
      Nat.add_sub_cancel_left, List.drop_append_of_le_length (Nat.le_of_lt short)]
    rfl
  · rw [bytesOf_append, bytesOf_cons, List.length_append, List.length_append]
    omega
  · rw [skipped]
    exact partialLead_inside before inside short after room

/-! ### All pages -/

/-- Every page holds whole characters, ends where the next one starts and, unless it is the last,
ends after its start. -/
def Consecutive (encoding : StreamEncoding) : Nat → List TextPage → Prop
  | _, [] => True
  | offset, page :: pages =>
    page.nextOffset = offset + (bytesOf encoding page.text).length ∧
      (page.eof = false → offset < page.nextOffset) ∧
      Consecutive encoding page.nextOffset pages

theorem readPages_boundary {limits : Nat → Nat} (room : ∀ n, 4 ≤ limits n)
    (before after : List Char) (n : Nat) {fuel : Nat}
    (enough : (bytesOf encoding after).length < fuel) :
    ∃ pages, readPages (bytesOf encoding (before ++ after)) encoding limits fuel n
        (bytesOf encoding before).length = some pages ∧
      pages.flatMap (·.text) = after ∧
      Consecutive encoding (bytesOf encoding before).length pages ∧
      (after ≠ [] → ∀ page ∈ pages, page.text ≠ []) := by
  induction fuel generalizing before after n with
  | zero => omega
  | succ fuel ih =>
    obtain ⟨later, reads⟩ := @reads_boundary encoding before after _ (room n)
    rw [readPages, ← pageOf]
    generalize pageOf encoding (before ++ after) (bytesOf encoding before).length (limits n) =
      page at reads
    obtain ⟨split, next, last, more⟩ := reads
    rw [Nat.zero_add] at next more
    cases ended : page.eof with
    | true =>
      have nothing : later = [] := last.mp ended
      rw [nothing, List.append_nil] at split
      refine ⟨[page], by simp [ended], by simp [split], ⟨next, by simp [ended], trivial⟩, ?_⟩
      intro nonempty other member
      rw [List.mem_singleton.mp member, ← split]
      exact nonempty
    | false =>
      have forward := more ended
      have text : page.text ≠ [] := fun empty => by simp [empty] at forward
      have nonempty : later ≠ [] := fun empty => by simp [last.mpr empty] at ended
      have smaller : (bytesOf encoding later).length < fuel := by
        rw [split, bytesOf_append, List.length_append] at enough
        omega
      obtain ⟨pages, run, whole, consecutive, full⟩ :=
        ih (before ++ page.text) later (n + 1) smaller
      have offset : (bytesOf encoding (before ++ page.text)).length = page.nextOffset := by
        rw [next, bytesOf_append, List.length_append]
      rw [List.append_assoc, ← split, offset] at run
      rw [offset] at consecutive
      refine ⟨page :: pages,
        by simp only [ended, Bool.false_eq_true, if_false, run, Option.map_some],
        by rw [List.flatMap_cons, whole, ← split],
        ⟨next, fun _ => by omega, consecutive⟩, fun _ other member => ?_⟩
      rcases List.mem_cons.mp member with rfl | later_page
      · exact text
      · exact full nonempty other later_page

/-! ### Any offset -/

/-- The characters before the first boundary at or after an offset. -/
def FirstBoundary (encoding : StreamEncoding) (text : List Char) (offset : Nat)
    (before : List Char) : Prop :=
  before <+: text ∧ offset ≤ (bytesOf encoding before).length ∧
    ∀ front, front <+: text → offset ≤ (bytesOf encoding front).length →
      (bytesOf encoding before).length ≤ (bytesOf encoding front).length

theorem length_bytesOf_mono {front whole : List Char} (le : front <+: whole) :
    (bytesOf encoding front).length ≤ (bytesOf encoding whole).length := by
  obtain ⟨rest, rfl⟩ := le
  rw [bytesOf_append, List.length_append]
  omega

theorem firstBoundary_inside (before after : List Char) {c : Char} {j : Nat} (inside : 0 < j)
    (short : j < (charOf encoding c).length) :
    FirstBoundary encoding (before ++ c :: after) ((bytesOf encoding before).length + j)
      (before ++ [c]) := by
  refine ⟨⟨after, by simp⟩, ?_, fun front prefixes reaches => ?_⟩
  · rw [bytesOf_append, bytesOf_cons, List.length_append, List.length_append]
    omega
  · by_cases shorter : front.length ≤ before.length
    · have le := @length_bytesOf_mono encoding _ _
        (List.prefix_of_prefix_length_le prefixes (List.prefix_append before (c :: after)) shorter)
      omega
    · refine length_bytesOf_mono
        (List.prefix_of_prefix_length_le ⟨after, by simp⟩ prefixes ?_)
      rw [List.length_append, List.length_singleton]
      omega

theorem reads_anywhere (text : List Char) {offset limit : Nat} (room : 4 ≤ limit)
    (bound : offset ≤ (bytesOf encoding text).length) :
    ∃ before, FirstBoundary encoding text offset before ∧
      before ++ (pageOf encoding text offset limit).text <+: text ∧
      (pageOf encoding text offset limit).nextOffset =
        (bytesOf encoding (before ++ (pageOf encoding text offset limit).text)).length := by
  obtain ⟨before, rest, rfl, fits, next⟩ := @exists_cut encoding text offset
  obtain ⟨j, rfl⟩ : ∃ j, offset = (bytesOf encoding before).length + j :=
    ⟨offset - (bytesOf encoding before).length, by omega⟩
  rw [Nat.add_sub_cancel_left] at next
  by_cases aligned : j = 0
  · subst aligned
    rw [Nat.add_zero]
    obtain ⟨later, split, next, -, -⟩ := @reads_boundary encoding before rest _ room
    refine ⟨before, ⟨List.prefix_append .., Nat.le_refl _, fun _ _ reaches => reaches⟩, ?_, ?_⟩
    · refine ⟨later, ?_⟩
      rw [List.append_assoc, ← split]
    · rw [next, bytesOf_append, List.length_append, Nat.zero_add]
  · rcases next with rfl | ⟨c, after, rfl, short⟩
    · rw [List.append_nil] at bound
      omega
    · have inside : 0 < j := Nat.pos_of_ne_zero aligned
      obtain ⟨later, split, next, -, -⟩ :=
        @reads_inside encoding before after c j _ inside short room
      generalize pageOf encoding (before ++ c :: after) _ limit = page at *
      refine ⟨before ++ [c], firstBoundary_inside before after inside short, ⟨later, ?_⟩, ?_⟩
      · rw [List.append_assoc, ← split, List.append_assoc]
        rfl
      · rw [next, bytesOf_append, bytesOf_append, bytesOf_cons, bytesOf_nil, List.append_nil,
          List.length_append, List.length_append]
        omega

/-- Reading from the start with pages of at least four bytes ends, every page moves on and holds
whole characters, and together they are the text. A read at any offset starts at the first boundary
there. -/
theorem textPages_lossless (encoding : StreamEncoding) (text : List Char) {limits : Nat → Nat}
    (room : ∀ n, 4 ≤ limits n) :
    (∃ pages, readPages (bytesOf encoding text) encoding limits
        ((bytesOf encoding text).length + 1) 0 0 = some pages ∧
      pages.flatMap (·.text) = text ∧ Consecutive encoding 0 pages ∧
      (text ≠ [] → ∀ page ∈ pages, page.text ≠ [])) ∧
    ∀ n, ∀ offset ≤ (bytesOf encoding text).length, ∃ before,
      FirstBoundary encoding text offset before ∧
      before ++ (pageOf encoding text offset (limits n)).text <+: text ∧
      (pageOf encoding text offset (limits n)).nextOffset =
        (bytesOf encoding (before ++ (pageOf encoding text offset (limits n)).text)).length := by
  refine ⟨?_, fun n offset bound => reads_anywhere text (room n) bound⟩
  exact readPages_boundary room [] text 0 (Nat.lt_succ_self _)

/-- Pages of four bytes of a text with a character of each length. -/
theorem textPages_lossless_sample :
    ∃ pages, readPages (bytesOf .utf8 "aé€😀".toList) .utf8 (fun _ => 4)
        ((bytesOf .utf8 "aé€😀".toList).length + 1) 0 0 = some pages ∧
      pages.flatMap (·.text) = "aé€😀".toList ∧ Consecutive .utf8 0 pages ∧
      ("aé€😀".toList ≠ [] → ∀ page ∈ pages, page.text ≠ []) :=
  (textPages_lossless .utf8 "aé€😀".toList fun _ => Nat.le_refl 4).1

end Ace.TextPage
