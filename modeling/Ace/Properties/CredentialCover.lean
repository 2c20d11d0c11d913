import Ace.Properties.CredentialStrings

/-!
# Credentials in well-formed JSON

The scan reads the key of every member of a JSON text, raw or encoded once more, and hides the
value of a secret one, unless the value counts something under a name that only sounds like a
secret. The part of a key after its last quote is a candidate for the key too, and where that part
is the name of a counter it vouches for the whole key.

## Main result

`jsonCredentialSpans_cover` and `counter_after_quote`
-/

namespace Ace.Redaction

open Script UnitJson

namespace JsonCredentials

/-! ### Reading a key -/

theorem quoted_eq (spelling : CodeUnits) :
    units "\"" ++ spelling ++ units "\"" = '"'.toNat :: spelling ++ ['"'.toNat] := rfl

theorem decodedKey_spelled {key spelling : CodeUnits} (spelled : Spelled key spelling) :
    decodedKey (units "\"" ++ spelling ++ units "\"") = some key := by
  rw [decodedKey, quoted_eq, parse_spelled spelled]

theorem printable_quoted {spelling : CodeUnits} (printable : ∀ u ∈ spelling, 0x20 ≤ u) :
    ∀ u ∈ units "\"" ++ spelling ++ units "\"", 0x20 ≤ u := by
  have quote : ∀ u ∈ units "\"", 0x20 ≤ u := by decide
  intro u member
  simp only [List.mem_append] at member
  rcases member with (first | inside) | last
  · exact quote u first
  · exact printable u inside
  · exact quote u last

/-- What is written of a string at a level of encoding. -/
def written (once : Bool) (spelling : CodeUnits) : CodeUnits :=
  delimiter once ++ wrap once spelling ++ delimiter once

theorem written_eq (once : Bool) (spelling : CodeUnits) :
    written once spelling = wrap once (units "\"" ++ spelling ++ units "\"") := by
  rw [wrap_append, wrap_append]
  cases once <;> rfl

theorem canonicalKey_written (once : Bool) {key spelling : CodeUnits} (spelled : Spelled key spelling)
    (printable : ∀ u ∈ spelling, 0x20 ≤ u) :
    (if once then decodedEncodedKey (written once spelling) else decodedKey (written once spelling)) =
      some key := by
  cases once with
  | false => exact decodedKey_spelled spelled
  | true =>
    have read := parse_spelled (spelled_respell (printable_quoted printable))
    rw [if_pos rfl, decodedEncodedKey, written_eq, wrap, if_pos rfl, quoted_eq, read]
    exact decodedKey_spelled spelled

def proseText (once : Bool) (tail back : CodeUnits) : CodeUnits := if once then back else tail

theorem proseKey_wrap (once : Bool) {tail back : CodeUnits} (spelled : Spelled tail back)
    (printable : ∀ u ∈ back, 0x20 ≤ u) :
    decodedKey (units "\"" ++ wrap once back ++ units "\"") = some (proseText once tail back) := by
  cases once with
  | false => exact decodedKey_spelled spelled
  | true => exact decodedKey_spelled (spelled_respell printable)

theorem mem_wrap {once : Bool} {u : Nat} {piece : CodeUnits} (member : u ∈ wrap once piece) :
    u ∈ piece ∨ u = '\\'.toNat := by
  cases once with
  | false => exact .inl member
  | true =>
    rw [wrap, if_pos rfl, respell, List.mem_flatMap] at member
    obtain ⟨v, inside, member⟩ := member
    split at member
    · rcases List.mem_cons.mp member with slash | same
      · exact .inr slash
      · exact .inl (List.mem_singleton.mp same ▸ inside)
    · exact .inl (List.mem_singleton.mp member ▸ inside)

theorem noQuote_wrap (once : Bool) {piece : CodeUnits} (plain : '"'.toNat ∉ piece) :
    '"'.toNat ∉ wrap once piece ++ lead once := by
  intro member
  rcases List.mem_append.mp member with inside | last
  · rcases mem_wrap inside with quote | slash
    · exact plain quote
    · exact absurd slash (by decide)
  · cases once <;> exact absurd last (by decide)

theorem prose_place (once : Bool) {key spelling tail back : CodeUnits}
    (tailOf : TailOf key spelling tail back) :
    ∃ before, delimiter once ++ wrap once spelling = before ++ '"'.toNat :: wrap once back := by
  cases tailOf with
  | whole _ same =>
    refine ⟨lead once, ?_⟩
    rw [same, delimiter_eq, List.append_assoc]
    rfl
  | after front written _ same =>
    refine ⟨delimiter once ++ wrap once written ++ lead once, ?_⟩
    have one : wrap once ('"'.toNat :: back) = lead once ++ '"'.toNat :: wrap once back := by
      change wrap once (['"'.toNat] ++ back) = _
      rw [wrap_append, wrap_quote, delimiter_eq, List.append_assoc]
      rfl
    rw [same, wrap_append, one]
    simp only [List.append_assoc]

/-- A key in a text, with what the scan knows of it at its closing quote. -/
structure KeyAt (once : Bool) (text front rest key spelling tail back : CodeUnits) : Prop where
  isText : text = front ++ written once spelling ++ ':'.toNat :: rest
  closed : runAfter 0 front = 0
  spelled : Spelled key spelling
  printable : ∀ u ∈ spelling, 0x20 ≤ u
  tailSpelled : Spelled tail back
  tailOf : TailOf key spelling tail back
  noQuote : '"'.toNat ∉ back

/-- Where the closing quote of a key is. -/
def closer (once : Bool) (front spelling : CodeUnits) : Nat :=
  (front ++ delimiter once ++ wrap once spelling ++ lead once).length

variable {once : Bool} {text front rest key spelling tail back : CodeUnits}

theorem runAfter_lead (closed : runAfter 0 front = 0) :
    closesAt once (runAfter 0 (front ++ lead once)) := by
  rw [runAfter_append, closed]
  exact closesAt_lead (Nat.zero_mod _)

theorem string_delimited (isText : text = front ++ written once spelling ++ rest)
    (closed : runAfter 0 front = 0) (spelled : Spelled key spelling) :
    IsQuote (closesAt once) text (front ++ lead once).length ∧
      IsNext (closesAt once) text (front ++ lead once).length (closer once front spelling) ∧
      IsQuote (closesAt once) text (closer once front spelling) := by
  have moved : text = (front ++ lead once) ++ '"'.toNat :: (wrap once spelling ++ lead once) ++
      '"'.toNat :: rest := by
    rw [isText, written, delimiter_eq]
    simp
  have next := delimited_isNext once (front ++ lead once) rest spelled
  rw [← moved] at next
  have place : (front ++ lead once).length + 1 + (wrap once spelling ++ lead once).length =
      closer once front spelling := by
    rw [closer, delimiter_eq]
    simp only [List.length_append, List.length_singleton]
    omega
  rw [place] at next
  have inside : closer once front spelling < text.length := by
    rw [← place, moved]
    simp only [List.length_append, List.length_cons]
    omega
  refine ⟨?_, next, next.2.2.1 inside⟩
  rw [moved, List.append_assoc]
  exact isQuote_at (runAfter_lead closed)

theorem closesAt_escaped {run : Nat} (closes : closesAt once run) : (run % 2 == 1) = once := by
  cases once with
  | false =>
    simp only [closesAt, Bool.false_eq_true, if_false, beq_iff_eq] at closes
    rw [beq_eq_false_iff_ne]
    omega
  | true =>
    simp only [closesAt, if_true, beq_iff_eq] at closes
    rw [beq_iff_eq]
    omega

theorem KeyAt.prose (k : KeyAt once text front rest key spelling tail back) :
    ∃ before, delimiter once ++ wrap once spelling = before ++ '"'.toNat :: wrap once back ∧
      IsLast (fun _ => true) text (closer once front spelling) (some (front ++ before).length) := by
  obtain ⟨before, same⟩ := prose_place once k.tailOf
  refine ⟨before, same, ?_⟩
  have moved : text = (front ++ before) ++ '"'.toNat :: (wrap once back ++ lead once) ++
      '"'.toNat :: (':'.toNat :: rest) := by
    rw [k.isText, written, same, delimiter_eq]
    simp
  have next := @between_isNext (fun _ => true) _ (front ++ before) (':'.toNat :: rest)
    (noClose_plain (noQuote_wrap once k.noQuote) 0) rfl
  rw [← moved] at next
  have place : (front ++ before).length + 1 + (wrap once back ++ lead once).length =
      closer once front spelling := by
    rw [closer, List.append_assoc front, same]
    simp only [List.length_append, List.length_cons]
    omega
  rw [place] at next
  apply next.isLast
  rw [moved, List.append_assoc]
  exact isQuote_at rfl

theorem KeyAt.known (k : KeyAt once text front rest key spelling tail back) {s : State}
    (scanned : Scanned text (closer once front spelling) s) :
    (s.slashes % 2 == 1) = once ∧ s.opener = some (front ++ lead once).length := by
  obtain ⟨opens, next, closes⟩ := string_delimited k.isText k.closed k.spelled
  have escaped : (s.slashes % 2 == 1) = once := by
    rw [scanned.slashes]
    exact closesAt_escaped closes.2
  refine ⟨escaped, ?_⟩
  rw [State.opener, escaped]
  cases once with
  | false => exact scanned.raw.unique (next.isLast opens)
  | true => exact scanned.encoded.unique (next.isLast opens)

/-- The key that is read at a closing quote: where the key is not too long, it is the key or
what stands after its last quote. -/
theorem KeyAt.read (k : KeyAt once text front rest key spelling tail back) {s : State}
    (scanned : Scanned text (closer once front spelling) s) :
    (keyAt text s (closer once front spelling)).2 = true ∨
      (written once spelling).length ≤ KEY_UNITS ∧ keyAt text s (closer once front spelling) =
        (some (if isSecretKey (proseText once tail back) then proseText once tail back else key),
          false) := by
  obtain ⟨escaped, opener⟩ := k.known scanned
  obtain ⟨before, same, last⟩ := k.prose
  have prose := scanned.prose.unique last
  rw [keyAt, escaped, opener, prose]
  have start : (front ++ lead once).length - (if once then 1 else 0) = front.length := by
    rw [List.length_append]
    cases once <;> simp [lead]
  have stop : closer once front spelling + 1 = front.length + (written once spelling).length := by
    rw [closer, written, delimiter_eq]
    simp only [List.length_append, List.length_singleton]
    omega
  have proseEnd : closer once front spelling - (if once then 1 else 0) =
      (front ++ before ++ ['"'.toNat]).length + (wrap once back).length := by
    have length := congrArg List.length same
    simp only [List.length_append, List.length_cons] at length ⊢
    rw [closer]
    simp only [List.length_append]
    cases once <;> simp [lead] at length ⊢ <;> omega
  have canonical : slice text front.length (front.length + (written once spelling).length) =
      written once spelling := by
    rw [k.isText, slice_between]
  have candidate : slice text ((front ++ before).length + 1)
      ((front ++ before ++ ['"'.toNat]).length + (wrap once back).length) = wrap once back := by
    have moved : text = (front ++ before ++ ['"'.toNat]) ++ wrap once back ++
        (delimiter once ++ ':'.toNat :: rest) := by
      rw [k.isText, written, same]
      simp
    have begins : (front ++ before).length + 1 = (front ++ before ++ ['"'.toNat]).length := by
      simp only [List.length_append, List.length_singleton]
    rw [moved, begins]
    exact slice_between _ _ _
  have shorter : (front ++ before ++ ['"'.toNat]).length + (wrap once back).length -
      (front ++ before).length + 1 ≤ (written once spelling).length := by
    rw [written, same, delimiter_eq]
    simp only [List.length_append, List.length_cons]
    omega
  have key' := canonicalKey_written once k.spelled k.printable
  have printable : ∀ u ∈ back, 0x20 ≤ u := by
    have within : ∀ u ∈ back, u ∈ spelling := by
      intro u member
      cases k.tailOf with
      | whole _ same => exact same ▸ member
      | after _ _ _ same => simp [same, member]
    exact fun u member => k.printable u (within u member)
  have prose' := proseKey_wrap once k.tailSpelled printable
  simp only [readKey, Option.any_some, start, stop, proseEnd, Nat.add_sub_cancel_left, canonical,
    candidate, decide_eq_true_eq, Option.isSome_some, Bool.true_and]
  by_cases long : KEY_UNITS < (written once spelling).length
  · exact .inl (by simp [long])
  · right
    refine ⟨Nat.le_of_not_lt long, ?_⟩
    have short : ¬KEY_UNITS < (front ++ before ++ ['"'.toNat]).length + (wrap once back).length -
        (front ++ before).length + 1 := by omega
    rw [if_neg long, if_neg short, key', prose']
    simp only [long, short, decide_false, Option.isNone_some, Bool.or_self, Option.any_some,
      Option.some_or]
    split <;> rfl

theorem pastSpace_here {position u : Nat} (here : text[position]? = some u)
    (dark : isSpaceUnit u = false) : pastSpace position (text.drop position) = position := by
  have known := (List.getElem?_eq_some_iff.mp here).1
  rw [List.drop_eq_getElem_cons known, pastSpace, (List.getElem?_eq_some_iff.mp here).2, dark]
  rfl

theorem KeyAt.closer_succ (k : KeyAt once text front rest key spelling tail back) :
    closer once front spelling + 1 = (front ++ written once spelling).length ∧
      text = (front ++ written once spelling) ++ ':'.toNat :: rest := by
  refine ⟨?_, k.isText⟩
  rw [closer, written, delimiter_eq]
  simp only [List.length_append, List.length_singleton]
  omega

theorem KeyAt.step (k : KeyAt once text front rest key spelling tail back) {s : State}
    (scanned : Scanned text (closer once front spelling) s) (secret : isSecretKey key = true)
    {u : Nat} (first : text[closer once front spelling + 2]? = some u)
    (dark : isSpaceUnit u = false) :
    (quoteStep text s (closer once front spelling)).1 =
      (valueSpan text (s.atQuote (closer once front spelling)) once
        (keyAt text s (closer once front spelling)).1 (keyAt text s (closer once front spelling)).2
        (closer once front spelling + 2)).1 := by
  obtain ⟨escaped, opener⟩ := k.known scanned
  obtain ⟨place, isText⟩ := k.closer_succ
  have colon : text[closer once front spelling + 1]? = some ':'.toNat := by
    rw [place, isText, getElem?_at]
  have isColon := (pastSpace_here colon (by decide)).symm
  have isValue := (pastSpace_here first dark).symm
  rw [quoteStep_eq s isColon isValue, if_neg (by simp [colon, opener]), escaped, if_neg]
  intro skipped
  rw [Bool.and_eq_true, Bool.not_eq_true'] at skipped
  rcases k.read scanned with damaged | ⟨_, read⟩
  · rw [damaged] at skipped
    exact absurd skipped.1 (by decide)
  · rw [read, Option.any_some] at skipped
    have plain := skipped.2
    split at plain
    next prose => simp [prose] at plain
    next => simp [secret] at plain

/-! ### Values -/

theorem delimiter_length (once : Bool) :
    (delimiter once).length = if once then 2 else 1 := by
  cases once <;> rfl

theorem lead_length (once : Bool) : (lead once).length = if once then 1 else 0 := by
  cases once <;> rfl

theorem closer_eq (front spelling : CodeUnits) : closer once front spelling =
    front.length + (delimiter once).length + (wrap once spelling).length + (lead once).length := by
  rw [closer, List.length_append, List.length_append, List.length_append]

theorem valueSpan_string {s : State} {damaged : Bool} {name : Option CodeUnits} {position : Nat}
    {content value after : CodeUnits} (scanned : Scanned text position s)
    (isText : text = front ++ written once content ++ after) (closed : runAfter 0 front = 0)
    (spelled : Spelled value content) (some_ : content ≠ []) (later : position ≤ front.length) :
    ∃ span, (valueSpan text s once name damaged front.length).1 = some span ∧
      span.start = (front ++ delimiter once).length ∧
      span.stop = (front ++ delimiter once ++ wrap once content).length := by
  obtain ⟨opens, next, closes⟩ := string_delimited isText closed spelled
  cases once with
  | false =>
    have length : 0 < content.length := List.length_pos_iff.mpr some_
    have quote : text[front.length]? = some '"'.toNat := by simpa [lead] using opens.1
    have found := seekQuote_isNext scanned.rawEnd later quote
    have stop : seekQuote (· % 2 == 0) text s.rawEnd front.length = closer false front content :=
      found.unique (by rwa [lead, if_neg (by decide), List.append_nil] at next)
    have place : closer false front content = front.length + 1 + content.length := by
      rw [closer_eq, delimiter_length, lead_length]
      rfl
    rw [valueSpan, if_pos quote, nextRawQuote_eq, stop]
    simp only
    rw [if_pos (by omega)]
    refine ⟨_, rfl, ?_, ?_⟩
    · rw [List.length_append, delimiter_length]
      rfl
    · rw [List.length_append, List.length_append, delimiter_length]
      simp only [place, wrap, Bool.false_eq_true, if_false]
  | true =>
    have length : 0 < (respell content).length := by
      cases content with
      | nil => exact absurd rfl some_
      | cons u rest =>
        rw [respell_cons, List.length_append]
        split <;> simp
    have behind : (front ++ lead true).length = front.length + 1 := by simp [lead]
    rw [behind] at opens next
    have slash : text[front.length]? = some '\\'.toNat := by
      have moved : text = front ++ '\\'.toNat :: ('"'.toNat :: (wrap true content ++
          delimiter true ++ after)) := by
        rw [isText, written, List.append_assoc]
        rfl
      rw [moved, getElem?_at]
    have found := seekQuote_isNext scanned.encodedEnd (Nat.le_succ_of_le later) opens.1
    have stop : seekQuote (· % 4 == 1) text s.encodedEnd (front.length + 1) =
        closer true front content := found.unique next
    have place : closer true front content = front.length + 2 + (respell content).length + 1 := by
      rw [closer_eq, delimiter_length, lead_length]
      rfl
    have inside : closer true front content < text.length := by
      have known := closes.1
      exact (List.getElem?_eq_some_iff.mp known).1
    rw [valueSpan, if_neg (by rw [slash]; decide), if_pos ⟨slash, opens.1⟩, nextEncodedQuote_eq, stop]
    simp only
    rw [if_pos inside, if_pos (by omega)]
    refine ⟨_, rfl, ?_, ?_⟩
    · rw [List.length_append, delimiter_length]
      rfl
    · rw [List.length_append, List.length_append, delimiter_length]
      simp only [place, wrap, if_true]
      omega

theorem pastScalar_token {token after : CodeUnits} {u : Nat}
    (part : ∀ v ∈ token, isDelimiter v = false) (stops : isDelimiter u = true) :
    ∀ position, pastScalar position (token ++ u :: after) = position + token.length := by
  induction token with
  | nil =>
    intro position
    rw [List.nil_append, pastScalar, if_pos stops]
    rfl
  | cons v rest ih =>
    intro position
    rw [List.cons_append, pastScalar, if_neg (by simp [part v List.mem_cons_self]),
      ih fun w member => part w (List.mem_cons_of_mem v member)]
    rw [List.length_cons]
    omega

theorem valueSpan_scalar {s : State} {damaged : Bool} {name : Option CodeUnits} {position u : Nat}
    {token after : CodeUnits} (cached : ScalarCached text position s.scalarEnd)
    (earlier : ∀ place, Before text position place → place ≤ front.length)
    (isText : text = front ++ token ++ u :: after) (some_ : token ≠ [])
    (part : ∀ v ∈ token, isDelimiter v = false ∧ v ∉ units "\"\\\x7b[")
    (stops : isDelimiter u = true)
    (other : damaged = true ∨
      (name.any fun key => (UnitJson.parse token).any (accountingCounter key ·)) = false) :
    ∃ span, (valueSpan text s once name damaged front.length).1 = some span ∧
      span.start = front.length ∧ span.stop = (front ++ token).length := by
  obtain ⟨v, rest, rfl⟩ : ∃ v rest, token = v :: rest := List.exists_cons_of_ne_nil some_
  have first : text[front.length]? = some v := by
    rw [isText, List.append_assoc, List.cons_append, getElem?_at]
  have plain := (part v List.mem_cons_self).2
  have differs : ∀ w ∈ units "\"\\\x7b[", some v ≠ some w :=
    fun w member same => plain (Option.some.inj same ▸ member)
  have stop : pastScalar front.length (text.drop front.length) =
      front.length + (v :: rest).length := by
    rw [isText, List.append_assoc, List.drop_left]
    exact pastScalar_token (fun w member => (part w member).1) stops _
  have read : slice text front.length (front.length + (v :: rest).length) = v :: rest := by
    rw [isText, slice_between]
  rw [valueSpan, first, if_neg (differs _ (by decide)), if_neg fun both => differs _ (by decide) both.1,
    if_pos ⟨differs _ (by decide), differs _ (by decide)⟩, scalarBoundary_eq cached earlier, stop]
  simp only
  rw [if_neg (by simp), read, if_neg]
  · refine ⟨_, rfl, rfl, ?_⟩
    rw [List.length_append]
  · intro counter
    rw [Bool.and_eq_true, Bool.and_eq_true, Bool.not_eq_true'] at counter
    rcases other with hurt | none_
    · rw [hurt] at counter
      exact absurd counter.1.1 (by decide)
    · rw [none_] at counter
      exact absurd counter.2 (by decide)

theorem closer_add (once : Bool) (front spelling : CodeUnits) : closer once front spelling + 2 =
    (front ++ written once spelling ++ [':'.toNat]).length := by
  rw [closer_eq, written, lead_length]
  simp only [List.length_append, List.length_singleton, delimiter_length]
  cases once <;> simp <;> omega

theorem written_head (once : Bool) (spelling : CodeUnits) :
    ∃ u rest, written once spelling = u :: rest ∧ isSpaceUnit u = false := by
  cases once with
  | false => exact ⟨_, _, rfl, by decide⟩
  | true => exact ⟨_, _, rfl, by decide⟩

theorem KeyAt.string_span {value content after : CodeUnits}
    (k : KeyAt once text front (written once content ++ after) key spelling tail back) {s : State}
    (scanned : Scanned text (closer once front spelling) s) (secret : isSecretKey key = true)
    (content' : Spelled value content) (some_ : content ≠ []) :
    ∃ span, (quoteStep text s (closer once front spelling)).1 = some span ∧
      span.start = (front ++ written once spelling ++ [':'.toNat] ++ delimiter once).length ∧
      span.stop = (front ++ written once spelling ++ [':'.toNat] ++ delimiter once ++
        wrap once content).length := by
  have isText : text =
      front ++ written once spelling ++ [':'.toNat] ++ written once content ++ after := by
    rw [k.isText]
    simp
  have place := closer_add once front spelling
  have quote := (string_delimited k.isText k.closed k.spelled).2.2.1
  obtain ⟨u, rest, isHead, dark⟩ := written_head once content
  have head : text[closer once front spelling + 2]? = some u := by
    rw [isText, place, isHead, List.append_assoc, List.cons_append, getElem?_at]
  have closed : runAfter 0 (front ++ written once spelling ++ [':'.toNat]) = 0 := by
    rw [runAfter_append]
    rfl
  rw [k.step scanned secret head dark, place]
  exact valueSpan_string (scanned.atQuote quote) isText closed content' some_ (by omega)

theorem KeyAt.scalar_span {token after : CodeUnits} {u : Nat}
    (k : KeyAt once text front (token ++ u :: after) key spelling tail back) {s : State}
    (scanned : Scanned text (closer once front spelling) s) (secret : isSecretKey key = true)
    (some_ : token ≠ []) (part : ∀ v ∈ token, isDelimiter v = false ∧ v ∉ units "\"\\\x7b[")
    (stops : isDelimiter u = true)
    (other : (keyAt text s (closer once front spelling)).2 = true ∨
      ((keyAt text s (closer once front spelling)).1.any fun key =>
        (UnitJson.parse token).any (accountingCounter key ·)) = false) :
    ∃ span, (quoteStep text s (closer once front spelling)).1 = some span ∧
      span.start = (front ++ written once spelling ++ [':'.toNat]).length ∧
      span.stop = (front ++ written once spelling ++ [':'.toNat] ++ token).length := by
  have isText : text = front ++ written once spelling ++ [':'.toNat] ++ token ++ u :: after := by
    rw [k.isText]
    simp
  have place := closer_add once front spelling
  have quote := (string_delimited k.isText k.closed k.spelled).2.2.1
  obtain ⟨v, rest, rfl⟩ := List.exists_cons_of_ne_nil some_
  have head : text[closer once front spelling + 2]? = some v := by
    rw [isText, place, List.append_assoc, List.cons_append, getElem?_at]
  have dark : isSpaceUnit v = false := by
    have first := (part v List.mem_cons_self).1
    rw [isDelimiter, Bool.or_eq_false_iff] at first
    exact first.1
  have cached : ScalarCached text (closer once front spelling)
      (s.atQuote (closer once front spelling)).scalarEnd := scanned.scalarEnd
  rw [k.step scanned secret head dark, place]
  apply valueSpan_scalar cached ?_ isText some_ part stops other
  intro j before
  have bound := before _ (Nat.le_refl _) quote
  omega

end JsonCredentials

/-! ### Members of a JSON text -/

/-- `JSON.stringify(v)`, as it is or encoded once more, in a text around it. -/
def jsonText (print : CodeUnits → CodeUnits) (once : Bool) (v : UnitJson) (pre post : CodeUnits) :
    CodeUnits :=
  pre ++ (if once then quote (stringify print v) else stringify print v) ++ post

/-- A piece of the JSON text as the text holds it. -/
def encodedPiece (once : Bool) (piece : CodeUnits) : CodeUnits :=
  if once then escapeText piece else piece

/-- Where the value of a member begins. -/
def valueStart (once : Bool) (pre : CodeUnits) (m : Member) : Nat :=
  (pre ++ (if once then units "\"" else []) ++
    encodedPiece once (m.before ++ quote m.key ++ units ":")).length

def isScalar : UnitJson → Bool
  | .null | .bool _ | .num _ => true
  | _ => false

/-- Where the secret of a member is: the content of a string, or the token of a scalar that is no
counter. -/
def secretPlace (print : CodeUnits → CodeUnits) (once : Bool) (pre : CodeUnits) (m : Member) :
    Option (Nat × Nat) :=
  if isSecretKey m.key then
    match m.value with
    | .str text =>
      if text = [] then none
      else
        let start := valueStart once pre m + (encodedPiece once (units "\"")).length
        some (start, start + (encodedPiece once (escapeText text)).length)
    | value =>
      if isScalar value && !accountingCounter m.key value then
        let start := valueStart once pre m
        some (start, start + (encodedPiece once (stringify print value)).length)
      else none
  else none

/-- The spans come in order, and every secret is inside one of them. -/
def Covers (print : CodeUnits → CodeUnits) (once : Bool) (v : UnitJson) (pre post : CodeUnits) :
    Prop :=
  (jsonCredentialSpans (jsonText print once v pre post)).Pairwise (fun a b => a.start < b.start) ∧
    ∀ m ∈ members print v, ∀ start stop, secretPlace print once pre m = some (start, stop) →
      ∃ span ∈ jsonCredentialSpans (jsonText print once v pre post),
        span.start ≤ start ∧ stop ≤ span.stop

def Unquoted (around : CodeUnits) : Prop := ∀ u ∈ around, u ≠ '"'.toNat ∧ u ≠ '\\'.toNat

def afterLastQuote (key : CodeUnits) : CodeUnits :=
  (key.reverse.takeWhile (· != '"'.toNat)).reverse

/-- The key ends in a quote and the name of a counter, and the value can be one's. -/
def vouchedFor (once : Bool) (m : Member) : Bool :=
  m.key.contains '"'.toNat && TOKEN_COUNTERS.contains (afterLastQuote m.key) &&
    nonnegativeCounter m.value && decide ((encodedPiece once (quote m.key)).length ≤ KEY_UNITS)

namespace JsonCredentials

theorem encodedPiece_clean {once : Bool} {piece : CodeUnits} (clean : Clean piece) :
    encodedPiece once piece = wrap once piece := by
  cases once with
  | false => rfl
  | true => exact escapeText_clean clean

theorem afterLastQuote_of_tail {front tail : CodeUnits} (noQuote : '"'.toNat ∉ tail) :
    afterLastQuote (front ++ '"'.toNat :: tail) = tail := by
  have passed : ∀ u ∈ tail.reverse, (u != '"'.toNat) = true := by
    intro u member
    rw [bne_iff_ne]
    exact fun same => noQuote (same ▸ List.mem_reverse.mp member)
  rw [afterLastQuote, List.reverse_append, List.reverse_cons, List.append_assoc,
    List.takeWhile_append_of_pos passed, List.singleton_append, List.takeWhile_cons_of_neg (by simp),
    List.append_nil, List.reverse_reverse]

theorem wrap_snoc {once : Bool} {front : CodeUnits} {u : Nat} (notQuote : u ≠ '"'.toNat)
    (notSlash : u ≠ '\\'.toNat) : wrap once (front ++ [u]) = wrap once front ++ [u] := by
  have one : wrap once [u] = [u] := wrap_plain fun v member => by
    rw [List.mem_singleton.mp member]
    exact ⟨notQuote, notSlash⟩
  rw [wrap_append, one]

theorem isNumeric_part {u : Nat} (numeric : isNumeric u = true) :
    isDelimiter u = false ∧ u ∉ units "\"\\\x7b[" := by
  have plain := isNumeric_plain numeric
  have members : ∀ v ∈ units "\"\\\x7b[", v ∈ units "\"\\\x7b[tfn,;\x7d]" := by decide
  have marks : ∀ v ∈ units ",;\x7d]", v ∈ units "\"\\\x7b[tfn,;\x7d]" := by decide
  refine ⟨?_, fun member => plain.2.2 (members u member)⟩
  have dark : isSpaceUnit u = false := by
    simp only [isSpaceUnit, Bool.or_eq_false_iff, Bool.and_eq_false_iff, beq_eq_false_iff_ne,
      decide_eq_false_iff_not]
    omega
  have mark : Script.oneOf ",;\x7d]" u = false := by
    rw [Script.oneOf, Bool.eq_false_iff]
    intro member
    exact plain.2.2 (marks u (List.contains_iff_mem.mp member))
  rw [isDelimiter, dark, mark]
  rfl

theorem scalar_counter {value : UnitJson} (scalar : isScalar value = true) (name : CodeUnits) :
    accountingCounter name value = (TOKEN_COUNTERS.contains name && nonnegativeCounter value) := by
  cases value with
  | str _ | arr _ | obj _ => cases scalar
  | _ => simp [accountingCounter, nativeTokenCounters]

theorem scalar_token {print : CodeUnits → CodeUnits} (prints : Prints print) {value : UnitJson}
    (json : IsJson value) (scalar : isScalar value = true) :
    stringify print value ≠ [] ∧
      (∀ u ∈ stringify print value, isDelimiter u = false ∧ u ∉ units "\"\\\x7b[") ∧
      ∃ read, UnitJson.parse (stringify print value) = some read ∧
        ∀ name, accountingCounter name read = accountingCounter name value := by
  cases value with
  | null =>
    rw [stringify]
    exact ⟨by decide, by decide, .null, by rfl, fun name => rfl⟩
  | bool b =>
    cases b with
    | true =>
      rw [stringify]
      exact ⟨by decide, by decide, .bool true, by rfl, fun name => rfl⟩
    | false =>
      rw [stringify]
      exact ⟨by decide, by decide, .bool false, by rfl, fun name => rfl⟩
  | num token =>
    rw [IsJson] at json
    obtain ⟨numeral, same⟩ := prints token json
    obtain ⟨some_, numeric⟩ := readNumber_numeric numeral.1
    rw [stringify]
    refine ⟨some_, fun u member => isNumeric_part (numeric u member), .num (print token),
      parse_numeral numeral.1, fun name => ?_⟩
    simp [accountingCounter, nonnegativeCounter, nativeTokenCounters, same]
  | str _ => cases scalar
  | arr _ => cases scalar
  | obj _ => cases scalar

/-! ### A member in the text -/

/-- What stands before the key of a member. -/
def frontOf (once : Bool) (pre : CodeUnits) (m : Member) : CodeUnits :=
  pre ++ (if once then units "\"" else []) ++ wrap once m.before

/-- What stands after the value of a member. -/
def backOf (once : Bool) (post : CodeUnits) (m : Member) : CodeUnits :=
  wrap once m.after ++ (if once then units "\"" else []) ++ post

variable {print : CodeUnits → CodeUnits} {v : UnitJson} {pre post : CodeUnits} {m : Member}

theorem placed_text (once : Bool) (pre post : CodeUnits) (placed : Placed print (stringify print v) m)
    (clean : Clean (stringify print v)) :
    jsonText print once v pre post = frontOf once pre m ++ written once (escapeText m.key) ++
      ':'.toNat :: (wrap once (stringify print m.value) ++ backOf once post m) := by
  have whole : jsonText print once v pre post =
      pre ++ (if once then units "\"" else []) ++ wrap once (stringify print v) ++
        (if once then units "\"" else []) ++ post := by
    cases once with
    | false => simp [jsonText, wrap]
    | true => simp [jsonText, wrap, quote, escapeText_clean clean]
  have colon : wrap once (units ":") = [':'.toNat] := by
    cases once <;> rfl
  rw [whole, ← placed.text, frontOf, backOf, written_eq, quote]
  simp only [wrap_append, colon, List.append_assoc, List.cons_append, List.nil_append]

theorem placed_closed (placed : Placed print (stringify print v) m) :
    runAfter 0 (frontOf once pre m) = 0 := by
  have last : ∀ u, u ≠ '"'.toNat → u ≠ '\\'.toNat → m.before.getLast? = some u →
      runAfter 0 (frontOf once pre m) = 0 := by
    intro u notQuote notSlash found
    obtain ⟨front, same⟩ := List.getLast?_eq_some_iff.mp found
    rw [frontOf, same, wrap_snoc notQuote notSlash, ← List.append_assoc, runAfter_append]
    exact if_neg notSlash
  rcases placed.opens with brace | comma
  · exact last _ (by decide) (by decide) brace
  · exact last _ (by decide) (by decide) comma

theorem placed_back (once : Bool) (post : CodeUnits) (placed : Placed print (stringify print v) m) :
    ∃ u rest, backOf once post m = u :: rest ∧ isDelimiter u = true := by
  have first : ∀ u, u ≠ '"'.toNat → u ≠ '\\'.toNat → isDelimiter u = true →
      m.after.head? = some u → ∃ u rest, backOf once post m = u :: rest ∧ isDelimiter u = true := by
    intro u notQuote notSlash delimits found
    obtain ⟨rest, same⟩ := List.head?_eq_some_iff.mp found
    have one : wrap once (u :: rest) = u :: wrap once rest := by
      cases once with
      | false => rfl
      | true => exact respell_of_plain notQuote notSlash rest
    exact ⟨u, _, by rw [backOf, same, one, List.cons_append, List.cons_append], delimits⟩
  rcases placed.closes with comma | brace
  · exact first _ (by decide) (by decide) (by decide) comma
  · exact first _ (by decide) (by decide) (by decide) brace

/-- What stands before the value of a member. -/
def valueFront (once : Bool) (pre : CodeUnits) (m : Member) : CodeUnits :=
  frontOf once pre m ++ written once (escapeText m.key) ++ [':'.toNat]

theorem placed_valueStart (once : Bool) (pre : CodeUnits) (placed : Placed print (stringify print v) m)
    (clean : Clean (stringify print v)) :
    valueStart once pre m = (valueFront once pre m).length := by
  have front : Clean (m.before ++ quote m.key) := by
    rw [← placed.text, List.append_assoc, List.append_assoc] at clean
    exact clean.front (by decide : isLowSurrogate ':'.toNat = false) rfl
  have piece := front.append (clean_of_all (by decide) : Clean (units ":"))
  have colon : wrap once (units ":") = [':'.toNat] := by
    cases once <;> rfl
  rw [valueStart, encodedPiece_clean piece, valueFront, frontOf, written_eq, quote]
  simp only [wrap_append, colon, List.append_assoc]

theorem vouched_of_read (prose : Bool) {tail back : CodeUnits}
    (clean : Clean (quote m.key)) (spelled : Spelled tail back)
    (tailOf : TailOf m.key (escapeText m.key) tail back) (noQuote : '"'.toNat ∉ tail)
    (short : (written once (escapeText m.key)).length ≤ KEY_UNITS)
    (scalar : isScalar m.value = true) (other : accountingCounter m.key m.value = false)
    (unvouched : vouchedFor once m = false) :
    accountingCounter (if prose then proseText once tail back else m.key) m.value = false := by
  split
  next =>
    rw [Bool.eq_false_iff]
    intro counts
    rw [scalar_counter scalar, Bool.and_eq_true] at counts
    obtain ⟨counter, number⟩ := counts
    have plain : ∀ name ∈ TOKEN_COUNTERS, '\\'.toNat ∉ name := by decide
    have same : proseText once tail back = tail := by
      cases once with
      | false => rfl
      | true => exact (spelled_self spelled (plain _ (List.contains_iff_mem.mp counter))).symm
    rw [same] at counter
    cases tailOf with
    | whole whole _ =>
      rw [scalar_counter scalar, ← whole, counter, number] at other
      cases other
    | after front _ key _ =>
      have written' : encodedPiece once (quote m.key) = written once (escapeText m.key) := by
        rw [encodedPiece_clean clean, written_eq, quote]
      have vouched : vouchedFor once m = true := by
        have quoted : m.key.contains '"'.toNat = true := by
          rw [List.contains_iff_mem, key]
          exact List.mem_append_right _ List.mem_cons_self
        have last : afterLastQuote m.key = tail := by
          rw [key, afterLastQuote_of_tail noQuote]
        rw [vouchedFor, written', number, last, counter, quoted, decide_eq_true short]
        rfl
      rw [vouched] at unvouched
      cases unvouched
  next => exact other

theorem secret_covered (prints : Prints print) (json : IsJson v) (member : m ∈ members print v)
    (unvouched : vouchedFor once m = false) {start stop : Nat}
    (secret : secretPlace print once pre m = some (start, stop)) :
    ∃ span ∈ jsonCredentialSpans (jsonText print once v pre post),
      span.start ≤ start ∧ stop ≤ span.stop := by
  have clean := clean_stringify prints v json
  have placed : Placed print (stringify print v) m :=
    membersIn_placed v json (by simp) m member
  have isText := placed_text once pre post placed clean
  generalize jsonText print once v pre post = text at isText ⊢
  have isStart := placed_valueStart once pre placed clean
  have key := spelled_escapeText placed.key
  obtain ⟨tail, back, tailSpelled, tailOf, noQuote, noQuote'⟩ := spelled_tail key
  have known : KeyAt once text (frontOf once pre m)
      (wrap once (stringify print m.value) ++ backOf once post m) m.key (escapeText m.key) tail back :=
    ⟨isText, placed_closed placed, key, (clean_escapeText m.key).printable, tailSpelled, tailOf,
      noQuote'⟩
  -- What the scan finds at the end of the key.
  have quote := (string_delimited known.isText known.closed known.spelled).2.2.1
  obtain ⟨s, scanned, yields⟩ := scan_at rfl scanned_start _ (Nat.zero_le _) quote
  rw [secretPlace] at secret
  split at secret
  next isSecret =>
    split at secret
    next content isValue =>
      -- a string
      split at secret
      next => cases secret
      next some_ =>
        obtain ⟨isFirst, isLast⟩ := Prod.mk.inj (Option.some.inj secret)
        have json' := placed.value
        rw [isValue, IsJson] at json'
        have content' := spelled_escapeText json'
        have nonempty : escapeText content ≠ [] := by
          intro empty
          rw [empty] at content'
          cases content'
          exact some_ rfl
        have isWritten : wrap once (stringify print m.value) = written once (escapeText content) := by
          rw [isValue, stringify, UnitJson.quote, written_eq]
        rw [isWritten] at known
        obtain ⟨span, found, begins, ends⟩ := known.string_span scanned isSecret content' nonempty
        have delimit : encodedPiece once (units "\"") = delimiter once := by
          cases once <;> rfl
        rw [encodedPiece_clean (clean_escapeText content)] at isLast
        rw [delimit, isStart, valueFront] at isFirst isLast
        refine ⟨span, yields span found, ?_, ?_⟩
        · rw [begins, List.length_append, isFirst]
        · rw [ends, List.length_append, List.length_append, isLast]
    next value other =>
      -- a scalar
      split at secret
      next both =>
        rw [Bool.and_eq_true, Bool.not_eq_true'] at both
        obtain ⟨scalar, noCounter⟩ := both
        obtain ⟨isFirst, isLast⟩ := Prod.mk.inj (Option.some.inj secret)
        obtain ⟨some_, part, read, parsed, counts⟩ := scalar_token prints placed.value scalar
        have plain : wrap once (stringify print m.value) = stringify print m.value := by
          apply wrap_plain
          intro u unit
          have marks := (part u unit).2
          exact ⟨fun same => marks (same ▸ by decide), fun same => marks (same ▸ by decide)⟩
        obtain ⟨u, after, isBack, stops⟩ := placed_back once post placed
        rw [plain, isBack] at known
        have unread : (keyAt text s (closer once (frontOf once pre m) (escapeText m.key))).2 = true ∨
            ((keyAt text s (closer once (frontOf once pre m) (escapeText m.key))).1.any fun key =>
              (UnitJson.parse (stringify print m.value)).any (accountingCounter key ·)) = false := by
          refine (known.read scanned).imp_right fun ⟨short, same⟩ => ?_
          have counted := vouched_of_read (isSecretKey (proseText once tail back))
            (clean_quote m.key) tailSpelled tailOf noQuote short scalar noCounter unvouched
          rw [same, parsed, Option.any_some, Option.any_some, counts]
          exact counted
        obtain ⟨span, found, begins, ends⟩ :=
          known.scalar_span scanned isSecret some_ part stops unread
        rw [encodedPiece_clean (clean_stringify prints _ placed.value), plain] at isLast
        rw [isStart, valueFront] at isFirst isLast
        refine ⟨span, yields span found, ?_, ?_⟩
        · rw [begins, isFirst]
        · rw [ends, List.length_append, isLast]
      next => cases secret
  next => cases secret

end JsonCredentials

/-- Where no key ends in a quote and the name of a counter, every secret of a JSON text is inside
one span, whatever stands around the text. -/
theorem jsonCredentialSpans_cover {print : CodeUnits → CodeUnits} (prints : Prints print)
    {v : UnitJson} (json : IsJson v) (once : Bool) (pre post : CodeUnits)
    (unvouched : ∀ m ∈ members print v, vouchedFor once m = false) :
    Covers print once v pre post := by
  constructor
  · exact JsonCredentials.scan_increasing rfl
  · intro m member start stop secret
    exact JsonCredentials.secret_covered prints json member (unvouched m member) secret

/-- A password in JSON text that is encoded once more. -/
theorem jsonCredentialSpans_cover_password :
    Covers id true (.obj [(units "password", .str (units "a\"b")), (units "tokens", .num (units "7"))])
      (units "got ") [] :=
  jsonCredentialSpans_cover (fun _ numeral => ⟨numeral, rfl⟩)
    (by simp only [IsJson, MembersAreJson, Numeral]; decide +kernel) true _ _ (by decide +kernel)

/-- A token behind a key that ends in a quote and the name of a counter is in no span. -/
theorem counter_after_quote :
    ¬∀ print, Prints print → ∀ v, IsJson v → ∀ once pre post, Unquoted pre → Unquoted post →
      Covers print once v pre post := by
  intro always
  have json : IsJson (.obj [(units "x\"inputTokens", .num (units "7"))]) := by
    simp only [IsJson, MembersAreJson, Numeral]
    decide +kernel
  have quiet : Unquoted [] := fun u member => absurd member List.not_mem_nil
  have covered := (always id (fun _ numeral => ⟨numeral, rfl⟩) _ json false [] [] quiet quiet).2
  have secret : secretPlace id false [] ⟨units "\x7b", units "x\"inputTokens", .num (units "7"),
      units "\x7d"⟩ = some (18, 19) := by decide +kernel
  have none_ : jsonCredentialSpans (jsonText id false
      (.obj [(units "x\"inputTokens", .num (units "7"))]) [] []) = [] := by decide +kernel
  obtain ⟨span, member, _⟩ := covered _ List.mem_cons_self 18 19 secret
  rw [none_] at member
  cases member

end Ace.Redaction
