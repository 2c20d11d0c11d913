import Ace.Properties.SensitiveSpans

/-!
# What the scan for credentials knows

At every quote the scan knows the last quotes before it by the backslashes in front of them, and
the boundaries that it has cached are those a search from the value at hand would find.

## Main result

`scan_at`: what the scan finds at a quote is found with variables that mean what they should.
-/

namespace Ace.Redaction.JsonCredentials

open Script

variable {text : CodeUnits}

/-! ### Quotes and the backslashes before them -/

/-- The run of backslashes at the end of a text that begins behind such a run. -/
def runAfter (run : Nat) (text : CodeUnits) : Nat :=
  text.foldl (fun run u => if u = '\\'.toNat then run + 1 else 0) run

theorem runAfter_append (run : Nat) (front back : CodeUnits) :
    runAfter run (front ++ back) = runAfter (runAfter run front) back :=
  List.foldl_append

def runBefore (text : CodeUnits) (position : Nat) : Nat := runAfter 0 (text.take position)

theorem runBefore_succ {position u : Nat} (here : text[position]? = some u) :
    runBefore text (position + 1) = if u = '\\'.toNat then runBefore text position + 1 else 0 := by
  rw [runBefore, List.take_add_one, here, runAfter_append]
  rfl

/-- A quote behind a run of backslashes of some kind. -/
def IsQuote (closes : Nat → Bool) (text : CodeUnits) (position : Nat) : Prop :=
  text[position]? = some '"'.toNat ∧ closes (runBefore text position)

/-- The last such quote before a position. -/
def IsLast (closes : Nat → Bool) (text : CodeUnits) (position : Nat) : Option Nat → Prop
  | none => ∀ j < position, ¬IsQuote closes text j
  | some last => last < position ∧ IsQuote closes text last ∧
    ∀ j, last < j → j < position → ¬IsQuote closes text j

/-- The next such quote after a position, or the end. -/
def IsNext (closes : Nat → Bool) (text : CodeUnits) (position next : Nat) : Prop :=
  position < next ∧ next ≤ text.length ∧ (next < text.length → IsQuote closes text next) ∧
    ∀ j, position < j → j < next → ¬IsQuote closes text j

theorem IsNext.unique {closes : Nat → Bool} {position first second : Nat}
    (one : IsNext closes text position first) (other : IsNext closes text position second) :
    first = second := by
  obtain ⟨after, bound, quote, none_⟩ := one
  obtain ⟨after', bound', quote', none'⟩ := other
  rcases Nat.lt_trichotomy first second with less | same | more
  · exact absurd (quote (by omega)) (none' first after less)
  · exact same
  · exact absurd (quote' (by omega)) (none_ second after' more)

theorem IsNext.isLast {closes : Nat → Bool} {position next : Nat}
    (isNext : IsNext closes text position next) (quote : IsQuote closes text position) :
    IsLast closes text next (some position) :=
  ⟨isNext.1, quote, isNext.2.2.2⟩

theorem IsLast.unique {closes : Nat → Bool} {position : Nat} {first second : Option Nat}
    (one : IsLast closes text position first) (other : IsLast closes text position second) :
    first = second := by
  cases first with
  | none =>
    cases second with
    | none => rfl
    | some last => exact absurd other.2.1 (one last other.1)
  | some last =>
    cases second with
    | none => exact absurd one.2.1 (other last one.1)
    | some last' =>
      rcases Nat.lt_trichotomy last last' with less | same | more
      · exact absurd other.2.1 (one.2.2 last' less other.1)
      · rw [same]
      · exact absurd one.2.1 (other.2.2 last more one.1)

theorem IsLast.step {closes : Nat → Bool} {position : Nat} {last : Option Nat}
    (isLast : IsLast closes text position last) :
    (IsQuote closes text position → IsLast closes text (position + 1) (some position)) ∧
      (¬IsQuote closes text position → IsLast closes text (position + 1) last) := by
  constructor
  · exact fun quote => ⟨Nat.lt_succ_self _, quote, fun j after before => by omega⟩
  · intro other
    cases last with
    | none =>
      intro j before
      rcases Nat.lt_succ_iff_lt_or_eq.mp before with earlier | rfl
      · exact isLast j earlier
      · exact other
    | some last =>
      refine ⟨Nat.lt_succ_of_lt isLast.1, isLast.2.1, fun j after before => ?_⟩
      rcases Nat.lt_succ_iff_lt_or_eq.mp before with earlier | rfl
      · exact isLast.2.2 j after earlier
      · exact other

theorem drop_cons {position u : Nat} {rest : CodeUnits} (isRest : u :: rest = text.drop position) :
    text[position]? = some u ∧ rest = text.drop (position + 1) := by
  constructor
  · have head := congrArg List.head? isRest
    rw [List.head?_drop] at head
    exact head.symm
  · rw [← List.tail_drop, ← isRest, List.tail_cons]

theorem nextQuote_spec (closes : Nat → Bool) {rest : CodeUnits} : ∀ {position run : Nat},
    rest = text.drop position → position ≤ text.length → run = runBefore text position →
    let next := nextQuote closes position run rest
    position ≤ next ∧ next ≤ text.length ∧ (next < text.length → IsQuote closes text next) ∧
      ∀ j, position ≤ j → j < next → ¬IsQuote closes text j := by
  induction rest with
  | nil =>
    intro position run isRest bound _
    have ended := List.drop_eq_nil_iff.mp isRest.symm
    simp only [nextQuote]
    exact ⟨Nat.le_refl _, bound, fun before => by omega, fun j after before => by omega⟩
  | cons u rest ih =>
    intro position run isRest bound isRun
    obtain ⟨here, tail⟩ := drop_cons isRest
    have known : position < text.length := (List.getElem?_eq_some_iff.mp here).1
    have run' := runBefore_succ here
    have further : ∀ {next : Nat}, ¬IsQuote closes text position →
        (position + 1 ≤ next ∧ next ≤ text.length ∧ (next < text.length → IsQuote closes text next) ∧
          ∀ j, position + 1 ≤ j → j < next → ¬IsQuote closes text j) →
        position ≤ next ∧ next ≤ text.length ∧ (next < text.length → IsQuote closes text next) ∧
          ∀ j, position ≤ j → j < next → ¬IsQuote closes text j := by
      rintro next other ⟨after, most, quote, none_⟩
      refine ⟨by omega, most, quote, fun j from_ before => ?_⟩
      rcases Nat.eq_or_lt_of_le from_ with rfl | later
      · exact other
      · exact none_ j later before
    simp only [nextQuote]
    split
    next slash =>
      have other : ¬IsQuote closes text position := by
        rintro ⟨quote, -⟩
        rw [here, slash] at quote
        exact absurd (Option.some.inj quote) (by decide)
      rw [if_pos slash] at run'
      exact further other (ih tail known (by rw [run', isRun]))
    next notSlash =>
      rw [if_neg notSlash] at run'
      split
      next closing =>
        exact ⟨Nat.le_refl _, bound, fun _ => ⟨by rw [here, closing.1], isRun ▸ closing.2⟩,
          fun j after before => by omega⟩
      next open_ =>
        have other : ¬IsQuote closes text position := by
          rintro ⟨quote, closed⟩
          rw [here] at quote
          exact open_ ⟨Option.some.inj quote, isRun ▸ closed⟩
        exact further other (ih tail known run'.symm)

theorem nextQuote_isNext {closes : Nat → Bool} {opener : Nat}
    (quote : text[opener]? = some '"'.toNat) :
    IsNext closes text opener (nextQuote closes (opener + 1) 0 (text.drop (opener + 1))) := by
  have known : opener < text.length := (List.getElem?_eq_some_iff.mp quote).1
  have run := runBefore_succ quote
  rw [if_neg (by decide)] at run
  obtain ⟨after, most, found, none_⟩ :=
    nextQuote_spec closes rfl known run.symm
  exact ⟨after, most, found, fun j later before => none_ j later before⟩

/-! ### Cached boundaries -/

/-- A place that no quote from a position on comes before. -/
def Before (text : CodeUnits) (position place : Nat) : Prop :=
  ∀ quote, position ≤ quote → text[quote]? = some '"'.toNat → place ≤ quote

theorem Before.succ {position place : Nat} (before : Before text position place) :
    Before text (position + 1) place :=
  fun quote after found => before quote (Nat.le_of_succ_le after) found

/-- A cached quote was looked for from a quote that none to come is before. -/
def Cached (closes : Nat → Bool) (text : CodeUnits) (position : Nat) (known : Option Nat) : Prop :=
  ∀ stop, known = some stop →
    ∃ opener, Before text position opener ∧ IsNext closes text opener stop

/-- A cached delimiter was looked for from a value that no quote to come is before. -/
def ScalarCached (text : CodeUnits) (position : Nat) (known : Option Nat) : Prop :=
  ∀ stop, known = some stop →
    ∃ value, Before text position value ∧ stop = pastScalar value (text.drop value)

/-- The search for a quote by way of its cache. -/
def seekQuote (closes : Nat → Bool) (text : CodeUnits) (known : Option Nat) (opener : Nat) : Nat :=
  match known with
  | some stop =>
    if opener < stop then stop else nextQuote closes (opener + 1) 0 (text.drop (opener + 1))
  | none => nextQuote closes (opener + 1) 0 (text.drop (opener + 1))

theorem nextRawQuote_eq (s : State) (opener : Nat) :
    nextRawQuote text s opener = (seekQuote (· % 2 == 0) text s.rawEnd opener,
      { s with rawEnd := some (seekQuote (· % 2 == 0) text s.rawEnd opener) }) := by
  obtain ⟨raw, encoded, prose, slashes, rawEnd, encodedEnd, scalarEnd⟩ := s
  cases rawEnd with
  | none => rfl
  | some known =>
    by_cases ahead : opener < known <;> simp [nextRawQuote, seekQuote, ahead]

theorem nextEncodedQuote_eq (s : State) (opener : Nat) :
    nextEncodedQuote text s opener = (seekQuote (· % 4 == 1) text s.encodedEnd opener,
      { s with encodedEnd := some (seekQuote (· % 4 == 1) text s.encodedEnd opener) }) := by
  obtain ⟨raw, encoded, prose, slashes, rawEnd, encodedEnd, scalarEnd⟩ := s
  cases encodedEnd with
  | none => rfl
  | some known =>
    by_cases ahead : opener < known <;> simp [nextEncodedQuote, seekQuote, ahead]

theorem seekQuote_isNext {closes : Nat → Bool} {position opener : Nat} {known : Option Nat}
    (cached : Cached closes text position known) (after : position ≤ opener)
    (quote : text[opener]? = some '"'.toNat) :
    IsNext closes text opener (seekQuote closes text known opener) := by
  cases known with
  | none => exact nextQuote_isNext quote
  | some stop =>
    rw [seekQuote]
    split
    next ahead =>
      obtain ⟨first, before, next⟩ := cached stop rfl
      have earlier := before opener after quote
      exact ⟨ahead, next.2.1, next.2.2.1, fun j later upTo => next.2.2.2 j (by omega) upTo⟩
    next => exact nextQuote_isNext quote

theorem pastScalar_spec {rest : CodeUnits} : ∀ {position : Nat}, rest = text.drop position →
    position ≤ pastScalar position rest ∧
      (∀ u, text[pastScalar position rest]? = some u → isDelimiter u = true) ∧
      ∀ j, position ≤ j → j < pastScalar position rest →
        ∃ u, text[j]? = some u ∧ isDelimiter u = false := by
  induction rest with
  | nil =>
    intro position isRest
    have ended := List.drop_eq_nil_iff.mp isRest.symm
    simp only [pastScalar]
    refine ⟨Nat.le_refl _, fun u found => ?_, fun j after before => by omega⟩
    rw [List.getElem?_eq_none ended] at found
    cases found
  | cons u rest ih =>
    intro position isRest
    obtain ⟨here, tail⟩ := drop_cons isRest
    simp only [pastScalar]
    split
    next delimiter =>
      refine ⟨Nat.le_refl _, fun v found => ?_, fun j after before => by omega⟩
      rw [here] at found
      exact Option.some.inj found ▸ delimiter
    next part =>
      obtain ⟨after, stops, passes⟩ := ih tail
      refine ⟨by omega, stops, fun j from_ before => ?_⟩
      rcases Nat.eq_or_lt_of_le from_ with rfl | later
      · exact ⟨u, here, by simpa using part⟩
      · exact passes j later before

theorem scalarBoundary_eq {s : State} {position value : Nat}
    (cached : ScalarCached text position s.scalarEnd)
    (later : ∀ place, Before text position place → place ≤ value) :
    scalarBoundary text s value = (pastScalar value (text.drop value),
      { s with scalarEnd := some (pastScalar value (text.drop value)) }) := by
  obtain ⟨raw, encoded, prose, slashes, rawEnd, encodedEnd, scalarEnd⟩ := s
  cases scalarEnd with
  | none => rfl
  | some known =>
    by_cases ahead : value ≤ known
    · obtain ⟨first, before, rfl⟩ := cached known rfl
      have earlier := later first before
      obtain ⟨_, stops, passes⟩ := @pastScalar_spec text _ first rfl
      obtain ⟨_, stops', passes'⟩ := @pastScalar_spec text _ value rfl
      have same : pastScalar first (text.drop first) = pastScalar value (text.drop value) := by
        rcases Nat.lt_trichotomy (pastScalar first (text.drop first))
          (pastScalar value (text.drop value)) with less | same | more
        · obtain ⟨u, here, part⟩ := passes' _ ahead less
          rw [stops u here] at part
          cases part
        · exact same
        · obtain ⟨u, here, part⟩ := passes (pastScalar value (text.drop value)) (by omega) more
          rw [stops' u here] at part
          cases part
      simp only [scalarBoundary, if_pos ahead, ← same]
    · simp [scalarBoundary, ahead]

/-! ### The variables of the scan -/

/-- The scan's variables, before a position, mean what they should. -/
structure Scanned (text : CodeUnits) (position : Nat) (s : State) : Prop where
  slashes : s.slashes = runBefore text position
  raw : IsLast (· % 2 == 0) text position s.raw
  encoded : IsLast (· % 4 == 1) text position s.encoded
  prose : IsLast (fun _ => true) text position s.prose
  rawEnd : Cached (· % 2 == 0) text position s.rawEnd
  encodedEnd : Cached (· % 4 == 1) text position s.encodedEnd
  scalarEnd : ScalarCached text position s.scalarEnd

theorem Cached.succ {closes : Nat → Bool} {position : Nat} {known : Option Nat}
    (cached : Cached closes text position known) : Cached closes text (position + 1) known := by
  intro stop found
  obtain ⟨opener, before, next⟩ := cached stop found
  exact ⟨opener, before.succ, next⟩

theorem ScalarCached.succ {position : Nat} {known : Option Nat}
    (cached : ScalarCached text position known) : ScalarCached text (position + 1) known := by
  intro stop found
  obtain ⟨value, before, same⟩ := cached stop found
  exact ⟨value, before.succ, same⟩

theorem scanned_start : Scanned text 0 {} := by
  have none_ : ∀ closes, IsLast closes text 0 none := fun _ j before => by omega
  have cached : ∀ closes, Cached closes text 0 none := fun _ stop found => by cases found
  exact ⟨rfl, none_ _, none_ _, none_ _, cached _, cached _, fun stop found => by cases found⟩

theorem Scanned.pass {position u slashes : Nat} {s : State} (scanned : Scanned text position s)
    (here : text[position]? = some u) (other : u ≠ '"'.toNat)
    (run : slashes = if u = '\\'.toNat then s.slashes + 1 else 0) :
    Scanned text (position + 1) { s with slashes } := by
  have noQuote : ∀ closes, ¬IsQuote closes text position := by
    rintro closes ⟨quote, -⟩
    rw [here] at quote
    exact other (Option.some.inj quote)
  refine ⟨?_, scanned.raw.step.2 (noQuote _), scanned.encoded.step.2 (noQuote _),
    scanned.prose.step.2 (noQuote _), scanned.rawEnd.succ, scanned.encodedEnd.succ,
    scanned.scalarEnd.succ⟩
  rw [runBefore_succ here, ← scanned.slashes]
  exact run

/-- What is noted at a quote before the value is looked for. -/
def State.atQuote (s : State) (position : Nat) : State :=
  { s with
    slashes := 0
    prose := some position
    raw := if s.slashes % 2 = 0 then some position else s.raw
    encoded := if s.slashes % 4 = 1 then some position else s.encoded }

theorem IsLast.atQuote {closes : Nat → Bool} {position : Nat} {last : Option Nat}
    (isLast : IsLast closes text position last) (quote : text[position]? = some '"'.toNat) :
    IsLast closes text (position + 1)
      (if closes (runBefore text position) then some position else last) := by
  split
  next closing => exact isLast.step.1 ⟨quote, closing⟩
  next other => exact isLast.step.2 fun found => other found.2

theorem Scanned.atQuote {position : Nat} {s : State} (scanned : Scanned text position s)
    (quote : text[position]? = some '"'.toNat) :
    Scanned text (position + 1) (s.atQuote position) := by
  have raw := scanned.raw.atQuote quote
  have encoded := scanned.encoded.atQuote quote
  simp only [beq_iff_eq] at raw encoded
  refine ⟨?_, ?_, ?_, ?_, scanned.rawEnd.succ, scanned.encodedEnd.succ, scanned.scalarEnd.succ⟩
  · rw [runBefore_succ quote, if_neg (by decide)]
    rfl
  · rw [State.atQuote, scanned.slashes]
    exact raw
  · rw [State.atQuote, scanned.slashes]
    exact encoded
  · exact scanned.prose.step.1 ⟨quote, rfl⟩

theorem Scanned.valueSpan {position value : Nat} {s : State} {escaped damaged : Bool}
    {key : Option CodeUnits} (scanned : Scanned text position s) (after : position ≤ value)
    (before : Before text position value) :
    Scanned text position (valueSpan text s escaped key damaged value).2 := by
  rw [JsonCredentials.valueSpan]
  split
  next quote =>
    -- a raw string
    have next := seekQuote_isNext scanned.rawEnd after quote
    have kept : Scanned text position
        { s with rawEnd := some (seekQuote (· % 2 == 0) text s.rawEnd value) } :=
      { scanned with rawEnd := fun stop found => ⟨value, before, Option.some.inj found ▸ next⟩ }
    rw [nextRawQuote_eq]
    simp only
    split <;> exact kept
  next =>
    split
    next encoded =>
      -- an encoded string
      have behind : Before text position (value + 1) := by
        intro quote later found
        rcases Nat.lt_or_eq_of_le (before quote later found) with past | rfl
        · exact past
        · rw [encoded.1] at found
          exact absurd (Option.some.inj found) (by decide)
      have next := seekQuote_isNext scanned.encodedEnd (Nat.le_succ_of_le after) encoded.2
      have kept : Scanned text position
          { s with encodedEnd := some (seekQuote (· % 4 == 1) text s.encodedEnd (value + 1)) } :=
        { scanned with
          encodedEnd := fun stop found => ⟨value + 1, behind, Option.some.inj found ▸ next⟩ }
      rw [nextEncodedQuote_eq]
      simp only
      generalize (if seekQuote (· % 4 == 1) text s.encodedEnd (value + 1) < text.length then
        seekQuote (· % 4 == 1) text s.encodedEnd (value + 1) - 1
        else seekQuote (· % 4 == 1) text s.encodedEnd (value + 1)) = contentEnd
      split <;> exact kept
    next =>
      split
      next =>
        -- a scalar
        have kept : Scanned text position (scalarBoundary text s value).2 := by
          obtain ⟨raw, encoded, prose, slashes, rawEnd, encodedEnd, scalarEnd⟩ := s
          have found : Scanned text position
              { raw, encoded, prose, slashes, rawEnd, encodedEnd
                scalarEnd := some (pastScalar value (text.drop value)) } :=
            { scanned with scalarEnd := fun stop found =>
                ⟨value, before, (Option.some.inj found).symm⟩ }
          cases scalarEnd with
          | none => exact found
          | some known =>
            simp only [scalarBoundary]
            split
            · exact scanned
            · exact found
        simp only
        split
        · exact kept
        · split <;> exact kept
      next => exact scanned

def State.opener (s : State) : Option Nat := if s.slashes % 2 == 1 then s.encoded else s.raw

/-- The key and the damage that are read at a quote. -/
def keyAt (text : CodeUnits) (s : State) (position : Nat) : Option CodeUnits × Bool :=
  readKey text (s.slashes % 2 == 1) s.opener s.prose position

theorem quoteStep_eq (s : State) {position colon value : Nat}
    (isColon : colon = pastSpace (position + 1) (text.drop (position + 1)))
    (isValue : value = pastSpace (colon + 1) (text.drop (colon + 1))) :
    quoteStep text s position =
      if text[colon]? ≠ some ':'.toNat ∨ (s.opener.isNone ∧ s.prose.isNone) then
        (none, s.atQuote position)
      else if !(keyAt text s position).2 && (keyAt text s position).1.any (!isSecretKey ·) then
        (none, s.atQuote position)
      else
        valueSpan text (s.atQuote position) (s.slashes % 2 == 1) (keyAt text s position).1
          (keyAt text s position).2 value := by
  subst isColon isValue
  rfl

theorem quoteStep_cases (s : State) (position : Nat) :
    (quoteStep text s position).2 = s.atQuote position ∨
    ∃ colon value, colon = pastSpace (position + 1) (text.drop (position + 1)) ∧
      text[colon]? = some ':'.toNat ∧ value = pastSpace (colon + 1) (text.drop (colon + 1)) ∧
      (quoteStep text s position).2 = (valueSpan text (s.atQuote position) (s.slashes % 2 == 1)
        (keyAt text s position).1 (keyAt text s position).2 value).2 := by
  rw [quoteStep_eq s rfl rfl]
  split
  next => exact .inl rfl
  next colon =>
    rw [not_or, not_not] at colon
    split
    · exact .inl rfl
    · exact .inr ⟨_, _, rfl, colon.1, rfl, rfl⟩

theorem Scanned.quoteStep {position : Nat} {s : State} (scanned : Scanned text position s)
    (quote : text[position]? = some '"'.toNat) :
    Scanned text (position + 1) (quoteStep text s position).2 := by
  rcases @quoteStep_cases text s position with
    same | ⟨colon, value, isColon, found, isValue, same⟩
  · rw [same]
    exact scanned.atQuote quote
  · rw [same]
    have first := pastSpace_le (text.drop (position + 1)) (position + 1)
    have second := pastSpace_le (text.drop (colon + 1)) (colon + 1)
    apply (scanned.atQuote quote).valueSpan (by omega)
    intro later after isQuote
    have bound := value_le_of_quote text position (isColon ▸ found) later after isQuote
    rw [← isColon, ← isValue] at bound
    exact bound

theorem scan_at {rest : CodeUnits} : ∀ {position : Nat} {s : State}, rest = text.drop position →
    Scanned text position s → ∀ quote, position ≤ quote → text[quote]? = some '"'.toNat →
    ∃ s', Scanned text quote s' ∧
      ∀ span, (quoteStep text s' quote).1 = some span → span ∈ scan text position s rest := by
  induction rest with
  | nil =>
    intro position s isRest _ quote after found
    have ended := List.drop_eq_nil_iff.mp isRest.symm
    rw [List.getElem?_eq_none (by omega)] at found
    cases found
  | cons u rest ih =>
    intro position s isRest scanned quote after found
    obtain ⟨here, tail⟩ := drop_cons isRest
    have later : u ≠ '"'.toNat → position + 1 ≤ quote := by
      intro other
      rcases Nat.eq_or_lt_of_le after with rfl | past
      · rw [here] at found
        exact absurd (Option.some.inj found) other
      · exact past
    rw [scan]
    split
    next slash =>
      have other : u ≠ '"'.toNat := by
        rw [slash]
        decide
      exact ih tail (scanned.pass here other (by rw [if_pos slash])) quote (later other) found
    next notSlash =>
      split
      next isQuote =>
        rcases Nat.eq_or_lt_of_le after with rfl | past
        · exact ⟨s, scanned, fun span step => List.mem_append_left _ (Option.mem_toList.mpr step)⟩
        · obtain ⟨s', known, yields⟩ := ih tail (scanned.quoteStep (isQuote ▸ here)) quote past found
          exact ⟨s', known, fun span step => List.mem_append_right _ (yields span step)⟩
      next other =>
        exact ih tail (scanned.pass here other (by rw [if_neg notSlash])) quote (later other) found

/-! ### The order of the spans -/

theorem scan_increasing {rest : CodeUnits} : ∀ {position : Nat} {s : State},
    rest = text.drop position →
    (scan text position s rest).Pairwise fun a b => a.start < b.start := by
  induction rest with
  | nil => exact fun _ => List.Pairwise.nil
  | cons u rest ih =>
    intro position s isRest
    obtain ⟨_, tail⟩ := drop_cons isRest
    rw [scan]
    split
    · exact ih tail
    · split
      · rw [List.pairwise_append]
        refine ⟨?_, ih tail, fun a inA b inB => ?_⟩
        · cases (JsonCredentials.quoteStep text s position).1 <;> simp
        · have bounds := quoteStep_start (Option.mem_toList.mp inA)
          obtain ⟨_, quote, after, found, start⟩ := scan_start text rest _ _ tail b inB
          have upper := bounds.2.2 quote after found
          omega
      · exact ih tail

end Ace.Redaction.JsonCredentials
