import Ace.Provider.SseParser

/-!
# Event streams in pieces

Feeding an event stream to the parser piece by piece is feeding it at once: what a piece leaves
unfinished is taken up by the next, also a CRLF whose halves are in two pieces. While no limit is
passed, what is emitted are the events that the text has when it is cut into lines and blocks.

## Main result

`feedAll_exact`
-/

namespace Ace.Provider.SseParser

open Script

/-! ### The reference reading -/

/-- The lines that a text ends, behind the beginning of one. -/
def linesFrom (line : CodeUnits) : CodeUnits → List CodeUnits
  | [] => []
  | [c] => if c = CR ∨ c = LF then [line] else []
  | c :: d :: rest =>
    if c = CR ∧ d = LF then line :: linesFrom [] rest
    else if c = CR ∨ c = LF then line :: linesFrom [] (d :: rest)
    else linesFrom (line ++ [c]) (d :: rest)

abbrev Field := CodeUnits × CodeUnits

def valuesOf (name : String) (block : List Field) : List CodeUnits :=
  (block.filter fun field => field.1 = units name).map Prod.snd

def eventOf (block : List Field) : CodeUnits := ((valuesOf "event" block).getLast?).getD []

/-- The last id without NUL, of the block or from before it. -/
def idOf (before : CodeUnits) (block : List Field) : CodeUnits :=
  (((valuesOf "id" block).filter fun id => !id.contains 0).getLast?).getD before

/-- The event that a blank line ends. -/
def blockEvent (id : CodeUnits) (block : List Field) : List SseEvent :=
  if valuesOf "data" block = [] then []
  else
    [{ data := joinData (valuesOf "data" block)
       event := if eventOf block = [] then units "message" else eventOf block
       id := idOf id block }]

/-- The events of lines, behind the fields of an unfinished block. -/
def eventsFrom (id : CodeUnits) (block : List Field) : List CodeUnits → List SseEvent
  | [] => []
  | line :: rest =>
    if line = [] then blockEvent id block ++ eventsFrom (idOf id block) [] rest
    else eventsFrom id (block ++ (fieldOf line).toList) rest

/-- The events of a text. -/
def reference (lastEventId text : CodeUnits) : List SseEvent :=
  eventsFrom lastEventId [] (linesFrom [] text)

/-! ### Outcomes -/

/-- The same events, and the same end: the state, or what is left to see of it after a throw. -/
structure Alike (o o' : Outcome) : Prop where
  events : o.events = o'.events
  thrown : o.thrown = o'.thrown
  lastEventId : o.state.lastEventId = o'.state.lastEventId
  retryMs : o.state.retryMs = o'.state.retryMs
  state : o.thrown = false → o.state = o'.state

theorem Alike.refl (o : Outcome) : Alike o o := ⟨rfl, rfl, rfl, rfl, fun _ => rfl⟩

theorem Alike.symm {o o' : Outcome} (alike : Alike o o') : Alike o' o :=
  ⟨alike.events.symm, alike.thrown.symm, alike.lastEventId.symm, alike.retryMs.symm,
    fun quiet => (alike.state (alike.thrown.trans quiet)).symm⟩

theorem Alike.trans {o o' o'' : Outcome} (first : Alike o o') (second : Alike o' o'') :
    Alike o o'' :=
  ⟨first.events.trans second.events, first.thrown.trans second.thrown,
    first.lastEventId.trans second.lastEventId, first.retryMs.trans second.retryMs,
    fun quiet => (first.state quiet).trans (second.state (first.thrown.symm.trans quiet))⟩

@[simp] theorem andThen_thrown {o : Outcome} (thrown : o.thrown = true) (f : State → Outcome) :
    o.andThen f = o := by
  rw [Outcome.andThen, if_pos thrown]

theorem andThen_quiet {o : Outcome} (quiet : o.thrown = false) (f : State → Outcome) :
    o.andThen f = { f o.state with events := o.events ++ (f o.state).events } := by
  rw [Outcome.andThen, quiet]
  rfl

theorem andThen_assoc (o : Outcome) (f g : State → Outcome) :
    (o.andThen f).andThen g = o.andThen fun s => (f s).andThen g := by
  cases quiet : o.thrown with
  | true => rw [andThen_thrown quiet, andThen_thrown quiet, andThen_thrown quiet]
  | false =>
    rw [andThen_quiet quiet, andThen_quiet quiet]
    cases next : (f o.state).thrown with
    | true => rw [andThen_thrown (by exact next), andThen_thrown next]
    | false =>
      rw [andThen_quiet (by exact next), andThen_quiet next]
      simp

theorem andThen_congr {o : Outcome} {f g : State → Outcome}
    (same : o.thrown = false → Alike (f o.state) (g o.state)) :
    Alike (o.andThen f) (o.andThen g) := by
  cases quiet : o.thrown with
  | true =>
    rw [andThen_thrown quiet, andThen_thrown quiet]
    exact .refl o
  | false =>
    have alike := same quiet
    rw [andThen_quiet quiet, andThen_quiet quiet]
    exact ⟨by simp only [alike.events], alike.thrown, alike.lastEventId, alike.retryMs, alike.state⟩

theorem Alike.andThen {o o' : Outcome} (alike : Alike o o') (f : State → Outcome) :
    Alike (o.andThen f) (o'.andThen f) := by
  cases quiet : o.thrown with
  | true =>
    rw [andThen_thrown quiet, andThen_thrown (alike.thrown ▸ quiet)]
    exact alike
  | false =>
    rw [andThen_quiet quiet, andThen_quiet (alike.thrown ▸ quiet), alike.events, alike.state quiet]
    exact .refl _

/-! ### A line in pieces -/

variable (limits : SseLimits)

theorem append_append (s : State) {front back : CodeUnits} (apart : NoPairAcross front back) :
    Alike (append limits s (front ++ back))
      ((append limits s front).andThen fun s => append limits s back) := by
  have bytes := utf8Length_append apart
  by_cases over_ : limits.maxLineBytes < s.lineBytes + utf8Length front
  · have beyond : limits.maxLineBytes < s.lineBytes + utf8Length (front ++ back) := by omega
    rw [andThen_thrown (by simp [append, over_])]
    simp only [append, if_pos over_, if_pos beyond]
    exact ⟨rfl, rfl, rfl, rfl, fun quiet => by cases quiet⟩
  · have first : append limits s front =
        { state := { s with lineBytes := s.lineBytes + utf8Length front, line := s.line ++ front } } := by
      simp only [append, if_neg over_]
    rw [first, andThen_quiet rfl]
    by_cases beyond : limits.maxLineBytes < s.lineBytes + utf8Length (front ++ back)
    · have beyond' : limits.maxLineBytes < s.lineBytes + utf8Length front + utf8Length back := by omega
      simp only [append, if_pos beyond, if_pos beyond']
      exact ⟨rfl, rfl, rfl, rfl, fun quiet => by cases quiet⟩
    · have within : ¬limits.maxLineBytes < s.lineBytes + utf8Length front + utf8Length back := by omega
      simp only [append, bytes, ← Nat.add_assoc, if_neg within, List.append_assoc, List.nil_append]
      exact .refl _

theorem endLine_append (s : State) {front back : CodeUnits} (apart : NoPairAcross front back)
    (char : Nat) : Alike (endLine limits s (front ++ back) char)
      ((append limits s front).andThen fun s => endLine limits s back char) := by
  have joined := (append_append limits s apart).andThen fun s =>
    (accept limits s s.line).andThen fun s =>
      { state := { s with line := [], lineBytes := 0, skipLf := char == CR } }
  rw [andThen_assoc] at joined
  exact joined

theorem feedFrom_cons {s : State} (open_ : s.skipLf = false) (piece : CodeUnits) (char : Nat)
    (rest : CodeUnits) : feedFrom limits s piece (char :: rest) =
      if char ≠ CR ∧ char ≠ LF then feedFrom limits s (piece ++ [char]) rest
      else (endLine limits s piece char).andThen fun s => feedFrom limits s [] rest := by
  obtain ⟨lastEventId, retryMs, line, lineBytes, eventBytes, skipLf, data, event, id⟩ := s
  cases open_
  rfl

theorem feedFrom_resume (rest : CodeUnits) : ∀ {s : State} {front : CodeUnits} (back : CodeUnits),
    s.skipLf = false → NoPairAcross front (back ++ rest) →
    Alike (feedFrom limits s (front ++ back) rest)
      ((append limits s front).andThen fun s => feedFrom limits s back rest) := by
  induction rest with
  | nil =>
    intro s front back _ apart
    rw [List.append_nil] at apart
    exact append_append limits s apart
  | cons char rest ih =>
    intro s front back open_ apart
    have unfolded : Alike
        ((append limits s front).andThen fun s => feedFrom limits s back (char :: rest))
        ((append limits s front).andThen fun s =>
          if char ≠ CR ∧ char ≠ LF then feedFrom limits s (back ++ [char]) rest
          else (endLine limits s back char).andThen fun s => feedFrom limits s [] rest) := by
      apply andThen_congr
      intro _
      have kept : (append limits s front).state.skipLf = false := by
        rw [append]
        split <;> exact open_
      rw [feedFrom_cons limits kept]
      exact .refl _
    refine Alike.trans ?_ unfolded.symm
    rw [feedFrom_cons limits open_]
    split
    · rw [List.append_assoc]
      apply ih (back ++ [char]) open_
      rwa [List.append_assoc]
    · have apart' : NoPairAcross front back := by
        intro u v last head
        apply apart u v last
        rw [List.head?_append, head]
        rfl
      have joined := (endLine_append limits s apart' char).andThen fun s =>
        feedFrom limits s [] rest
      rw [andThen_assoc] at joined
      exact joined

/-! ### Pieces of a text -/

/-- Between two pieces the bytes of the line are within the limit, and behind a CR it is empty. -/
structure Ready (limits : SseLimits) (s : State) : Prop where
  within : s.lineBytes ≤ limits.maxLineBytes
  empty : s.skipLf = true → s.lineBytes = 0

variable {limits}

theorem append_nil {s : State} (within : s.lineBytes ≤ limits.maxLineBytes) :
    append limits s [] = { state := s } := by
  have notOver : ¬limits.maxLineBytes < s.lineBytes := by omega
  simp [append, utf8Length, notOver]

theorem endLine_quiet {s : State} {piece : CodeUnits} {char : Nat}
    (quiet : (endLine limits s piece char).thrown = false) :
    ∃ bytes o, o = accept limits { s with lineBytes := bytes, line := s.line ++ piece }
        (s.line ++ piece) ∧ o.thrown = false ∧
      endLine limits s piece char =
        { events := o.events
          state := { o.state with line := [], lineBytes := 0, skipLf := char == CR } } := by
  rw [endLine] at quiet ⊢
  by_cases beyond : limits.maxLineBytes < s.lineBytes + utf8Length piece
  · have first : (append limits s piece).thrown = true := by simp [append, beyond]
    rw [andThen_thrown first, first] at quiet
    cases quiet
  · have first : append limits s piece = { state := { s with
        lineBytes := s.lineBytes + utf8Length piece, line := s.line ++ piece } } := by
      simp only [append, if_neg beyond]
    rw [first, andThen_quiet rfl] at quiet ⊢
    refine ⟨s.lineBytes + utf8Length piece, _, rfl, ?_⟩
    simp only at quiet ⊢
    generalize accept limits { s with lineBytes := s.lineBytes + utf8Length piece
                                      line := s.line ++ piece } (s.line ++ piece) = o at quiet ⊢
    cases second : o.thrown with
    | true =>
      rw [andThen_thrown second, second] at quiet
      cases quiet
    | false =>
      rw [andThen_quiet second]
      simp

theorem feedFrom_ready (text : CodeUnits) : ∀ {s : State} {piece : CodeUnits},
    (s.skipLf = true → piece = [] ∧ s.lineBytes = 0) →
    (feedFrom limits s piece text).thrown = false →
    Ready limits (feedFrom limits s piece text).state := by
  induction text with
  | nil =>
    intro s piece skipping quiet
    rw [feedFrom, append] at quiet ⊢
    split at quiet
    · cases quiet
    next within =>
      rw [if_neg within]
      refine ⟨Nat.le_of_not_lt within, fun skip => ?_⟩
      obtain ⟨rfl, zero⟩ := skipping skip
      simp [zero, utf8Length]
  | cons char text ih =>
    intro s piece skipping quiet
    rw [feedFrom] at quiet ⊢
    split at quiet
    next skip =>
      rw [if_pos skip]
      exact ih (fun skip => by cases skip) quiet
    next notSkip =>
      rw [if_neg notSkip]
      simp only at quiet ⊢
      split at quiet
      next plain =>
        rw [if_pos plain]
        exact ih (fun skip => by cases skip) quiet
      next delimiter =>
        rw [if_neg delimiter]
        cases first : (endLine limits { s with skipLf := false } piece char).thrown with
        | true =>
          rw [andThen_thrown first, first] at quiet
          cases quiet
        | false =>
          rw [andThen_quiet first] at quiet ⊢
          obtain ⟨_, _, _, _, ended⟩ := endLine_quiet first
          exact ih (fun _ => ⟨rfl, by rw [ended]⟩) quiet

theorem feedFrom_append (front : CodeUnits) : ∀ {s : State} {piece back : CodeUnits},
    Ready limits s → (s.skipLf = true → piece = []) → NoPairAcross (piece ++ front) back →
    Alike (feedFrom limits s piece (front ++ back))
      ((feedFrom limits s piece front).andThen fun s => feedFrom limits s [] back) := by
  induction front with
  | nil =>
    intro s piece back ready skipping apart
    rw [List.append_nil] at apart
    cases open_ : s.skipLf with
    | false =>
      have resumed := feedFrom_resume limits back [] open_ apart
      rwa [List.append_nil] at resumed
    | true =>
      rw [skipping open_, List.nil_append, feedFrom, append_nil ready.within, andThen_quiet rfl]
      exact .refl _
  | cons char front ih =>
    intro s piece back ready skipping apart
    have later : ∀ piece', (piece' = [] ∨ piece' = piece ++ [char]) →
        NoPairAcross (piece' ++ front) back := by
      rintro piece' (rfl | rfl)
      · exact @NoPairAcross.of_append (piece ++ [char]) _ _ (by simpa using apart)
      · simpa using apart
    rw [List.cons_append, feedFrom, feedFrom]
    split
    next skip =>
      exact ih ⟨ready.within, fun skip => by cases skip⟩ (fun skip => by cases skip)
        (later [] (.inl rfl))
    next =>
      simp only
      split
      next =>
        exact ih ⟨ready.within, fun skip => by cases skip⟩ (fun skip => by cases skip)
          (later _ (.inr rfl))
      next =>
        rw [andThen_assoc]
        apply andThen_congr
        intro quiet
        obtain ⟨_, _, _, _, ended⟩ := endLine_quiet quiet
        have fresh : (endLine limits { s with skipLf := false } piece char).state.lineBytes = 0 := by
          rw [ended]
        exact ih ⟨by omega, fun _ => fresh⟩ (fun _ => rfl) (later [] (.inl rfl))

/-- No piece ends between the halves of a pair. -/
def Unbroken : List CodeUnits → Prop
  | [] => True
  | piece :: pieces => NoPairAcross piece pieces.flatten ∧ Unbroken pieces

theorem feedAll_alike (pieces : List CodeUnits) : ∀ {s : State}, Ready limits s →
    Unbroken pieces → Alike (feedAll limits s pieces) (feed limits s pieces.flatten) := by
  induction pieces with
  | nil =>
    intro s ready _
    rw [List.flatten_nil, feed, feedFrom, append_nil ready.within]
    exact .refl _
  | cons piece pieces ih =>
    intro s ready unbroken
    have joined := @feedFrom_append limits piece s [] pieces.flatten ready
      (fun _ => rfl) unbroken.1
    refine Alike.trans ?_ joined.symm
    apply andThen_congr
    intro quiet
    exact ih (feedFrom_ready piece (fun skip => ⟨rfl, ready.empty skip⟩) quiet) unbroken.2

/-! ### Lines -/

/-- What is left of a text when an LF at its front belongs to a CR before it. -/
def afterCr (text : CodeUnits) : CodeUnits :=
  if text.head? = some LF then text.tail else text

theorem linesFrom_plain {line : CodeUnits} {c : Nat} (plain : c ≠ CR ∧ c ≠ LF) (rest : CodeUnits) :
    linesFrom line (c :: rest) = linesFrom (line ++ [c]) rest := by
  have other : ¬(c = CR ∨ c = LF) := by simpa using plain
  cases rest with
  | nil => simp only [linesFrom, if_neg other]
  | cons d rest => rw [linesFrom, if_neg fun both => plain.1 both.1, if_neg other]

theorem linesFrom_lf (line rest : CodeUnits) :
    linesFrom line (LF :: rest) = line :: linesFrom [] rest := by
  have notCr : LF ≠ CR := by decide
  cases rest with
  | nil => rfl
  | cons d rest => rw [linesFrom, if_neg fun both => notCr both.1, if_pos (.inr rfl)]

theorem linesFrom_cr (line rest : CodeUnits) :
    linesFrom line (CR :: rest) = line :: linesFrom [] (afterCr rest) := by
  cases rest with
  | nil => rfl
  | cons d rest =>
    rw [linesFrom]
    by_cases newline : d = LF
    · rw [if_pos ⟨rfl, newline⟩, afterCr, newline]
      rfl
    · rw [if_neg fun both => newline both.2, if_pos (.inl rfl), afterCr, List.head?_cons,
        if_neg fun same => newline (Option.some.inj same)]

/-! ### Blocks -/

theorem valuesOf_append (name : String) (block : List Field) (field value : CodeUnits) :
    valuesOf name (block ++ [(field, value)]) =
      valuesOf name block ++ (if field = units name then [value] else []) := by
  rw [valuesOf, valuesOf, List.filter_append, List.map_append]
  by_cases same : field = units name <;> simp [same]

/-- What the parser keeps of an unfinished block. -/
structure Keeps (s : State) (id : CodeUnits) (block : List Field) : Prop where
  data : s.data = valuesOf "data" block
  event : s.event = eventOf block
  id : s.id = idOf id block

theorem acceptField_state {s : State} {field value : CodeUnits}
    (quiet : (acceptField limits s field value).thrown = false) :
    (acceptField limits s field value).events = [] ∧
      (acceptField limits s field value).state.data =
        s.data ++ (if field = units "data" then [value] else []) ∧
      (acceptField limits s field value).state.event =
        (if field = units "event" then value else s.event) ∧
      (acceptField limits s field value).state.id =
        (if field = units "id" ∧ value.contains 0 = false then value else s.id) := by
  by_cases isData : field = units "data"
  · subst isData
    have notEvent : units "data" ≠ units "event" := by decide
    have notId : units "data" ≠ units "id" := by decide
    by_cases beyond : limits.maxEventBytes < s.eventBytes + (utf8Length value + if s.data ≠ [] then 1 else 0)
    · rw [acceptField, if_pos rfl, if_pos beyond] at quiet
      cases quiet
    · have notBoth : ¬(units "data" = units "id" ∧ value.contains 0 = false) := fun both => notId both.1
      have accepted : acceptField limits s (units "data") value = { state := { s with
          eventBytes := s.eventBytes + (utf8Length value + if s.data ≠ [] then 1 else 0)
          data := s.data ++ [value] } } := by
        simp only [acceptField, if_true, if_neg beyond]
      rw [accepted, if_pos rfl, if_neg notEvent, if_neg notBoth]
      exact ⟨rfl, rfl, rfl, rfl⟩
  · rw [acceptField, if_neg isData, if_neg isData, List.append_nil]
    by_cases isEvent : field = units "event"
    · have notId : field ≠ units "id" := by
        rw [isEvent]
        decide
      have notBoth : ¬(field = units "id" ∧ value.contains 0 = false) := fun both => notId both.1
      rw [if_pos isEvent, if_pos isEvent, if_neg notBoth]
      exact ⟨rfl, rfl, rfl, rfl⟩
    · rw [if_neg isEvent, if_neg isEvent]
      by_cases isId : field = units "id"
      · rw [if_pos isId]
        cases nul : value.contains 0 with
        | true => simp
        | false => simp [isId]
      · have notBoth : ¬(field = units "id" ∧ value.contains 0 = false) := fun both => isId both.1
        rw [if_neg isId, if_neg notBoth]
        by_cases isRetry : field = units "retry"
        · rw [if_pos isRetry]
          cases retryOf value <;> exact ⟨rfl, rfl, rfl, rfl⟩
        · rw [if_neg isRetry]
          exact ⟨rfl, rfl, rfl, rfl⟩

theorem acceptField_keeps {s : State} {id field value : CodeUnits} {block : List Field}
    (keeps : Keeps s id block) (quiet : (acceptField limits s field value).thrown = false) :
    (acceptField limits s field value).events = [] ∧
      Keeps (acceptField limits s field value).state id (block ++ [(field, value)]) := by
  obtain ⟨events, data, event, ids⟩ := acceptField_state quiet
  refine ⟨events, ?_, ?_, ?_⟩
  · rw [data, valuesOf_append, keeps.data]
  · rw [event, eventOf, valuesOf_append]
    split
    · rw [List.getLast?_concat]
      rfl
    · rw [List.append_nil, keeps.event, eventOf]
  · rw [ids, idOf, valuesOf_append]
    by_cases isId : field = units "id"
    · rw [if_pos isId, List.filter_append]
      cases nul : value.contains 0 with
      | true =>
        have dropped : [value].filter (fun id => !id.contains 0) = [] := by
          rw [List.filter_cons_of_neg (by rw [nul]; decide), List.filter_nil]
        rw [dropped, List.append_nil, if_neg (by simp), keeps.id, idOf]
      | false =>
        have kept : [value].filter (fun id => !id.contains 0) = [value] := by
          rw [List.filter_cons_of_pos (by rw [nul]; decide), List.filter_nil]
        rw [kept, List.getLast?_concat, if_pos ⟨isId, rfl⟩]
        rfl
    · have notBoth : ¬(field = units "id" ∧ value.contains 0 = false) := fun both => isId both.1
      rw [if_neg notBoth, if_neg isId, List.append_nil, keeps.id, idOf]

theorem accept_keeps {s : State} {id line : CodeUnits} {block : List Field}
    (keeps : Keeps s id block) (quiet : (accept limits s line).thrown = false) (rest : List CodeUnits) :
    ∃ id' block', Keeps (accept limits s line).state id' block' ∧
      eventsFrom id block (line :: rest) = (accept limits s line).events ++ eventsFrom id' block' rest := by
  rw [eventsFrom, accept]
  rw [accept] at quiet
  by_cases blank : line = []
  · rw [if_pos blank, if_pos blank]
    refine ⟨idOf id block, [], ⟨rfl, rfl, keeps.id⟩, ?_⟩
    congr 1
    rw [blockEvent, keeps.data, keeps.event, keeps.id]
    by_cases nothing : valuesOf "data" block = [] <;> simp [nothing]
  · rw [if_neg blank, if_neg blank]
    cases field : fieldOf line with
    | none => exact ⟨id, block, keeps, by simp⟩
    | some pair =>
      obtain ⟨name, value⟩ := pair
      rw [if_neg blank, field] at quiet
      simp only at quiet ⊢
      obtain ⟨events, keeps'⟩ := acceptField_keeps keeps quiet
      exact ⟨id, block ++ [(name, value)], keeps', by rw [events]; rfl⟩

theorem linesFrom_delimiter {char : Nat} (delimiter : ¬(char ≠ CR ∧ char ≠ LF))
    (line rest : CodeUnits) : linesFrom line (char :: rest) =
      line :: linesFrom [] (if char == CR then afterCr rest else rest) := by
  by_cases isCr : char = CR
  · rw [isCr, linesFrom_cr]
    rfl
  · have isLf : char = LF := by
      by_contra other
      exact delimiter ⟨isCr, other⟩
    rw [isLf, linesFrom_lf]
    rfl

/-! ### The events of a text -/

theorem feedFrom_events (text : CodeUnits) : ∀ {s : State} {piece id : CodeUnits}
    {block : List Field}, (s.skipLf = true → piece = [] ∧ s.line = []) → Keeps s id block →
    (feedFrom limits s piece text).thrown = false →
    (feedFrom limits s piece text).events =
      eventsFrom id block (linesFrom (s.line ++ piece) (if s.skipLf then afterCr text else text)) := by
  induction text with
  | nil =>
    intro s piece id block _ _ quiet
    have nothing : (if s.skipLf then afterCr [] else []) = [] := by
      cases s.skipLf <;> rfl
    rw [feedFrom, append] at quiet ⊢
    rw [nothing, linesFrom, eventsFrom]
    split <;> rfl
  | cons char text ih =>
    intro s piece id block skipping keeps quiet
    rw [feedFrom] at quiet ⊢
    split at quiet
    next skip =>
      -- the LF of a CRLF whose CR has ended the line
      rw [if_pos skip]
      rw [Bool.and_eq_true, beq_iff_eq] at skip
      obtain ⟨rfl, noLine⟩ := skipping skip.1
      have keeps' : Keeps { s with skipLf := false } id block := ⟨keeps.data, keeps.event, keeps.id⟩
      rw [ih (fun skip => by cases skip) keeps' quiet, skip.1, skip.2]
      rfl
    next notSkip =>
      rw [if_neg notSkip]
      have rest : (if s.skipLf then afterCr (char :: text) else char :: text) = char :: text := by
        rw [Bool.and_eq_true, not_and, beq_iff_eq] at notSkip
        split
        next skip => rw [afterCr, List.head?_cons, if_neg fun same => notSkip skip (Option.some.inj same)]
        next => rfl
      rw [rest]
      simp only at quiet ⊢
      have keeps' : Keeps { s with skipLf := false } id block := ⟨keeps.data, keeps.event, keeps.id⟩
      split at quiet
      next plain =>
        rw [if_pos plain, linesFrom_plain plain, List.append_assoc]
        exact ih (fun skip => by cases skip) keeps' quiet
      next delimiter =>
        rw [if_neg delimiter]
        cases first : (endLine limits { s with skipLf := false } piece char).thrown with
        | true =>
          rw [andThen_thrown first, first] at quiet
          cases quiet
        | false =>
          obtain ⟨bytes, o, accepted, unthrown, ended⟩ := endLine_quiet first
          rw [andThen_quiet first, ended] at quiet ⊢
          simp only at accepted quiet ⊢
          rw [accepted] at unthrown
          have before : Keeps { s with skipLf := false, lineBytes := bytes, line := s.line ++ piece }
              id block := ⟨keeps.data, keeps.event, keeps.id⟩
          obtain ⟨id', block', keeps'', events⟩ := accept_keeps before unthrown
            (linesFrom [] (if char == CR then afterCr text else text))
          rw [linesFrom_delimiter delimiter, events, ← accepted]
          rw [← accepted] at keeps''
          congr 1
          exact ih (fun _ => ⟨rfl, rfl⟩) ⟨keeps''.data, keeps''.event, keeps''.id⟩ quiet

end Ace.Provider.SseParser
