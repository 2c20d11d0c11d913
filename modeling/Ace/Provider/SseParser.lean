import Ace.Script.Utf16

/-!
# A parser for event streams

Text of an event stream is read as it arrives. CR, LF and CRLF end lines, also a CRLF whose
halves arrive apart, and a blank line ends an event. What the parser has read is its state, and a
limit on the bytes of a line and of an event makes it throw.
-/

namespace Ace.Provider

open Script

structure SseLimits where
  maxLineBytes : Nat := 16 * 1024 * 1024
  maxEventBytes : Nat := 16 * 1024 * 1024

structure SseEvent where
  data : CodeUnits
  event : CodeUnits
  id : CodeUnits
  deriving DecidableEq

namespace SseParser

def CR : Nat := 13

def LF : Nat := 10

structure State where
  lastEventId : CodeUnits := []
  retryMs : Option Nat := none
  line : CodeUnits := []
  lineBytes : Nat := 0
  eventBytes : Nat := 0
  skipLf : Bool := false
  data : List CodeUnits := []
  event : CodeUnits := []
  id : CodeUnits := []
  deriving DecidableEq

/-- `new SseParser(emit, lastEventId, limits)` -/
def start (lastEventId : CodeUnits) : State := { lastEventId, id := lastEventId }

/-- What a call has emitted, the state it leaves, and whether it threw `SseLimitError`. -/
structure Outcome where
  events : List SseEvent := []
  state : State
  thrown : Bool := false
  deriving DecidableEq

/-- What comes next runs only when nothing was thrown. -/
def Outcome.andThen (o : Outcome) (f : State → Outcome) : Outcome :=
  if o.thrown then o
  else { f o.state with events := o.events ++ (f o.state).events }

def append (limits : SseLimits) (s : State) (text : CodeUnits) : Outcome :=
  let s := { s with lineBytes := s.lineBytes + utf8Length text }
  if limits.maxLineBytes < s.lineBytes then { state := s, thrown := true }
  else { state := { s with line := s.line ++ text } }

/-- The field of a line that is not blank, and its value: `none` for a comment. -/
def fieldOf (line : CodeUnits) : Option (CodeUnits × CodeUnits) :=
  if line.head? = some ':'.toNat then none
  else
    let field := line.takeWhile (· != ':'.toNat)
    let value := (line.dropWhile (· != ':'.toNat)).drop 1
    some (field, if value.head? = some ' '.toNat then value.drop 1 else value)

/-- `/^\d+$/.test(value) && Number.isSafeInteger(Number(value))` gives the number. -/
def retryOf (value : CodeUnits) : Option Nat :=
  if value.isEmpty || !value.all (between '0' '9') then none
  else
    let n := value.foldl (fun n u => n * 10 + (u - '0'.toNat)) 0
    if n ≤ 9007199254740991 then some n else none

/-- Data values joined by LF. -/
def joinData (data : List CodeUnits) : CodeUnits := [LF].intercalate data

def acceptField (limits : SseLimits) (s : State) (field value : CodeUnits) : Outcome :=
  if field = units "data" then
    let s := { s with
      eventBytes := s.eventBytes + (utf8Length value + (if s.data ≠ [] then 1 else 0)) }
    if limits.maxEventBytes < s.eventBytes then { state := s, thrown := true }
    else { state := { s with data := s.data ++ [value] } }
  else if field = units "event" then { state := { s with event := value } }
  else if field = units "id" then
    { state := if value.contains 0 then s else { s with id := value } }
  else if field = units "retry" then
    { state := match retryOf value with
        | some n => { s with retryMs := some n }
        | none => s }
  else { state := s }

def accept (limits : SseLimits) (s : State) (line : CodeUnits) : Outcome :=
  if line = [] then
    let s := { s with lastEventId := s.id }
    { events := if s.data ≠ [] then
        [{ data := joinData s.data, event := if s.event = [] then units "message" else s.event
           id := s.lastEventId }] else []
      state := { s with data := [], eventBytes := 0, event := [] } }
  else
    match fieldOf line with
    | none => { state := s }
    | some (field, value) => acceptField limits s field value

/-- A line ends: it is accepted, and the next one begins. -/
def endLine (limits : SseLimits) (s : State) (piece : CodeUnits) (char : Nat) : Outcome :=
  (append limits s piece).andThen fun s =>
    (accept limits s s.line).andThen fun s =>
      { state := { s with line := [], lineBytes := 0, skipLf := char == CR } }

/-- The rest of a text, behind a piece of it that belongs to the line. -/
def feedFrom (limits : SseLimits) (s : State) (piece : CodeUnits) : CodeUnits → Outcome
  | [] => append limits s piece
  | char :: rest =>
    if s.skipLf && char == LF then feedFrom limits { s with skipLf := false } [] rest
    else
      let s := { s with skipLf := false }
      if char ≠ CR ∧ char ≠ LF then feedFrom limits s (piece ++ [char]) rest
      else (endLine limits s piece char).andThen fun s => feedFrom limits s [] rest

def feed (limits : SseLimits) (s : State) (text : CodeUnits) : Outcome := feedFrom limits s [] text

/-- One piece after another, until a call throws. -/
def feedAll (limits : SseLimits) : State → List CodeUnits → Outcome
  | s, [] => { state := s }
  | s, piece :: pieces => (feed limits s piece).andThen fun s => feedAll limits s pieces

end SseParser

end Ace.Provider
