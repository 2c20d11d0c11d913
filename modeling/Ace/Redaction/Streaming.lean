import Ace.Redaction.Lexical

/-!
# Streaming redaction

`createStreamingRedactor` yields a text in pieces of 4096 code units. A piece is extended over
the sensitive spans and over the mail addresses and identifying keys that its end would cut,
and is scrubbed by itself.
-/

namespace Ace.Redaction

open Script

namespace Streaming

/-- What the stream has still to read. -/
structure Pending where
  sensitive : List Edit
  emails : List Match
  identifying : List Match

def Pending.size (p : Pending) : Nat :=
  p.sensitive.length + p.emails.length + p.identifying.length

/-- `while (sensitive && sensitive.start < end)`: the spans of the piece, what is left of
them, and the end. -/
def takeSpans : List Edit → Nat → List Edit × List Edit × Nat
  | [], stop => ([], [], stop)
  | s :: spans, stop =>
    if s.start < stop then
      let (taken, left, stop) := takeSpans spans (max stop s.stop)
      (s :: taken, left, stop)
    else ([], s :: spans, stop)

/-- `while (scan.match && scan.match.index < end)` -/
def takeMatches : List Match → Nat → List Match × Nat
  | [], stop => ([], stop)
  | m :: found, stop =>
    if m.index < stop then takeMatches found (max stop m.stop) else (m :: found, stop)

/-- One round of `while (changed)`. -/
def round (p : Pending) (stop : Nat) : List Edit × Pending × Nat :=
  let (taken, sensitive, stop) := takeSpans p.sensitive stop
  let (emails, stop) := takeMatches p.emails stop
  let (identifying, stop) := takeMatches p.identifying stop
  (taken, { sensitive, emails, identifying }, stop)

/-- `while (changed)`: every round but the last takes a span or a match. -/
def settle : Nat → Pending → Nat → List Edit × Pending × Nat
  | 0, p, stop => ([], p, stop)
  | fuel + 1, p, stop =>
    let (taken, p', stop') := round p stop
    if stop < stop' then
      let (more, p'', stop'') := settle fuel p' stop'
      (taken ++ more, p'', stop'')
    else (taken, p', stop')

/-- The matches that do not end by `start`. -/
def dropEnded (start : Nat) (found : List Match) : List Match :=
  found.dropWhile fun m => m.stop ≤ start

/-- A piece `[start, stop)` of the text and the spans replaced in it before it is scrubbed. -/
structure Piece where
  start : Nat
  stop : Nat
  spans : List Edit

/-- The end of a piece is moved off a surrogate pair. -/
def wholePair (text : CodeUnits) (stop : Nat) : Nat :=
  if stop < text.length ∧ text[stop - 1]?.any isHighSurrogate ∧ text[stop]?.any isLowSurrogate then
    stop + 1
  else stop

/-- The pieces from `start` on, up to one that exceeds the budget. -/
def pieces (text : CodeUnits) : Nat → Nat → Pending → List Piece
  | 0, _, _ => []
  | fuel + 1, start, p =>
    if text.length ≤ start then []
    else
      let p := { p with
        emails := dropEnded start p.emails
        identifying := dropEnded start p.identifying }
      let (spans, p, stop) := settle (p.size + 1) p (min text.length (start + 4096))
      if 65536 < stop - start then []
      else
        let stop := wholePair text stop
        { start, stop, spans } :: pieces text fuel stop p

end Streaming

open Streaming

/-- The pieces that the stream cuts a text into. -/
def streamPieces (ctx : RedactionContext) (text : CodeUnits) : List Piece :=
  pieces text (text.length + 1) 0
    { sensitive := sensitiveSpans text (environmentMatcher ctx)
      emails := EMAIL.allMatches text
      identifying := IDENTIFYING_KEYS.allMatches text }

variable {α : Type} (M : Medium α)

/-- What is yielded for a piece. -/
def scrubPiece (ctx : RedactionContext) (text : List α) (piece : Piece) : List α :=
  createTextRedactor M ctx (M.splice (text.take piece.stop) piece.start piece.spans)

def createStreamingRedactor (ctx : RedactionContext) (text : List α) : List (List α) :=
  (streamPieces ctx (M.read text)).map (scrubPiece M ctx text)

end Ace.Redaction
