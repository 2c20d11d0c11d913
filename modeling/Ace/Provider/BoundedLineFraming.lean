import Ace.Script.Text

/-!
# Framing of lines within a limit

A provider's output is cut into lines as it arrives. A line over the limit is dropped: what is kept
of it is its length and a bounded beginning. The framing is told one chunk after another, and keeps
between chunks the parts of the line it is in.
-/

namespace Ace.Provider

open Script

inductive DropPhase where
  | start
  | ended
  | complete
  deriving DecidableEq

/-- A line split between chunks reports its loss at once, and its final length at the delimiter. -/
structure DroppedOutputLine where
  bytes : Nat
  prefixText : List Char
  phase : DropPhase
  deriving DecidableEq

inductive FramedBytes where
  | data (bytes : List Nat)
  | drop (line : DroppedOutputLine)
  deriving DecidableEq

def isDelimiter (b : Nat) : Bool := b == 10 || b == 13

/-- `Buffer.concat(parts, total)`: cut to the total, or filled up with zeros. -/
def concatTo (parts : List (List Nat)) (total : Nat) : List Nat :=
  parts.flatten.take total ++ List.replicate (total - parts.flatten.length) 0

namespace BoundedLineFraming

structure State where
  parts : List (List Nat) := []
  bytes : Nat := 0
  prefixText : Option (List Char) := none
  announced : Bool := false

/-- What one piece of a line adds: it ends at a delimiter or with the chunk. -/
def account (limit : Nat) (s : State) (piece : List Nat) (delimiter : Bool) :
    List FramedBytes × State :=
  let s := { s with bytes := s.bytes + piece.length }
  if s.prefixText.isSome then ([], s)
  else
    let remaining := limit - (s.bytes - piece.length)
    let s := if piece ≠ [] then { s with parts := s.parts ++ [piece.take (min piece.length remaining)] }
      else s
    if limit < s.bytes then
      let beginning := Text.decodeBytes (concatTo s.parts (min limit 4096)) {}
      let s := { s with prefixText := some beginning, parts := [] }
      if delimiter then ([], s)
      else
        ([.drop { bytes := s.bytes, prefixText := beginning, phase := .start }],
          { s with announced := true })
    else ([], s)

/-- The line ends: what is left of it to report, and the framing at the start of a line. -/
def finish (s : State) : List FramedBytes × State :=
  let frames := match s.prefixText with
    | some beginning => [FramedBytes.drop { bytes := s.bytes, prefixText := beginning
                                            phase := if s.announced then .ended else .complete }]
    | none => if s.parts ≠ [] then [.data s.parts.flatten] else []
  (frames, {})

/-- The rest of a chunk, behind a piece of it that no delimiter has ended yet. -/
def nextFrom (limit : Nat) (s : State) (piece : List Nat) : List Nat → List FramedBytes × State
  | [] => account limit s piece false
  | b :: rest =>
    if isDelimiter b then
      let (frames, s) := account limit s piece true
      let skipped := s.prefixText.isSome
      let (closing, s) := finish s
      let (later, s) := nextFrom limit s [] rest
      (frames ++ closing ++ (if skipped then [] else [.data [b]]) ++ later, s)
    else nextFrom limit s (piece ++ [b]) rest

def next (limit : Nat) (s : State) (chunk : List Nat) : List FramedBytes × State :=
  nextFrom limit s [] chunk

/-- The frames of one chunk after another. -/
def feed (limit : Nat) : State → List (List Nat) → List FramedBytes × State
  | s, [] => ([], s)
  | s, chunk :: chunks =>
    let (frames, s) := next limit s chunk
    let (later, s) := feed limit s chunks
    (frames ++ later, s)

/-- The frames of a whole stream. -/
def frames (limit : Nat) (chunks : List (List Nat)) : List FramedBytes :=
  let (frames, s) := feed limit {} chunks
  frames ++ (finish s).1

end BoundedLineFraming

end Ace.Provider
