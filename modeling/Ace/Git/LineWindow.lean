import Ace.Script.Framing
import Ace.Script.Utf16
import Mathlib.Algebra.GroupWithZero.Nat

/-!
# A window of lines

`packages/git/src/line-window.ts`. The lines from `start` to `end` (here `stop`) of a text that comes
in chunks, numbered from 1. Text is UTF-16 code units.
-/

namespace Ace.Git

open Script

/-- `"\n"` -/
def newline : Nat := 10

structure RevisionLines where
  lines : List CodeUnits
  atEof : Bool
  noFinalNewline : Bool
  deriving DecidableEq

/-- Retain one bounded line window while consuming arbitrary chunks of immutable file text. -/
structure LineWindow where
  start : Nat
  stop : Nat
  maxChars : Nat
  number : Nat := 1
  fragment : CodeUnits := []
  lines : List CodeUnits := []
  chars : Nat := 0
  overflow : Bool := false
  seen : Bool := false
  terminated : Bool := false
  deriving DecidableEq

namespace LineWindow

/-- Whether the line with this number is in the window. -/
def inside (w : LineWindow) (number : Nat) : Bool := w.start ≤ number && number ≤ w.stop

/-- What the loop does with the text up to a newline, or to the end of the chunk. -/
def account (w : LineWindow) (piece : CodeUnits) (newline : Bool) : LineWindow :=
  if w.inside w.number then
    let chars := w.chars + piece.length
    let overflow := w.overflow || w.maxChars < chars
    let fragment := if overflow then w.fragment else w.fragment ++ piece
    if newline then
      { w with
        chars, overflow
        lines := if overflow then w.lines else w.lines ++ [fragment]
        fragment := [] }
    else { w with chars, overflow, fragment }
  else w

/-- The loop of `append`, over what is left of the text. -/
def appendLines (w : LineWindow) (rest : CodeUnits) : LineWindow :=
  match found : Framing.cut newline rest with
  | some (piece, more) =>
    let w := w.account piece true
    appendLines { w with number := w.number + 1 } more
  | none => if rest = [] then w else w.account rest false
termination_by rest.length
decreasing_by
  have split := (Framing.cut_eq_some_iff.mp found).1
  rw [split, List.length_append, List.length_cons]
  omega

def append (w : LineWindow) (text : CodeUnits) : LineWindow :=
  if text = [] then w
  else appendLines { w with seen := true, terminated := text.getLast? == some newline } text

def finish (w : LineWindow) : Option RevisionLines :=
  if w.overflow then none
  else
    let w :=
      if w.seen && !w.terminated then
        { w with
          lines := if w.inside w.number then w.lines ++ [w.fragment] else w.lines
          number := w.number + 1 }
      else w
    some {
      lines := w.lines
      atEof := w.number - 1 ≤ w.stop
      noFinalNewline := w.seen && !w.terminated }

end LineWindow

end Ace.Git
