import Ace.Script.Utf16

/-!
# Regular expressions

Patterns over code units with the backtracking meaning of ECMAScript: `run` lists the ends
of all matches from a cursor in the order in which backtracking tries them, and the first
is the match. There are no back references, and what a replacement keeps of a match is the
lead before its body and the trail after it.
-/

namespace Script

inductive Pattern where
  | empty
  /-- One code unit of a class. -/
  | unit (accepts : Nat → Bool)
  /-- `\b` -/
  | boundary
  /-- `(?<![...])` -/
  | notAfter (accepts : Nat → Bool)
  /-- `$` -/
  | ending
  | seq (first second : Pattern)
  | alt (first second : Pattern)
  /-- `(...)*` -/
  | star (body : Pattern)

/-- A place in a text: the code unit before it and what is after it. -/
structure Cursor where
  before : Option Nat
  rest : CodeUnits
  deriving DecidableEq

namespace Cursor

def atBoundary (c : Cursor) : Bool := c.before.any isWordUnit != c.rest.head?.any isWordUnit

end Cursor

namespace Pattern

/-- Greedy repetition. An iteration that consumes nothing is not one. -/
def many (step : Cursor → List Cursor) : Nat → Cursor → List Cursor
  | 0, c => [c]
  | n + 1, c =>
    ((step c).filter fun d => d.rest.length < c.rest.length).flatMap (many step n) ++ [c]

def run : Pattern → Cursor → List Cursor
  | empty, c => [c]
  | unit accepts, c =>
    match c.rest with
    | [] => []
    | u :: rest => if accepts u then [{ before := some u, rest }] else []
  | boundary, c => if c.atBoundary then [c] else []
  | notAfter accepts, c => if c.before.any accepts then [] else [c]
  | ending, c => if c.rest.isEmpty then [c] else []
  | seq first second, c => (run first c).flatMap (run second)
  | alt first second, c => run first c ++ run second c
  | star body, c => many (run body) c.rest.length c

/-! ### Derived patterns -/

/-- The code units of a text, one after another. -/
def text : CodeUnits → Pattern
  | [] => empty
  | u :: us => seq (unit (· == u)) (text us)

/-- The same under the flag `i`, for a text of lower case. -/
def anyCase : CodeUnits → Pattern
  | [] => empty
  | u :: us => seq (unit (lowerUnit · == u)) (anyCase us)

def plus (body : Pattern) : Pattern := seq body (star body)

def option (body : Pattern) : Pattern := alt body empty

def times : Nat → Pattern → Pattern
  | 0, _ => empty
  | n + 1, body => seq body (times n body)

/-- `{n,}` -/
def atLeast (n : Nat) (body : Pattern) : Pattern := seq (times n body) (star body)

def oneOf : List Pattern → Pattern
  | [] => unit fun _ => false
  | [p] => p
  | p :: ps => alt p (oneOf ps)

def sequence : List Pattern → Pattern
  | [] => empty
  | [p] => p
  | p :: ps => seq p (sequence ps)

end Pattern

/-! ### Matches -/

/-- A pattern in three parts. A replacement keeps the lead and the trail. -/
structure Rule where
  lead : Pattern := .empty
  body : Pattern
  trail : Pattern := .empty

/-- A match: the whole is `[index, stop)` and its body `[start, finish)`. -/
structure Match where
  index : Nat
  start : Nat
  finish : Nat
  stop : Nat
  deriving DecidableEq

namespace Rule

/-- The match at the cursor, which is at `index`. -/
def matchAt (r : Rule) (index : Nat) (c : Cursor) : Option Match :=
  ((r.lead.run c).flatMap fun start =>
    (r.body.run start).flatMap fun finish =>
      (r.trail.run finish).map fun stop =>
        { index
          start := index + (c.rest.length - start.rest.length)
          finish := index + (c.rest.length - finish.rest.length)
          stop := index + (c.rest.length - stop.rest.length) }).head?

/-- The matches from the cursor on, none of which begins before `resume`. -/
def matchesFrom (r : Rule) (index : Nat) (before : Option Nat) : CodeUnits → Nat → List Match
  | [], resume => if resume ≤ index then (r.matchAt index { before, rest := [] }).toList else []
  | u :: rest, resume =>
    if resume ≤ index then
      match r.matchAt index { before, rest := u :: rest } with
      | some m => m :: matchesFrom r (index + 1) (some u) rest (max m.stop (index + 1))
      | none => matchesFrom r (index + 1) (some u) rest resume
    else matchesFrom r (index + 1) (some u) rest resume

/-- The matches of a pattern with the flag `g`, in order. -/
def allMatches (r : Rule) (text : CodeUnits) : List Match := r.matchesFrom 0 none text 0

def test (r : Rule) (text : CodeUnits) : Bool := !(r.allMatches text).isEmpty

end Rule

end Script
