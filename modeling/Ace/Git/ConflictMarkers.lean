import Ace.Script.Utf16

/-!
# Conflict markers

A file that Git left in the middle of a merge is split into plain text and conflict hunks, of the
`merge` and the `diff3` style. A marker that opens no complete hunk stays text.
-/

namespace Ace.Git.ConflictMarkers

open Script

abbrev Line := CodeUnits

/-- `text.match(/[^\n]*\n|[^\n]+$/g)`, behind the beginning of a line. -/
def linesFrom (line : CodeUnits) : CodeUnits → List Line
  | [] => if line = [] then [] else [line]
  | u :: rest => if u = 10 then (line ++ [u]) :: linesFrom [] rest else linesFrom (line ++ [u]) rest

def lines (text : CodeUnits) : List Line := linesFrom [] text

def marker (line : Line) (char : Char) : Bool :=
  let rest := line.drop 7
  (List.replicate 7 char.toNat).isPrefixOf line &&
    (rest.head?.any (fun u => u == ' '.toNat || u == 13 || u == 10) || rest.isEmpty)

/-- `line.slice(7).trim() === ""` -/
def bare (line : Line) : Bool := (line.drop 7).all isSpaceUnit

structure GitConflictMarkers where
  ours : CodeUnits
  base : Option CodeUnits
  separator : CodeUnits
  theirs : CodeUnits
  deriving DecidableEq

structure GitConflictHunk where
  ours : CodeUnits
  base : Option CodeUnits
  theirs : CodeUnits
  markers : GitConflictMarkers
  deriving DecidableEq

inductive GitConflictSegment where
  | text (text : CodeUnits)
  | conflict (hunk : GitConflictHunk)
  deriving DecidableEq

inductive Phase where
  | ours
  | base
  | theirs
  deriving DecidableEq

/-- `sections.at(-1)?.push(line)` -/
def pushLast (line : Line) : List (List Line) → List (List Line)
  | [] => []
  | [section_] => [section_ ++ [line]]
  | section_ :: next :: sections => section_ :: pushLast line (next :: sections)

/-- The hunk whose sections and markers have been read, and the line that closes it. -/
def hunkOf (sections : List (List Line)) (found : List Line) (close : Line) : GitConflictHunk :=
  let ours := sections[0]?.getD []
  let base := sections[1]?.getD []
  let theirs := sections[2]?.getD []
  let baseMarker := found[1]?.getD []
  let hasBase := baseMarker ≠ []
  { ours := ours.flatten
    base := if hasBase then some base.flatten else none
    theirs := (if hasBase then theirs else base).flatten
    markers :=
      { ours := found[0]?.getD []
        base := if hasBase then some baseMarker else none
        separator := found[2]?.getD []
        theirs := close } }

/-- Reads a hunk behind its opening marker; what is left are the lines after it. -/
def readHunk (phase : Phase) (sections : List (List Line)) (found : List Line) :
    List Line → Option (GitConflictHunk × List Line)
  | [] => none
  | line :: rest =>
    if marker line '<' then none
    else if phase = .ours ∧ marker line '|' then
      readHunk .base (sections ++ [[]]) (found ++ [line]) rest
    else if phase ≠ .theirs ∧ marker line '=' ∧ bare line then
      let found := if phase = .ours then found ++ [[]] else found
      readHunk .theirs (sections ++ [[]]) (found ++ [line]) rest
    else if phase = .theirs ∧ marker line '>' then some (hunkOf sections found line, rest)
    else readHunk phase (pushLast line sections) found rest

/-- The hunk that a line opens, if it does. -/
def hunkAt (line : Line) (rest : List Line) : Option (GitConflictHunk × List Line) :=
  if marker line '<' then readHunk .ours [[]] [line] rest else none

theorem readHunk_shorter (rest : List Line) : ∀ {phase sections found hunk next},
    readHunk phase sections found rest = some (hunk, next) → next.length < rest.length := by
  induction rest with
  | nil => exact fun read => by cases read
  | cons line rest ih =>
    intro phase sections found hunk next read
    rw [readHunk] at read
    rw [List.length_cons]
    split at read
    · cases read
    · split at read
      · exact Nat.lt_succ_of_lt (ih read)
      · split at read
        · exact Nat.lt_succ_of_lt (ih read)
        · split at read
          · cases read
            exact Nat.lt_succ_self _
          · exact Nat.lt_succ_of_lt (ih read)

theorem hunkAt_shorter {line : Line} {rest next : List Line} {hunk : GitConflictHunk}
    (opened : hunkAt line rest = some (hunk, next)) : next.length < rest.length := by
  rw [hunkAt] at opened
  split at opened
  · exact readHunk_shorter rest opened
  · cases opened

/-- `if (plain) segments.push({ kind: "text", text: plain })` -/
def pushPlain (plain : CodeUnits) : List GitConflictSegment :=
  if plain = [] then [] else [.text plain]

/-- The segments of the lines that are left, behind text that belongs to no segment yet. -/
def segmentsFrom (plain : CodeUnits) : List Line → List GitConflictSegment
  | [] => pushPlain plain
  | line :: rest =>
    match _opened : hunkAt line rest with
    | some (hunk, next) => pushPlain plain ++ .conflict hunk :: segmentsFrom [] next
    | none => segmentsFrom (plain ++ line) rest
  termination_by lines => lines.length
  decreasing_by
    · have shorter := hunkAt_shorter _opened
      rw [List.length_cons]
      omega
    · exact Nat.lt_succ_self _

def parseConflictMarkers (text : CodeUnits) : List GitConflictSegment := segmentsFrom [] (lines text)

end Ace.Git.ConflictMarkers
