import Ace.Git.ConflictMarkers
import Mathlib.Data.List.Chain

/-!
# Conflicts are split off exactly

The segments of a text give the text back. They are what is found when its lines are gone through
from the first to the last: a line that opens a complete hunk begins a conflict, which goes on to
the line that closes it, and every other line is plain text.

## Main result

`parseConflictMarkers_exact`
-/

namespace Ace.Git.ConflictMarkers

open Script

/-! ### What a conflict is -/

def separates (line : Line) : Bool := marker line '=' && bare line

/-- The lines behind an opening marker complete a hunk, and what is left of them. -/
inductive Completes (opening : Line) : List Line → GitConflictHunk → List Line → Prop
  | merge {ours theirs next : List Line} {separator close : Line}
      (inOurs : ∀ line ∈ ours, marker line '<' = false ∧ marker line '|' = false ∧ separates line = false)
      (separates : separates separator)
      (inTheirs : ∀ line ∈ theirs, marker line '<' = false ∧ marker line '>' = false)
      (closes : marker close '>') :
      Completes opening (ours ++ separator :: (theirs ++ close :: next))
        { ours := ours.flatten, base := none, theirs := theirs.flatten
          markers := { ours := opening, base := none, separator, theirs := close } } next
  | diff3 {ours base theirs next : List Line} {baseMarker separator close : Line}
      (inOurs : ∀ line ∈ ours, marker line '<' = false ∧ marker line '|' = false ∧ separates line = false)
      (marks : marker baseMarker '|')
      (inBase : ∀ line ∈ base, marker line '<' = false ∧ separates line = false)
      (separates : separates separator)
      (inTheirs : ∀ line ∈ theirs, marker line '<' = false ∧ marker line '>' = false)
      (closes : marker close '>') :
      Completes opening (ours ++ baseMarker :: (base ++ separator :: (theirs ++ close :: next)))
        { ours := ours.flatten, base := some base.flatten, theirs := theirs.flatten
          markers := { ours := opening, base := some baseMarker, separator, theirs := close } } next

inductive Item where
  | line (line : Line)
  | conflict (hunk : GitConflictHunk)

/-- Going through the lines: what opens a complete hunk is a conflict, and nothing else is. -/
inductive Scans : List Line → List Item → Prop
  | done : Scans [] []
  | conflict {line : Line} {rest next : List Line} {hunk : GitConflictHunk} {items : List Item}
      (opens : marker line '<') (completes : Completes line rest hunk next)
      (later : Scans next items) : Scans (line :: rest) (.conflict hunk :: items)
  | line {line : Line} {rest : List Line} {items : List Item}
      (plain : ¬(marker line '<' ∧ ∃ hunk next, Completes line rest hunk next))
      (later : Scans rest items) : Scans (line :: rest) (.line line :: items)

/-- Lines between conflicts are one text. -/
def gather (plain : CodeUnits) : List Item → List GitConflictSegment
  | [] => pushPlain plain
  | .line line :: items => gather (plain ++ line) items
  | .conflict hunk :: items => pushPlain plain ++ .conflict hunk :: gather [] items

def segmentText : GitConflictSegment → CodeUnits
  | .text text => text
  | .conflict hunk =>
    hunk.markers.ours ++ hunk.ours ++ hunk.markers.base.getD [] ++ hunk.base.getD [] ++
      hunk.markers.separator ++ hunk.theirs ++ hunk.markers.theirs

def isText : GitConflictSegment → Bool
  | .text _ => true
  | .conflict _ => false

/-! ### Markers -/

theorem head_of_marker {line : Line} {char : Char} (marks : marker line char = true) :
    line.head? = some char.toNat := by
  rw [marker, Bool.and_eq_true, List.isPrefixOf_iff_prefix] at marks
  obtain ⟨rest, same⟩ := marks.1
  rw [← same]
  rfl

theorem marker_other {line : Line} {char other : Char} (marks : marker line char = true)
    (differs : char.toNat ≠ other.toNat) : marker line other = false := by
  rw [Bool.eq_false_iff]
  intro too
  exact differs (Option.some.inj ((head_of_marker marks).symm.trans (head_of_marker too)))

theorem pushLast_concat (line : Line) (sections : List (List Line)) (current : List Line) :
    pushLast line (sections ++ [current]) = sections ++ [current ++ [line]] := by
  induction sections with
  | nil => rfl
  | cons section_ sections ih =>
    cases sections with
    | nil => rfl
    | cons next sections => exact congrArg (section_ :: ·) ih

/-! ### Reading a hunk -/

variable {sections : List (List Line)} {current : List Line} {found : List Line}

theorem readHunk_theirs (rest : List Line) : ∀ {current hunk next},
    readHunk .theirs (sections ++ [current]) found rest = some (hunk, next) ↔
      ∃ theirs close, rest = theirs ++ close :: next ∧
        (∀ line ∈ theirs, marker line '<' = false ∧ marker line '>' = false) ∧
        marker close '>' = true ∧ hunk = hunkOf (sections ++ [current ++ theirs]) found close := by
  induction rest with
  | nil =>
    intro current hunk next
    simp [readHunk]
  | cons line rest ih =>
    intro current hunk next
    rw [readHunk, if_neg (by simp : ¬(Phase.theirs = .ours ∧ marker line '|' = true)),
      if_neg (by simp : ¬(Phase.theirs ≠ .theirs ∧ marker line '=' = true ∧ bare line = true)),
      pushLast_concat]
    constructor
    · intro read
      split at read
      · cases read
      next notOpen =>
        rw [Bool.not_eq_true] at notOpen
        split at read
        next closes =>
          obtain ⟨isHunk, rfl⟩ := Prod.mk.inj (Option.some.inj read)
          exact ⟨[], line, rfl, by simp, closes.2, by rw [List.append_nil, isHunk]⟩
        next stays =>
          obtain ⟨theirs, close, split, inTheirs, closes, isHunk⟩ := ih.mp read
          refine ⟨line :: theirs, close, by rw [split]; rfl, ?_, closes, ?_⟩
          · exact List.forall_mem_cons.mpr ⟨⟨notOpen, by simpa using stays⟩, inTheirs⟩
          · rw [isHunk, List.append_assoc]
            rfl
    · rintro ⟨theirs, close, split, inTheirs, closes, isHunk⟩
      cases theirs with
      | nil =>
        obtain ⟨rfl, rfl⟩ := List.cons.inj split
        rw [if_neg (by rw [marker_other closes (by decide)]; decide), if_pos ⟨rfl, closes⟩, isHunk,
          List.append_nil]
      | cons first theirs =>
        obtain ⟨rfl, rfl⟩ := List.cons.inj split
        obtain ⟨here, later⟩ := List.forall_mem_cons.mp inTheirs
        rw [if_neg (by rw [here.1]; decide), if_neg (by rw [here.2]; simp)]
        exact ih.mpr ⟨theirs, close, rfl, later, closes, by rw [isHunk, List.append_assoc]; rfl⟩

theorem separates_iff {line : Line} :
    separates line = true ↔ marker line '=' = true ∧ bare line = true := by
  rw [separates, Bool.and_eq_true]

theorem readHunk_base (rest : List Line) : ∀ {current : List Line} {read},
    readHunk .base (sections ++ [current]) found rest = some read ↔
      ∃ base separator rest', rest = base ++ separator :: rest' ∧
        (∀ line ∈ base, marker line '<' = false ∧ separates line = false) ∧
        separates separator = true ∧
        readHunk .theirs (sections ++ [current ++ base] ++ [[]]) (found ++ [separator]) rest' =
          some read := by
  induction rest with
  | nil =>
    intro current read
    simp [readHunk]
  | cons line rest ih =>
    intro current read
    rw [readHunk, if_neg (by simp : ¬(Phase.base = .ours ∧ marker line '|' = true)), pushLast_concat]
    constructor
    · intro reads
      split at reads
      · cases reads
      next notOpen =>
        rw [Bool.not_eq_true] at notOpen
        split at reads
        next parts =>
          exact ⟨[], line, rest, rfl, by simp, separates_iff.mpr parts.2, by simpa using reads⟩
        next stays =>
          rw [if_neg (by simp)] at reads
          obtain ⟨base, separator, rest', split, inBase, parts, reads⟩ := ih.mp reads
          have here : separates line = false := by
            rw [Bool.eq_false_iff]
            exact fun parts => stays ⟨by decide, separates_iff.mp parts⟩
          refine ⟨line :: base, separator, rest', by rw [split]; rfl,
            List.forall_mem_cons.mpr ⟨⟨notOpen, here⟩, inBase⟩, parts, ?_⟩
          rwa [List.append_assoc current] at reads
    · rintro ⟨base, separator, rest', split, inBase, parts, reads⟩
      cases base with
      | nil =>
        obtain ⟨rfl, rfl⟩ := List.cons.inj split
        have marks := separates_iff.mp parts
        rw [if_neg (by rw [marker_other marks.1 (by decide)]; decide),
          if_pos ⟨by decide, marks.1, marks.2⟩]
        simpa using reads
      | cons first base =>
        obtain ⟨rfl, rfl⟩ := List.cons.inj split
        obtain ⟨here, later⟩ := List.forall_mem_cons.mp inBase
        have stays : ¬(Phase.base ≠ .theirs ∧ marker line '=' = true ∧ bare line = true) := by
          intro marks
          rw [separates_iff.mpr marks.2] at here
          cases here.2
        rw [if_neg (by rw [here.1]; decide), if_neg stays, if_neg (by simp)]
        apply ih.mpr
        refine ⟨base, separator, rest', rfl, later, parts, ?_⟩
        rwa [List.append_assoc current]

theorem readHunk_ours (rest : List Line) : ∀ {current : List Line} {read},
    readHunk .ours (sections ++ [current]) found rest = some read ↔
      ∃ ours stop rest', rest = ours ++ stop :: rest' ∧
        (∀ line ∈ ours, marker line '<' = false ∧ marker line '|' = false ∧
          separates line = false) ∧
        (marker stop '|' = true ∧
            readHunk .base (sections ++ [current ++ ours] ++ [[]]) (found ++ [stop]) rest' =
              some read ∨
          separates stop = true ∧
            readHunk .theirs (sections ++ [current ++ ours] ++ [[]]) (found ++ [[]] ++ [stop]) rest' =
              some read) := by
  induction rest with
  | nil =>
    intro current read
    simp [readHunk]
  | cons line rest ih =>
    intro current read
    rw [readHunk, pushLast_concat]
    constructor
    · intro reads
      split at reads
      · cases reads
      next notOpen =>
        rw [Bool.not_eq_true] at notOpen
        split at reads
        next marks =>
          exact ⟨[], line, rest, rfl, by simp, .inl ⟨marks.2, by simpa using reads⟩⟩
        next notBase =>
          split at reads
          next parts =>
            exact ⟨[], line, rest, rfl, by simp,
              .inr ⟨separates_iff.mpr parts.2, by simpa using reads⟩⟩
          next stays =>
            rw [if_neg (by simp)] at reads
            obtain ⟨ours, stop, rest', split, inOurs, stops⟩ := ih.mp reads
            have notMarked : marker line '|' = false := by
              rw [Bool.eq_false_iff]
              exact fun marks => notBase ⟨rfl, marks⟩
            have here : separates line = false := by
              rw [Bool.eq_false_iff]
              exact fun parts => stays ⟨by decide, separates_iff.mp parts⟩
            refine ⟨line :: ours, stop, rest', by rw [split]; rfl,
              List.forall_mem_cons.mpr ⟨⟨notOpen, notMarked, here⟩, inOurs⟩, ?_⟩
            rwa [List.append_assoc current] at stops
    · rintro ⟨ours, stop, rest', split, inOurs, stops⟩
      cases ours with
      | nil =>
        obtain ⟨rfl, rfl⟩ := List.cons.inj split
        rcases stops with ⟨marks, reads⟩ | ⟨parts, reads⟩
        · rw [if_neg (by rw [marker_other marks (by decide)]; decide), if_pos ⟨rfl, marks⟩]
          simpa using reads
        · have marks := separates_iff.mp parts
          rw [if_neg (by rw [marker_other marks.1 (by decide)]; decide),
            if_neg (by rw [marker_other marks.1 (by decide)]; simp), if_pos ⟨by decide, marks.1, marks.2⟩]
          simpa using reads
      | cons first ours =>
        obtain ⟨rfl, rfl⟩ := List.cons.inj split
        obtain ⟨here, later⟩ := List.forall_mem_cons.mp inOurs
        have stays : ¬(Phase.ours ≠ .theirs ∧ marker line '=' = true ∧ bare line = true) := by
          intro marks
          rw [separates_iff.mpr marks.2] at here
          cases here.2.2
        rw [if_neg (by rw [here.1]; decide), if_neg (by rw [here.2.1]; simp), if_neg stays,
          if_neg (by simp)]
        apply ih.mpr
        refine ⟨ours, stop, rest', rfl, later, ?_⟩
        rwa [List.append_assoc current]

theorem marker_ne_nil {line : Line} {char : Char} (marks : marker line char = true) : line ≠ [] := by
  rintro rfl
  cases head_of_marker marks

theorem readHunk_iff {opening : Line} {rest next : List Line} {hunk : GitConflictHunk} :
    readHunk .ours [[]] [opening] rest = some (hunk, next) ↔ Completes opening rest hunk next := by
  have whole := @readHunk_ours [] [opening] rest [] (hunk, next)
  simp only [List.nil_append] at whole
  rw [whole]
  constructor
  · rintro ⟨ours, stop, rest', rfl, inOurs, ⟨marks, reads⟩ | ⟨parts, reads⟩⟩
    · obtain ⟨base, separator, rest'', rfl, inBase, parts, reads⟩ := (readHunk_base rest').mp reads
      obtain ⟨theirs, close, rfl, inTheirs, closes, rfl⟩ := (readHunk_theirs rest'').mp reads
      have nonempty := marker_ne_nil marks
      have isHunk : hunkOf ([ours] ++ [[] ++ base] ++ [[] ++ theirs]) ([opening] ++ [stop] ++ [separator])
          close = { ours := ours.flatten, base := some base.flatten, theirs := theirs.flatten
                    markers := { ours := opening, base := some stop, separator, theirs := close } } := by
        simp [hunkOf, nonempty]
      rw [isHunk]
      exact .diff3 inOurs marks inBase parts inTheirs closes
    · obtain ⟨theirs, close, rfl, inTheirs, closes, rfl⟩ := (readHunk_theirs rest').mp reads
      exact .merge inOurs parts inTheirs closes
  · intro completes
    cases completes with
    | merge inOurs parts inTheirs closes =>
      refine ⟨_, _, _, rfl, inOurs, .inr ⟨parts, ?_⟩⟩
      exact (readHunk_theirs _).mpr ⟨_, _, rfl, inTheirs, closes, rfl⟩
    | @diff3 ours base theirs next baseMarker separator close inOurs marks inBase parts inTheirs closes =>
      refine ⟨_, _, _, rfl, inOurs, .inl ⟨marks, ?_⟩⟩
      refine (readHunk_base _).mpr ⟨_, _, _, rfl, inBase, parts, ?_⟩
      refine (readHunk_theirs _).mpr ⟨_, _, rfl, inTheirs, closes, ?_⟩
      have nonempty := marker_ne_nil marks
      simp [hunkOf, nonempty]

theorem hunkAt_iff {line : Line} {rest next : List Line} {hunk : GitConflictHunk} :
    hunkAt line rest = some (hunk, next) ↔
      marker line '<' = true ∧ Completes line rest hunk next := by
  rw [hunkAt]
  split
  next opens => rw [readHunk_iff, and_iff_right opens]
  next other => simp [other]

/-! ### Segments -/

theorem lines_flatten (text : CodeUnits) : ∀ line, (linesFrom line text).flatten = line ++ text := by
  induction text with
  | nil =>
    intro line
    rw [linesFrom]
    split
    next empty => rw [empty]; rfl
    next => simp
  | cons u rest ih =>
    intro line
    rw [linesFrom]
    split
    · rw [List.flatten_cons, ih]
      simp
    · rw [ih]
      simp

theorem pushPlain_text (plain : CodeUnits) : (pushPlain plain).flatMap segmentText = plain := by
  rw [pushPlain]
  split
  next empty => rw [empty]; rfl
  next => exact List.append_nil _

theorem Completes.text_eq {opening : Line} {rest next : List Line} {hunk : GitConflictHunk}
    (completes : Completes opening rest hunk next) :
    segmentText (.conflict hunk) ++ next.flatten = opening ++ rest.flatten := by
  cases completes <;> simp [segmentText]

theorem segmentsFrom_conflict {line : Line} {rest next : List Line} {hunk : GitConflictHunk}
    (opened : hunkAt line rest = some (hunk, next)) (plain : CodeUnits) :
    segmentsFrom plain (line :: rest) = pushPlain plain ++ .conflict hunk :: segmentsFrom [] next := by
  rw [segmentsFrom]
  split
  next hunk' next' opened' =>
    obtain ⟨rfl, rfl⟩ := Prod.mk.inj (Option.some.inj (opened'.symm.trans opened))
    rfl
  next unopened =>
    rw [opened] at unopened
    cases unopened

theorem segmentsFrom_plain {line : Line} {rest : List Line} (unopened : hunkAt line rest = none)
    (plain : CodeUnits) : segmentsFrom plain (line :: rest) = segmentsFrom (plain ++ line) rest := by
  rw [segmentsFrom]
  split
  next opened =>
    rw [unopened] at opened
    cases opened
  next => rfl

theorem segmentsFrom_spec (plain : CodeUnits) (rest : List Line) :
    (segmentsFrom plain rest).flatMap segmentText = plain ++ rest.flatten ∧
      ∃ items, Scans rest items ∧ segmentsFrom plain rest = gather plain items := by
  induction plain, rest using segmentsFrom.induct with
  | case1 plain =>
    rw [segmentsFrom, pushPlain_text]
    exact ⟨by simp, [], .done, rfl⟩
  | case2 plain line rest hunk next opened ih =>
    obtain ⟨opens, completes⟩ := hunkAt_iff.mp opened
    obtain ⟨text, items, scans, same⟩ := ih
    rw [segmentsFrom_conflict opened]
    refine ⟨?_, .conflict hunk :: items, .conflict opens completes scans, ?_⟩
    · rw [List.flatMap_append, pushPlain_text, List.flatMap_cons, text, List.nil_append,
        completes.text_eq, List.flatten_cons]
    · rw [same]
      rfl
  | case3 plain line rest unopened ih =>
    obtain ⟨text, items, scans, same⟩ := ih
    rw [segmentsFrom_plain unopened]
    refine ⟨?_, .line line :: items, .line ?_ scans, same⟩
    · rw [text, List.append_assoc, List.flatten_cons]
    · rintro ⟨opens, hunk, next, completes⟩
      rw [hunkAt_iff.mpr ⟨opens, completes⟩] at unopened
      cases unopened

/-- Texts are not empty, and none follows another. -/
def Separate (segments : List GitConflictSegment) : Prop :=
  (∀ text, .text text ∈ segments → text ≠ []) ∧
    segments.IsChain fun a b => ¬(isText a = true ∧ isText b = true)

theorem gather_separate (items : List Item) : ∀ plain, Separate (gather plain items) := by
  induction items with
  | nil =>
    intro plain
    rw [gather, pushPlain]
    split
    · exact ⟨by simp, .nil⟩
    next some_ =>
      refine ⟨fun text member => ?_, .singleton _⟩
      cases List.mem_singleton.mp member
      exact some_
  | cons item items ih =>
    intro plain
    cases item with
    | line line => exact ih (plain ++ line)
    | conflict hunk =>
      obtain ⟨nonempty, apart⟩ := ih []
      have behind : (GitConflictSegment.conflict hunk :: gather [] items).IsChain
          fun a b => ¬(isText a = true ∧ isText b = true) := by
        cases rest : gather [] items with
        | nil => exact .singleton _
        | cons next rest' =>
          rw [rest] at apart
          exact .cons_cons (fun both => by cases both.1) apart
      rw [gather, pushPlain]
      split
      · exact ⟨fun text member => nonempty text (by simpa using member), behind⟩
      next some_ =>
        refine ⟨fun text member => ?_, .cons_cons (fun both => by cases both.2) behind⟩
        rcases List.mem_cons.mp member with same | later
        · cases same
          exact some_
        · exact nonempty text (by simpa using later)

/-- **Conflicts are split off exactly.** The segments give the text back, no text among them is
empty or follows another, and they are what going through the lines finds. -/
theorem parseConflictMarkers_exact (text : CodeUnits) :
    (parseConflictMarkers text).flatMap segmentText = text ∧ Separate (parseConflictMarkers text) ∧
      ∃ items, Scans (lines text) items ∧ parseConflictMarkers text = gather [] items := by
  obtain ⟨joined, items, scans, same⟩ := segmentsFrom_spec [] (lines text)
  rw [lines, lines_flatten] at joined
  refine ⟨joined, ?_, items, scans, same⟩
  rw [parseConflictMarkers, same]
  exact gather_separate items []

end Ace.Git.ConflictMarkers
