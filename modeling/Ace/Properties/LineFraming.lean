import Ace.Provider.BoundedLineFraming
import Mathlib.Data.List.Forall2

/-!
# Lines over the limit, and no others, are dropped

A stream is a sequence of runs without delimiters, each but the last with the delimiter that ends
it. However the stream is cut into chunks, the frames are those of its runs, one run after another:
the bytes of a run within the limit and of its delimiter, or the report of a longer run.

## Main result

`frames_exact`
-/

namespace Ace.Provider.BoundedLineFraming

open Script

/-! ### What the frames of a stream should be -/

/-- The runs of a stream, each with the delimiter that ends it, behind what was read of one. -/
def runsFrom (run : List Nat) : List Nat → List (List Nat × Option Nat)
  | [] => [(run, none)]
  | b :: rest =>
    if isDelimiter b then (run, some b) :: runsFrom [] rest else runsFrom (run ++ [b]) rest

def runs (stream : List Nat) : List (List Nat × Option Nat) := runsFrom [] stream

/-- The bytes of a run that are kept, with its delimiter. -/
def kept (limit : Nat) (run : List Nat × Option Nat) : List Nat :=
  if limit < run.1.length then [] else run.1 ++ run.2.toList

def dataBytes : FramedBytes → List Nat
  | .data bytes => bytes
  | .drop _ => []

/-- The beginning that is told of a dropped run. -/
def beginning (limit : Nat) (run : List Nat) : List Char :=
  Text.decodeBytes (run.take (min limit 4096)) {}

/-- The frames of one run. -/
inductive RunFrames (limit : Nat) (run : List Nat × Option Nat) : List FramedBytes → Prop
  | whole {frames : List FramedBytes} (within : run.1.length ≤ limit)
      (data : ∀ frame ∈ frames, ∃ bytes, frame = .data bytes)
      (bytes : frames.flatMap dataBytes = run.1 ++ run.2.toList) : RunFrames limit run frames
  | complete (beyond : limit < run.1.length) :
      RunFrames limit run
        [.drop { bytes := run.1.length, prefixText := beginning limit run.1, phase := .complete }]
  | split (beyond : limit < run.1.length) (soFar : Nat) (text : List Char) :
      RunFrames limit run
        [.drop { bytes := soFar, prefixText := text, phase := .start },
          .drop { bytes := run.1.length, prefixText := beginning limit run.1, phase := .ended }]

theorem RunFrames.bytes_eq {limit : Nat} {run : List Nat × Option Nat} {frames : List FramedBytes}
    (framed : RunFrames limit run frames) : frames.flatMap dataBytes = kept limit run := by
  cases framed with
  | whole within _ bytes => rw [kept, if_neg (Nat.not_lt.mpr within), bytes]
  | complete beyond => simp [kept, beyond, dataBytes]
  | split beyond => simp [kept, beyond, dataBytes]

/-! ### The line that is being read -/

/-- What is known of a run that no delimiter has ended, and the frames it has had. -/
inductive Reading (limit : Nat) (run : List Nat) : State → List FramedBytes → Prop
  | keeping {parts : List (List Nat)} (within : run.length ≤ limit) (whole : parts.flatten = run)
      (empty : run = [] → parts = []) :
      Reading limit run { parts, bytes := run.length } []
  | dropping {soFar : Nat} (beyond : limit < run.length) :
      Reading limit run
        { bytes := run.length, prefixText := some (beginning limit run), announced := true }
        [.drop { bytes := soFar, prefixText := beginning limit run, phase := .start }]

theorem reading_start (limit : Nat) : Reading limit [] {} [] :=
  .keeping (Nat.zero_le _) rfl fun _ => rfl

theorem beginning_append {limit : Nat} {run : List Nat} (beyond : limit ≤ run.length)
    (more : List Nat) : beginning limit (run ++ more) = beginning limit run := by
  have enough : min limit 4096 ≤ run.length := Nat.le_trans (Nat.min_le_left _ _) beyond
  rw [beginning, beginning, List.take_append_of_le_length enough]

theorem concatTo_parts {limit : Nat} {parts : List (List Nat)} {run piece : List Nat}
    (within : run.length ≤ limit) (whole : parts.flatten = run)
    (beyond : limit < (run ++ piece).length) :
    concatTo (parts ++ [piece.take (min piece.length (limit - run.length))]) (min limit 4096) =
      (run ++ piece).take (min limit 4096) := by
  rw [List.length_append] at beyond
  have fits : min piece.length (limit - run.length) = limit - run.length := by omega
  have flat : (parts ++ [piece.take (limit - run.length)]).flatten = (run ++ piece).take limit := by
    rw [List.flatten_append, whole, List.flatten_singleton, List.take_append,
      List.take_of_length_le within]
  have length : ((run ++ piece).take limit).length = limit := by
    rw [List.length_take, List.length_append]
    omega
  rw [concatTo, fits, flat, length, List.take_take, Nat.sub_eq_zero_of_le (Nat.min_le_left _ _),
    List.replicate_zero, List.append_nil, Nat.min_eq_left (Nat.min_le_left _ _)]

theorem account_within {limit : Nat} {run piece : List Nat} {parts : List (List Nat)}
    (whole : parts.flatten = run) (empty : run = [] → parts = [])
    (within : (run ++ piece).length ≤ limit) (delimiter : Bool) :
    ∃ parts', account limit { parts, bytes := run.length } piece delimiter =
        ([], { parts := parts', bytes := (run ++ piece).length }) ∧
      parts'.flatten = run ++ piece ∧ (run ++ piece = [] → parts' = []) := by
  rw [List.length_append] at within
  by_cases none_ : piece = []
  · refine ⟨parts, ?_, by rw [none_, whole, List.append_nil], ?_⟩
    · have notOver : ¬limit < run.length := by omega
      simp [account, none_, notOver]
    · rw [none_, List.append_nil]
      exact empty
  · have notOver : ¬limit < run.length + piece.length := by omega
    have all : min piece.length (limit - run.length) = piece.length := by omega
    refine ⟨parts ++ [piece], ?_, ?_, fun nothing => absurd (List.append_eq_nil_iff.mp nothing).2 none_⟩
    · simp [account, none_, notOver, all]
    · rw [List.flatten_append, whole, List.flatten_singleton]

theorem account_beyond {limit : Nat} {run piece : List Nat} {parts : List (List Nat)}
    (within : run.length ≤ limit) (whole : parts.flatten = run)
    (beyond : limit < (run ++ piece).length) (delimiter : Bool) :
    account limit { parts, bytes := run.length } piece delimiter =
      (if delimiter then [] else [.drop { bytes := (run ++ piece).length
                                          prefixText := beginning limit (run ++ piece)
                                          phase := .start }],
        { bytes := (run ++ piece).length, prefixText := some (beginning limit (run ++ piece))
          announced := !delimiter }) := by
  have some_ : piece ≠ [] := by
    rintro rfl
    rw [List.append_nil] at beyond
    omega
  have kept := concatTo_parts within whole beyond
  have longer : limit < run.length + piece.length := List.length_append ▸ beyond
  cases delimiter <;> simp [account, some_, longer, kept, beginning]

theorem account_dropping {limit : Nat} {run : List Nat} (beyond : limit < run.length)
    (piece : List Nat) (delimiter : Bool) :
    account limit { bytes := run.length, prefixText := some (beginning limit run), announced := true }
        piece delimiter =
      ([], { bytes := (run ++ piece).length, prefixText := some (beginning limit (run ++ piece))
             announced := true }) := by
  rw [beginning_append (Nat.le_of_lt beyond)]
  simp [account]

theorem account_chunk {limit : Nat} {run : List Nat} {s : State} {had : List FramedBytes}
    (reading : Reading limit run s had) (piece : List Nat) :
    Reading limit (run ++ piece) (account limit s piece false).2
      (had ++ (account limit s piece false).1) := by
  cases reading with
  | keeping within whole empty =>
    by_cases fits : (run ++ piece).length ≤ limit
    · obtain ⟨parts', same, whole', empty'⟩ := account_within whole empty fits false
      rw [same]
      exact .keeping fits whole' empty'
    · rw [account_beyond within whole (Nat.lt_of_not_le fits)]
      exact .dropping (Nat.lt_of_not_le fits)
  | dropping beyond =>
    rw [account_dropping beyond, List.append_nil, ← beginning_append (Nat.le_of_lt beyond) piece]
    apply Reading.dropping
    rw [List.length_append]
    omega

theorem finish_keeping {limit : Nat} {run : List Nat} {parts : List (List Nat)}
    (within : run.length ≤ limit) (whole : parts.flatten = run) (tail : Option Nat) :
    RunFrames limit (run, tail) ((finish { parts, bytes := run.length }).1 ++
      tail.toList.map fun b => .data [b]) := by
  apply RunFrames.whole within
  · intro frame member
    simp only [finish, List.mem_append, List.mem_map, Option.mem_toList] at member
    rcases member with closing | ⟨b, _, same⟩
    · split at closing
      · exact ⟨_, List.mem_singleton.mp closing⟩
      · cases closing
    · exact ⟨_, same.symm⟩
  · have last : (tail.toList.map fun b => FramedBytes.data [b]).flatMap dataBytes = tail.toList := by
      cases tail <;> rfl
    rw [List.flatMap_append, last]
    congr 1
    by_cases none_ : parts = []
    · simp [finish, none_, ← whole]
    · simp [finish, none_, whole, dataBytes]

theorem account_delimiter {limit : Nat} {run : List Nat} {s : State} {had : List FramedBytes}
    (reading : Reading limit run s had) (piece : List Nat) (b : Nat) :
    RunFrames limit (run ++ piece, some b)
      (had ++ ((account limit s piece true).1 ++ (finish (account limit s piece true).2).1 ++
        (if (account limit s piece true).2.prefixText.isSome then [] else [.data [b]]))) := by
  cases reading with
  | keeping within whole empty =>
    by_cases fits : (run ++ piece).length ≤ limit
    · obtain ⟨parts', same, whole', _⟩ := account_within whole empty fits true
      rw [same]
      exact finish_keeping fits whole' (some b)
    · rw [account_beyond within whole (Nat.lt_of_not_le fits)]
      exact .complete (Nat.lt_of_not_le fits)
  | dropping beyond =>
    rw [account_dropping beyond]
    apply RunFrames.split
    change limit < (run ++ piece).length
    rw [List.length_append]
    omega

theorem finish_last {limit : Nat} {run : List Nat} {s : State} {had : List FramedBytes}
    (reading : Reading limit run s had) : RunFrames limit (run, none) (had ++ (finish s).1) := by
  cases reading with
  | keeping within whole _ =>
    have closing := finish_keeping within whole none
    simpa using closing
  | dropping beyond => exact .split beyond _ _

/-! ### Chunks -/

/-- Frames that are those of one run after another. -/
def Framed (limit : Nat) (runs : List (List Nat × Option Nat)) (frames : List FramedBytes) : Prop :=
  ∃ groups, List.Forall₂ (RunFrames limit) runs groups ∧ groups.flatten = frames

theorem runsFrom_append (stream more : List Nat) : ∀ run, ∃ done last,
    runsFrom run stream = done ++ [(last, none)] ∧
      runsFrom run (stream ++ more) = done ++ runsFrom last more := by
  induction stream with
  | nil => exact fun run => ⟨[], run, rfl, rfl⟩
  | cons b rest ih =>
    intro run
    rw [List.cons_append, runsFrom, runsFrom]
    split
    · obtain ⟨done, last, now, later⟩ := ih []
      exact ⟨(run, some b) :: done, last, by rw [now]; rfl, by rw [later]; rfl⟩
    · exact ih (run ++ [b])

theorem nextFrom_spec {limit : Nat} (rest : List Nat) : ∀ {run piece : List Nat} {s : State}
    {had : List FramedBytes}, Reading limit run s had → ∃ done last groups had',
    runsFrom (run ++ piece) rest = done ++ [(last, none)] ∧
      List.Forall₂ (RunFrames limit) done groups ∧
      Reading limit last (nextFrom limit s piece rest).2 had' ∧
      groups.flatten ++ had' = had ++ (nextFrom limit s piece rest).1 := by
  induction rest with
  | nil =>
    intro run piece s had reading
    exact ⟨[], _, [], _, rfl, .nil, account_chunk reading piece, rfl⟩
  | cons b rest ih =>
    intro run piece s had reading
    rw [runsFrom, nextFrom]
    split
    · -- the run ends here, and the next begins behind the delimiter
      have ended := account_delimiter reading piece b
      obtain ⟨done, last, groups, had', split, framed, reading', same⟩ :=
        @ih [] [] {} [] (reading_start limit)
      refine ⟨(run ++ piece, some b) :: done, last, _ :: groups, had', ?_, .cons ended framed,
        reading', ?_⟩
      · rw [List.append_nil] at split
        rw [split]
        rfl
      · rw [List.flatten_cons, List.append_assoc, same]
        simp [finish]
    · obtain ⟨done, last, groups, had', split, framed, reading', same⟩ :=
        @ih run (piece ++ [b]) s had reading
      rw [← List.append_assoc] at split
      exact ⟨done, last, groups, had', split, framed, reading', same⟩

theorem feed_spec {limit : Nat} (chunks : List (List Nat)) : ∀ {run : List Nat} {s : State}
    {had : List FramedBytes}, Reading limit run s had → ∃ done last groups had',
    runsFrom run chunks.flatten = done ++ [(last, none)] ∧
      List.Forall₂ (RunFrames limit) done groups ∧
      Reading limit last (feed limit s chunks).2 had' ∧
      groups.flatten ++ had' = had ++ (feed limit s chunks).1 := by
  induction chunks with
  | nil =>
    intro run s had reading
    exact ⟨[], run, [], had, rfl, .nil, reading, by simp [feed]⟩
  | cons chunk chunks ih =>
    intro run s had reading
    obtain ⟨done, last, groups, had', split, framed, reading', same⟩ :=
      @nextFrom_spec limit chunk run [] s had reading
    obtain ⟨done', last', groups', had'', split', framed', reading'', same'⟩ := ih reading'
    rw [List.append_nil] at split
    obtain ⟨done₁, last₁, split₁, whole⟩ := runsFrom_append chunk chunks.flatten run
    obtain ⟨rfl, isLast⟩ := List.append_inj' (split.symm.trans split₁) rfl
    obtain rfl : last = last₁ := by simpa using isLast
    refine ⟨done ++ done', last', groups ++ groups', had'', ?_, List.rel_append framed framed',
      reading'', ?_⟩
    · rw [List.flatten_cons, whole, split', List.append_assoc]
    · rw [List.flatten_append, List.append_assoc, same', ← List.append_assoc, same]
      simp only [feed, next, List.append_assoc]

theorem Framed.bytes_eq {limit : Nat} {runs : List (List Nat × Option Nat)}
    {frames : List FramedBytes} (framed : Framed limit runs frames) :
    frames.flatMap dataBytes = runs.flatMap (kept limit) := by
  obtain ⟨groups, each, rfl⟩ := framed
  induction each with
  | nil => rfl
  | cons first _ ih => rw [List.flatten_cons, List.flatMap_append, first.bytes_eq, ih, List.flatMap_cons]

/-- **Lines over the limit, and no others, are dropped.** The data frames are the stream without
its longer runs and their delimiters, and the frames are those of one run after another. -/
theorem frames_exact (limit : Nat) (chunks : List (List Nat)) :
    (frames limit chunks).flatMap dataBytes = (runs chunks.flatten).flatMap (kept limit) ∧
      Framed limit (runs chunks.flatten) (frames limit chunks) := by
  obtain ⟨done, last, groups, had, split, framed, reading, same⟩ :=
    feed_spec chunks (reading_start limit)
  have whole : Framed limit (runs chunks.flatten) (frames limit chunks) := by
    refine ⟨groups ++ [had ++ (finish (feed limit {} chunks).2).1], ?_, ?_⟩
    · rw [runs, split]
      exact List.rel_append framed (.cons (finish_last reading) .nil)
    · rw [List.flatten_append, List.flatten_singleton, ← List.append_assoc, same]
      rfl
  exact ⟨whole.bytes_eq, whole⟩

end Ace.Provider.BoundedLineFraming
