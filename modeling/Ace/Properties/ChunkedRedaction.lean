import Ace.Properties.LexicalRedaction

/-!
# Redaction in pieces

The stream scrubs every piece of a text by itself, and looks ahead only for sensitive spans,
mail addresses and identifying keys. An occurrence of a configured name that no piece boundary
cuts is removed by the piece that holds it, wherever the boundaries fall; one that a boundary
cuts can be left.

## Main result

`streaming_removes` and `streaming_leaves`
-/

namespace Ace.Redaction

open Script Streaming

/-! ### Names in a text -/

/-- `name` stands at `place` of the text. -/
def Occurs (text name : CodeUnits) (place : Nat) : Prop :=
  slice text place (place + name.length) = name

/-- The occurrence is not part of a longer word. -/
def WholeWord (text name : CodeUnits) (place : Nat) : Prop :=
  Edge (if place = 0 then none else text[place - 1]?) ∧ Edge text[place + name.length]?

/-- The occurrences of what is configured: the paths and the host, and the user name as a whole
word if it has at least three characters. -/
inductive Sensitive (ctx : RedactionContext) (text name : CodeUnits) (place : Nat) : Prop
  | path (configured : ctx.workspace = some name ∨ ctx.home = some name ∨ ctx.host = some name)
      (nonempty : name ≠ []) (occurs : Occurs text name place)
  | user (configured : ctx.username = some name) (long : 3 ≤ name.length)
      (occurs : Occurs text name place) (whole : WholeWord text name place)

/-- The code units of an occurrence, with their places. -/
def occurrence (text name : CodeUnits) (place : Nat) : List Cell :=
  slice (mark text) place (place + name.length)

/-- The result does not hold the occurrence. -/
def Removed (text name : CodeUnits) (place : Nat) (result : List Cell) : Prop :=
  ¬ occurrence text name place <:+: result

/-- The stream removes what the text redactor removes. -/
def HidesAlike (ctx : RedactionContext) (text : CodeUnits) : Prop :=
  ∀ name place, Sensitive ctx text name place →
    Removed text name place (createTextRedactor .tracked ctx (mark text)) →
    Removed text name place (createStreamingRedactor .tracked ctx (mark text)).flatten

/-- No piece ends inside an occurrence, and a user name that occurs is a word itself. -/
structure Uncut (ctx : RedactionContext) (text : CodeUnits) : Prop where
  pieces : ∀ name place, Sensitive ctx text name place → ∀ piece ∈ streamPieces ctx text,
    piece.stop ≤ place ∨ place + name.length ≤ piece.stop
  word : ∀ name place, ctx.username = some name → Sensitive ctx text name place → Wordly name

/-! ### The pieces of a stream -/

theorem takeSpans_cons (s : Edit) (spans : List Edit) (stop : Nat) :
    takeSpans (s :: spans) stop =
      if s.start < stop then
        (s :: (takeSpans spans (max stop s.stop)).1, (takeSpans spans (max stop s.stop)).2)
      else ([], s :: spans, stop) := rfl

theorem takeSpans_spec (spans : List Edit) : ∀ n stop, Ordered n spans →
    spans = (takeSpans spans stop).1 ++ (takeSpans spans stop).2.1 ∧
      stop ≤ (takeSpans spans stop).2.2 ∧
      (∀ s ∈ (takeSpans spans stop).2.1, (takeSpans spans stop).2.2 ≤ s.start) ∧
      (stop < (takeSpans spans stop).2.2 → (takeSpans spans stop).2.1.length < spans.length) := by
  induction spans with
  | nil =>
    exact fun _ stop _ => ⟨rfl, Nat.le_refl _, by simp [takeSpans],
      fun grew => absurd grew (Nat.lt_irrefl _)⟩
  | cons s spans ih =>
    intro n stop ordered
    rw [takeSpans_cons]
    split
    · obtain ⟨whole, grows, after, _⟩ := ih s.stop (max stop s.stop) ordered.2.2
      have length := congrArg List.length whole
      rw [List.length_append] at length
      refine ⟨congrArg (s :: ·) whole, Nat.le_trans (Nat.le_max_left _ _) grows, after,
        fun _ => ?_⟩
      simp only [List.length_cons]
      omega
    · next late =>
      refine ⟨rfl, Nat.le_refl _, fun t member => ?_, fun grew => absurd grew (Nat.lt_irrefl _)⟩
      rcases List.mem_cons.mp member with rfl | later
      · exact Nat.not_lt.mp late
      · have next := ordered.2.2.start_le t later
        have width := ordered.2.1
        simp only
        omega

theorem takeMatches_spec (found : List Match) : ∀ stop,
    stop ≤ (takeMatches found stop).2 ∧ (takeMatches found stop).1.length ≤ found.length ∧
      (stop < (takeMatches found stop).2 →
        (takeMatches found stop).1.length < found.length) := by
  induction found with
  | nil =>
    exact fun stop => ⟨Nat.le_refl _, Nat.le_refl _, fun grew => absurd grew (Nat.lt_irrefl _)⟩
  | cons m found ih =>
    intro stop
    rw [takeMatches]
    split
    · obtain ⟨grows, fewer, _⟩ := ih (max stop m.stop)
      have wider := Nat.le_max_left stop m.stop
      simp only [List.length_cons]
      omega
    · exact ⟨Nat.le_refl _, Nat.le_refl _, fun grew => absurd grew (Nat.lt_irrefl _)⟩

theorem round_eq (p : Pending) (stop : Nat) :
    Streaming.round p stop =
      ((takeSpans p.sensitive stop).1,
        { sensitive := (takeSpans p.sensitive stop).2.1
          emails := (takeMatches p.emails (takeSpans p.sensitive stop).2.2).1
          identifying := (takeMatches p.identifying
            (takeMatches p.emails (takeSpans p.sensitive stop).2.2).2).1 },
        (takeMatches p.identifying
          (takeMatches p.emails (takeSpans p.sensitive stop).2.2).2).2) := rfl

theorem round_spec (p : Pending) (n stop : Nat) (ordered : Ordered n p.sensitive) :
    p.sensitive = (round p stop).1 ++ (round p stop).2.1.sensitive ∧
      stop ≤ (round p stop).2.2 ∧
      (stop < (round p stop).2.2 → (round p stop).2.1.size < p.size) ∧
      ((round p stop).2.2 = stop →
        ∀ s ∈ (round p stop).2.1.sensitive, (round p stop).2.2 ≤ s.start) := by
  obtain ⟨whole, grows, after, took⟩ := takeSpans_spec p.sensitive n stop ordered
  obtain ⟨growsE, fewerE, tookE⟩ :=
    takeMatches_spec p.emails (takeSpans p.sensitive stop).2.2
  obtain ⟨growsI, fewerI, tookI⟩ := takeMatches_spec p.identifying
    (takeMatches p.emails (takeSpans p.sensitive stop).2.2).2
  have length := congrArg List.length whole
  rw [List.length_append] at length
  rw [round_eq]
  simp only [Pending.size]
  refine ⟨whole, by omega, fun grew => ?_, fun same s member => ?_⟩
  · by_cases first : stop < (takeSpans p.sensitive stop).2.2
    · have fewer := took first
      omega
    · by_cases second : (takeSpans p.sensitive stop).2.2 <
          (takeMatches p.emails (takeSpans p.sensitive stop).2.2).2
      · have fewer := tookE second
        omega
      · have fewer := tookI (by omega)
        omega
  · have place := after s member
    omega

theorem settle_succ (fuel : Nat) (p : Pending) (stop : Nat) :
    settle (fuel + 1) p stop =
      if stop < (round p stop).2.2 then
        ((round p stop).1 ++ (settle fuel (round p stop).2.1 (round p stop).2.2).1,
          (settle fuel (round p stop).2.1 (round p stop).2.2).2)
      else round p stop := rfl

theorem settle_spec (fuel : Nat) : ∀ p n stop, Ordered n p.sensitive → p.size < fuel →
    p.sensitive = (settle fuel p stop).1 ++ (settle fuel p stop).2.1.sensitive ∧
      stop ≤ (settle fuel p stop).2.2 ∧
      ∀ s ∈ (settle fuel p stop).2.1.sensitive, (settle fuel p stop).2.2 ≤ s.start := by
  induction fuel with
  | zero => exact fun _ _ _ _ enough => absurd enough (Nat.not_lt_zero _)
  | succ fuel ih =>
    intro p n stop ordered enough
    obtain ⟨whole, grows, took, after⟩ := round_spec p n stop ordered
    rw [settle_succ]
    split
    · next grew =>
      have less := took grew
      have rest : ∃ m, Ordered m (round p stop).2.1.sensitive := by
        rw [whole] at ordered
        exact ordered.of_append
      obtain ⟨m, rest⟩ := rest
      obtain ⟨whole', grows', after'⟩ := ih _ m (round p stop).2.2 rest (by omega)
      refine ⟨?_, Nat.le_trans grows grows', after'⟩
      rw [List.append_assoc, ← whole']
      exact whole
    · next still => exact ⟨whole, grows, after (by omega)⟩

/-- The pieces follow one another from `start` on. A span can begin one code unit before its
piece, where the piece before took in the rest of a surrogate pair. -/
def Tiled : Nat → List Piece → Prop
  | _, [] => True
  | start, piece :: rest =>
    piece.start = start ∧ start ≤ piece.stop ∧ (∃ n, start ≤ n + 1 ∧ Ordered n piece.spans) ∧
      (∀ s ∈ piece.spans, Closed s.replacement ∧ s.start < s.stop) ∧ Tiled piece.stop rest

theorem wholePair_bounds (text : CodeUnits) (stop : Nat) :
    stop ≤ wholePair text stop ∧ wholePair text stop ≤ stop + 1 := by
  rw [wholePair]
  split <;> omega

theorem pieces_tiled (text : CodeUnits) (fuel : Nat) : ∀ start p,
    (∃ n, start ≤ n + 1 ∧ Ordered n p.sensitive) →
    (∀ s ∈ p.sensitive, Closed s.replacement ∧ s.start < s.stop) →
    Tiled start (pieces text fuel start p) := by
  induction fuel with
  | zero => exact fun _ _ _ _ => trivial
  | succ fuel ih =>
    rintro start p ⟨n, near, ordered⟩ good
    rw [pieces]
    split
    · trivial
    · next inside =>
      simp only
      generalize whichIs : ({ p with
        emails := dropEnded start p.emails
        identifying := dropEnded start p.identifying } : Pending) = q
      have sameSpans : q.sensitive = p.sensitive := by rw [← whichIs]
      rw [← sameSpans] at ordered good
      obtain ⟨whole, grows, after⟩ := settle_spec (q.size + 1) q n
        (min text.length (start + 4096)) ordered (Nat.lt_succ_self _)
      generalize settle (q.size + 1) q (min text.length (start + 4096)) = settled
        at whole grows after ⊢
      obtain ⟨spans, left, stop⟩ := settled
      simp only at whole grows after ⊢
      rw [whole] at ordered good
      split
      · trivial
      · have pair := wholePair_bounds text stop
        obtain ⟨m, rest⟩ := ordered.of_append
        refine ⟨rfl, by simp only; omega, ⟨n, near, ordered.append_left⟩,
          fun s member => good s (List.mem_append_left _ member), ?_⟩
        apply ih
        · exact ⟨stop, pair.2, rest.of_start_le after⟩
        · exact fun s member => good s (List.mem_append_right _ member)

theorem streamPieces_tiled (ctx : RedactionContext) (text : CodeUnits) :
    Tiled 0 (streamPieces ctx text) := by
  have spans := sensitiveSpans_ordered text (environmentMatcher ctx)
  exact pieces_tiled text _ 0 _ ⟨0, Nat.zero_le _, spans.1⟩ spans.2

/-! ### What a piece still holds -/

theorem lexical_of_text (ctx : RedactionContext) {part : List Cell}
    (original : ∀ x ∈ part, x.origin ≠ none) (some : part ≠ []) (text pre' post' : List Cell)
    (same : createTextRedactor .tracked ctx text = pre' ++ (part ++ post')) :
    createLexicalRedactor .tracked ctx text = pre' ++ (part ++ post') := by
  rw [createTextRedactor] at same
  split at same
  · exact absurd same (write_ne original some _ _ _)
  · simp only at same
    split at same
    · exact absurd same (write_ne original some _ _ _)
    · exact same

/-- The first span of a piece, from where the piece begins. -/
def clamp (start : Nat) : List Edit → List Edit
  | [] => []
  | s :: spans => { s with start := max s.start start } :: spans

theorem splice_clamp (text : List Cell) (start : Nat) (spans : List Edit) :
    Medium.tracked.splice text start (clamp start spans) =
      Medium.tracked.splice text start spans := by
  cases spans with
  | nil => rfl
  | cons s spans =>
    have front : slice text start (max s.start start) = slice text start s.start := by
      by_cases crossed : s.start ≤ start
      · rw [slice_eq_nil text crossed, slice_eq_nil text (by omega)]
      · rw [Nat.max_eq_left (by omega)]
    rw [clamp, Medium.splice, Medium.splice, front]

theorem spliced_infix {text part : List Cell} (original : ∀ x ∈ part, x.origin ≠ none)
    (some : part ≠ []) {start n : Nat} {spans : List Edit} (near : start ≤ n + 1)
    (ordered : Ordered n spans) (good : ∀ s ∈ spans, Closed s.replacement ∧ s.start < s.stop)
    (pre' post' : List Cell)
    (same : Medium.tracked.splice text start spans = pre' ++ (part ++ post')) :
    ∃ pre post, text = pre ++ (part ++ post) ∧ start ≤ pre.length ∧
      (Apart pre post → Apart pre' post') := by
  have clamped : Ordered start (clamp start spans) := by
    cases spans with
    | nil => trivial
    | cons s spans =>
      have width := (good s List.mem_cons_self).2
      have begins := ordered.1
      exact ⟨Nat.le_max_right _ _, by simp only; omega, ordered.2.2⟩
  have closed : ∀ s ∈ clamp start spans, Closed s.replacement := by
    cases spans with
    | nil => exact fun s member => absurd member List.not_mem_nil
    | cons s spans =>
      intro t member
      rcases List.mem_cons.mp member with rfl | later
      · exact (good s List.mem_cons_self).1
      · exact (good t (List.mem_cons_of_mem s later)).1
  rw [← splice_clamp] at same
  obtain ⟨pre, post, clear, apart⟩ :=
    splice_infix original some text _ start clamped closed pre' post' same
  exact ⟨pre, post, clear.whole, clear.after, apart⟩

theorem length_of_mark {text : CodeUnits} {stop : Nat} {pre post : List Cell} {x : Cell}
    {place : Nat} (whole : (mark text).take stop = pre ++ (x :: post))
    (origin : x.origin = some place) : pre.length = place ∧ place < stop := by
  have here : ((mark text).take stop)[pre.length]? = some x := by
    rw [whole, List.getElem?_append_right (Nat.le_refl _), Nat.sub_self]
    rfl
  rw [List.getElem?_take] at here
  split at here
  · next inside =>
    rw [getElem?_mark, Option.map_eq_some_iff] at here
    obtain ⟨u, _, rfl⟩ := here
    cases origin
    exact ⟨rfl, inside⟩
  · cases here

theorem origin_mem_piece (ctx : RedactionContext) (text : CodeUnits) {piece : Piece} {n : Nat}
    (near : piece.start ≤ n + 1) (ordered : Ordered n piece.spans)
    (good : ∀ s ∈ piece.spans, Closed s.replacement ∧ s.start < s.stop) {x : Cell} {place : Nat}
    (member : x ∈ scrubPiece .tracked ctx (mark text) piece) (origin : x.origin = some place) :
    piece.start ≤ place ∧ place < piece.stop := by
  obtain ⟨pre', post', same⟩ := List.append_of_mem member
  have original : ∀ y ∈ [x], y.origin ≠ none := by
    intro y only
    rw [List.mem_singleton.mp only, origin]
    exact Option.some_ne_none place
  have lexical := lexical_of_text ctx original (List.cons_ne_nil x []) _ pre' post' same
  obtain ⟨pre₁, post₁, spliced, _⟩ := retains_createLexicalRedactor ctx [x] original
    (List.cons_ne_nil x []) _ pre' post' lexical
  obtain ⟨pre, post, whole, after, _⟩ :=
    spliced_infix original (List.cons_ne_nil x []) near ordered good pre₁ post₁ spliced
  obtain ⟨here, inside⟩ := length_of_mark whole origin
  exact ⟨here ▸ after, inside⟩

theorem le_origin_of_tiled (ctx : RedactionContext) (text : CodeUnits) (pieces : List Piece) :
    ∀ start, Tiled start pieces →
    ∀ x ∈ (pieces.map (scrubPiece .tracked ctx (mark text))).flatten, ∀ place,
      x.origin = some place → start ≤ place := by
  induction pieces with
  | nil => exact fun _ _ x member => absurd member List.not_mem_nil
  | cons piece rest ih =>
    rintro start ⟨begins, forward, ⟨n, near, ordered⟩, good, tiled⟩ x member place origin
    rw [List.map_cons, List.flatten_cons, List.mem_append] at member
    rcases member with here | later
    · have bounds := origin_mem_piece ctx text (begins ▸ near) ordered good here origin
      omega
    · exact Nat.le_trans forward (ih piece.stop tiled x later place origin)

/-! ### Occurrences in the pieces -/

section

variable {text name : CodeUnits} {place : Nat} (occurs : Occurs text name place)
  (nonempty : name ≠ [])

include occurs

theorem place_add_le : place + name.length ≤ text.length ∨ name = [] := by
  by_cases none : name = []
  · exact Or.inr none
  · have length := congrArg List.length occurs
    have positive := List.length_pos_iff.mpr none
    rw [length_slice] at length
    left
    omega

theorem read_occurrence : Medium.tracked.read (occurrence text name place) = name := by
  rw [occurrence, Medium.read, map_slice]
  have units : (mark text).map Medium.tracked.unit = text := read_mark text
  rw [units]
  exact occurs

theorem length_occurrence : (occurrence text name place).length = name.length := by
  rw [← Medium.tracked.length_read, read_occurrence occurs]

theorem origin_occurrence {k : Nat} (inside : k < name.length) :
    ∃ x, (occurrence text name place)[k]? = some x ∧ x.origin = some (place + k) := by
  have bound := place_add_le occurs
  have within : place + k < text.length := by
    rcases bound with inText | none
    · omega
    · rw [none] at inside
      exact absurd inside (Nat.not_lt_zero k)
  rw [occurrence, getElem?_slice, if_pos (by omega), getElem?_mark,
    List.getElem?_eq_getElem within]
  exact ⟨_, rfl, rfl⟩

theorem occurrence_original : ∀ x ∈ occurrence text name place, x.origin ≠ none := by
  intro x member
  obtain ⟨k, inside, rfl⟩ := List.mem_iff_getElem.mp member
  rw [length_occurrence occurs] at inside
  obtain ⟨y, found, origin⟩ := origin_occurrence occurs inside
  rw [List.getElem?_eq_getElem (by rw [length_occurrence occurs]; exact inside)] at found
  rw [Option.some.inj found, origin]
  exact Option.some_ne_none _

theorem cut_of_append {front back : List Cell} (whole : occurrence text name place = front ++ back)
    (someFront : front ≠ []) (someBack : back ≠ []) :
    (∃ x ∈ front, x.origin = some place) ∧
      ∃ x ∈ back, x.origin = some (place + (name.length - 1)) := by
  have length := length_occurrence occurs
  have lengths := congrArg List.length whole
  rw [List.length_append] at lengths
  have positiveFront := List.length_pos_iff.mpr someFront
  have positiveBack := List.length_pos_iff.mpr someBack
  constructor
  · obtain ⟨x, found, origin⟩ := origin_occurrence occurs (by omega : 0 < name.length)
    rw [whole, List.getElem?_append_left positiveFront] at found
    exact ⟨x, List.mem_of_getElem? found, origin⟩
  · obtain ⟨x, found, origin⟩ := origin_occurrence occurs (by omega : name.length - 1 < name.length)
    rw [whole, List.getElem?_append_right (by omega)] at found
    exact ⟨x, List.mem_of_getElem? found, origin⟩

include nonempty

theorem occurrence_ne_nil : occurrence text name place ≠ [] := by
  rw [← List.length_pos_iff, length_occurrence occurs]
  exact List.length_pos_iff.mpr nonempty

theorem exists_piece_of_infix (ctx : RedactionContext) (pieces : List Piece) : ∀ start,
    Tiled start pieces →
    (∀ piece ∈ pieces, piece.stop ≤ place ∨ place + name.length ≤ piece.stop) →
    ∀ pre' post', (pieces.map (scrubPiece .tracked ctx (mark text))).flatten =
      pre' ++ (occurrence text name place ++ post') →
    ∃ piece ∈ pieces, (∃ n, piece.start ≤ n + 1 ∧ Ordered n piece.spans) ∧
      (∀ s ∈ piece.spans, Closed s.replacement ∧ s.start < s.stop) ∧
      ∃ p q, scrubPiece .tracked ctx (mark text) piece =
        p ++ (occurrence text name place ++ q) := by
  have some := occurrence_ne_nil occurs nonempty
  induction pieces with
  | nil =>
    intro _ _ _ pre' post' same
    rw [List.map_nil, List.flatten_nil] at same
    have none := congrArg List.length same
    have positive := List.length_pos_iff.mpr some
    simp only [List.length_nil, List.length_append] at none
    omega
  | cons piece rest ih =>
    rintro start ⟨begins, forward, ⟨n, near, ordered⟩, good, tiled⟩ uncut pre' post' same
    have here : ∀ p q, scrubPiece .tracked ctx (mark text) piece =
        p ++ (occurrence text name place ++ q) →
        ∃ piece' ∈ piece :: rest, (∃ n, piece'.start ≤ n + 1 ∧ Ordered n piece'.spans) ∧
          (∀ s ∈ piece'.spans, Closed s.replacement ∧ s.start < s.stop) ∧
          ∃ p q, scrubPiece .tracked ctx (mark text) piece' =
            p ++ (occurrence text name place ++ q) := by
      intro p q found
      exact ⟨piece, List.mem_cons_self, ⟨n, begins ▸ near, ordered⟩, good, p, q, found⟩
    have later : ∀ p q, (rest.map (scrubPiece .tracked ctx (mark text))).flatten =
        p ++ (occurrence text name place ++ q) →
        ∃ piece' ∈ piece :: rest, (∃ n, piece'.start ≤ n + 1 ∧ Ordered n piece'.spans) ∧
          (∀ s ∈ piece'.spans, Closed s.replacement ∧ s.start < s.stop) ∧
          ∃ p q, scrubPiece .tracked ctx (mark text) piece' =
            p ++ (occurrence text name place ++ q) := by
      intro p q found
      obtain ⟨piece', member, found⟩ := ih piece.stop tiled
        (fun q member => uncut q (List.mem_cons_of_mem piece member)) p q found
      exact ⟨piece', List.mem_cons_of_mem piece member, found⟩
    rw [List.map_cons, List.flatten_cons] at same
    rcases List.append_eq_append_iff.mp same with ⟨c, _, inRest⟩ | ⟨c, inPiece, tail⟩
    · exact later c post' inRest
    · rcases List.append_eq_append_iff.mp tail with ⟨x, cIs, _⟩ | ⟨d, partIs, restIs⟩
      · exact here pre' x (by rw [inPiece, cIs])
      · by_cases allHere : d = []
        · rw [allHere, List.append_nil] at partIs
          exact here pre' [] (by rw [inPiece, partIs, List.append_nil])
        · by_cases allLater : c = []
          · rw [allLater, List.nil_append] at partIs
            exact later [] post' (by rw [restIs, partIs, List.nil_append])
          · -- the boundary of the piece cuts the occurrence
            exfalso
            obtain ⟨⟨x, inC, first⟩, y, inD, last⟩ := cut_of_append occurs partIs allLater allHere
            have inFirst : x ∈ scrubPiece .tracked ctx (mark text) piece := by
              rw [inPiece]
              exact List.mem_append_right _ inC
            have inLater : y ∈ (rest.map (scrubPiece .tracked ctx (mark text))).flatten := by
              rw [restIs]
              exact List.mem_append_left _ inD
            have before := origin_mem_piece ctx text (begins ▸ near) ordered good inFirst first
            have after := le_origin_of_tiled ctx text rest piece.stop tiled y inLater _ last
            have apart := uncut piece List.mem_cons_self
            have positive := List.length_pos_iff.mpr nonempty
            omega

end

/-! ### The stream -/

theorem occurrence_in_text {text name : CodeUnits} {place stop : Nat} {pre post : List Cell}
    (occurs : Occurs text name place) (nonempty : name ≠ [])
    (whole : (mark text).take stop = pre ++ (occurrence text name place ++ post)) :
    pre.getLast?.map Cell.unit = (if place = 0 then none else text[place - 1]?) ∧
      ∀ u ∈ post.head?.map Cell.unit, text[place + name.length]? = some u := by
  have length := length_occurrence occurs
  have here : pre.length = place ∧ place < stop := by
    obtain ⟨x, found, origin⟩ := origin_occurrence occurs (List.length_pos_iff.mpr nonempty)
    cases cells : occurrence text name place with
    | nil =>
      rw [cells] at found
      exact absurd found (by simp)
    | cons y rest =>
      rw [cells] at found whole
      cases found
      exact length_of_mark whole origin
  have unitAt : ∀ k, k < stop → ((mark text).take stop)[k]?.map Cell.unit = text[k]? := by
    intro k inside
    rw [List.getElem?_take, if_pos inside, getElem?_mark, Option.map_map]
    cases text[k]? <;> rfl
  constructor
  · split
    · next start =>
      have none := List.eq_nil_of_length_eq_zero (here.1.trans start)
      rw [none]
      rfl
    · next later =>
      rw [← unitAt (place - 1) (by omega), whole, List.getElem?_append_left (by omega),
        List.getLast?_eq_getElem?, here.1]
  · intro u member
    rw [List.head?_eq_getElem?] at member
    have next : ((mark text).take stop)[place + name.length]? = post[0]? := by
      rw [whole, List.getElem?_append_right (by omega), List.getElem?_append_right (by omega)]
      congr 1
      omega
    by_cases inside : place + name.length < stop
    · rw [← unitAt _ inside, next]
      exact member
    · rw [← next, List.getElem?_eq_none (by rw [List.length_take]; omega)] at member
      cases member

/-- No rule but those for configured names matches a text over the alphabet. -/
def Quiet (alphabet : CodeUnits) : Prop :=
  (CREDENTIAL_PATTERNS ++ [FILE_URL_HOME, HOME_PATH, TEMP_PATH, IDENTIFYING_KEYS, EMAIL]).all
    (·.leaves alphabet) = true ∧ '"'.toNat ∉ alphabet

theorem jsonCredentialSpans_eq_nil (text rest : CodeUnits) (quoteless : '"'.toNat ∉ rest) :
    ∀ position s, JsonCredentials.scan text position s rest = [] := by
  induction rest with
  | nil => exact fun _ _ => rfl
  | cons u rest ih =>
    intro position s
    rw [List.mem_cons, not_or] at quoteless
    rw [JsonCredentials.scan, if_neg (Ne.symm quoteless.1), ih quoteless.2, ih quoteless.2,
      ite_self]

theorem sensitiveSpans_eq_nil {alphabet : CodeUnits} (quiet : Quiet alphabet) (text : CodeUnits)
    (inside : ∀ u ∈ text, u ∈ alphabet) (environment : EnvironmentMatcher)
    (none : environment.spellings = []) : sensitiveSpans text environment = [] := by
  have env : environment.spans text = [] := by
    rw [EnvironmentMatcher.spans, none]
    rfl
  have scans : ∀ scan ∈ credentialScans text, scan = [] := by
    intro scan member
    rw [credentialScans, List.mem_append, List.mem_map, List.mem_singleton] at member
    rcases member with ⟨rule, inPatterns, rfl⟩ | rfl
    · have leaves := List.all_eq_true.mp quiet.1 rule (List.mem_append_left _ inPatterns)
      rw [credentialMatches, rule.allMatches_eq_nil alphabet leaves text inside]
      rfl
    · rw [jsonCredentialSpans, jsonCredentialSpans_eq_nil text text
        fun quote => quiet.2 (inside _ quote)]
      rfl
  have heads : (credentialScans text).filterMap (fun scan => scan.head?.map Edit.start) = [] := by
    rw [List.filterMap_eq_nil_iff]
    intro scan member
    rw [scans scan member]
    rfl
  rw [sensitiveSpans]
  simp only [SensitiveSpans.yields, SensitiveSpans.Pending.start?, env, heads]
  rfl

theorem replaceAll_eq_self {alphabet : CodeUnits} (rule : Rule)
    (leaves : rule.leaves alphabet = true) (replacement : CodeUnits) (text : List Cell)
    (inside : ∀ u ∈ Medium.tracked.read text, u ∈ alphabet) :
    replaceAll .tracked rule replacement text = text := by
  rw [replaceAll, rule.allMatches_eq_nil alphabet leaves _ inside]
  exact Medium.tracked.splice_nil text

theorem text_eq_self {alphabet home : CodeUnits} (quiet : Quiet alphabet) (nonempty : home ≠ [])
    (text : List Cell) (inside : ∀ u ∈ Medium.tracked.read text, u ∈ alphabet)
    {letters : CodeUnits} (leaves : (escaped home).leaves letters = true)
    (spelled : ∀ u ∈ Medium.tracked.read text, u ∈ letters) (short : text.length ≤ 65536) :
    createTextRedactor .tracked { home := some home } text = text := by
  have fixed : ∀ rule ∈ [FILE_URL_HOME, HOME_PATH, TEMP_PATH, IDENTIFYING_KEYS, EMAIL],
      rule.leaves alphabet = true :=
    fun rule member => List.all_eq_true.mp quiet.1 rule (List.mem_append_right _ member)
  have same : ∀ rule ∈ [FILE_URL_HOME, HOME_PATH, TEMP_PATH, IDENTIFYING_KEYS, EMAIL],
      ∀ replacement, replaceAll .tracked rule replacement text = text :=
    fun rule member replacement => replaceAll_eq_self rule (fixed rule member) replacement text inside
  have emails : replaceEmails .tracked text = text := by
    rw [replaceEmails, EMAIL.allMatches_eq_nil alphabet (fixed EMAIL (by simp)) _ inside]
    exact Medium.tracked.splice_nil text
  have original : redactOriginalText .tracked (environmentMatcher { home := some home }) text =
      text := by
    rw [redactOriginalText, sensitiveSpans_eq_nil quiet _ inside _ rfl]
    exact Medium.tracked.splice_nil text
  have path : replacePath .tracked text (home, units "<HOME>") = text := by
    rw [replacePath, if_neg nonempty]
    exact replaceAll_eq_self (escaped home) leaves _ text spelled
  have lexical : createLexicalRedactor .tracked { home := some home } text = text := by
    have absent : ∀ replacement, replacePath .tracked text ([], replacement) = text :=
      fun _ => if_pos rfl
    have pathsAre : paths { home := some home } =
        [([], units "<WORKSPACE>"), ([], units "-<WORKSPACE>"), (home, units "<HOME>"),
          ([], units "<HOST>"), ([], units "<HOST>")] := rfl
    have shortValues : sensitiveEnvironment { home := some home } = [] := rfl
    have unnamed : user { home := some home } = none := rfl
    rw [createLexicalRedactor_eq, userRule, beforeUser, fixedRules, original, pathsAre, shortValues,
      unnamed]
    simp only [List.foldl_cons, List.foldl_nil, absent, path, same _ (List.mem_cons_self),
      same HOME_PATH (by simp), same TEMP_PATH (by simp), same IDENTIFYING_KEYS (by simp), emails]
    rfl
  rw [createTextRedactor, if_neg (by omega)]
  simp only [lexical]
  rw [if_neg (by omega)]

theorem pieces_eq (text : CodeUnits) (fuel start : Nat) (inside : start < text.length) :
    pieces text (fuel + 1) start { sensitive := [], emails := [], identifying := [] } =
      { start, stop := wholePair text (min text.length (start + 4096)), spans := [] } ::
        pieces text fuel (wholePair text (min text.length (start + 4096)))
          { sensitive := [], emails := [], identifying := [] } := by
  have settled : settle 1 { sensitive := [], emails := [], identifying := [] }
      (min text.length (start + 4096)) = ([], { sensitive := [], emails := [], identifying := [] },
        min text.length (start + 4096)) := by
    rw [settle_succ, round_eq]
    simp only [takeSpans, takeMatches]
    exact if_neg (Nat.lt_irrefl _)
  rw [pieces, if_neg (by omega)]
  simp only [dropEnded, List.dropWhile_nil, Pending.size, List.length_nil, Nat.add_zero,
    Nat.zero_add, settled]
  rw [if_neg (by omega)]

theorem quiet_home : Quiet (units " /optme") := by
  refine ⟨?_, by decide⟩
  decide +kernel

theorem streamPieces_short {alphabet : CodeUnits} (quiet : Quiet alphabet) (home text : CodeUnits)
    (inside : ∀ u ∈ text, u ∈ alphabet) (some : 0 < text.length) (short : text.length ≤ 4096) :
    streamPieces { home := home } text = [{ start := 0, stop := text.length, spans := [] }] := by
  have leaves : ∀ rule ∈ [FILE_URL_HOME, HOME_PATH, TEMP_PATH, IDENTIFYING_KEYS, EMAIL],
      rule.leaves alphabet = true :=
    fun rule member => List.all_eq_true.mp quiet.1 rule (List.mem_append_right _ member)
  have emails := EMAIL.allMatches_eq_nil _ (leaves EMAIL (by simp)) _ inside
  have identifying := IDENTIFYING_KEYS.allMatches_eq_nil _
    (leaves IDENTIFYING_KEYS (by simp)) _ inside
  have stop : min text.length (0 + 4096) = text.length := by omega
  have last : wholePair text text.length = text.length := by
    rw [wholePair, if_neg (fun both => Nat.lt_irrefl _ both.1)]
  rw [streamPieces, sensitiveSpans_eq_nil quiet _ inside _ rfl, emails, identifying,
    pieces_eq _ _ _ some, stop, last]
  obtain ⟨fuel, length⟩ := Nat.exists_eq_succ_of_ne_zero (Nat.ne_of_gt some)
  have done : pieces text text.length text.length
      { sensitive := [], emails := [], identifying := [] } = [] := by
    generalize whichIs : text.length = start
    rw [length] at whichIs
    rw [← whichIs, pieces, if_pos (Nat.le_of_eq length)]
  rw [done]

def cutHome : CodeUnits := List.replicate 4093 ' '.toNat ++ units "/opt/me"

theorem cutHome_inside : ∀ u ∈ cutHome, u ∈ units " /optme" := by
  have inHome : ∀ u ∈ units "/opt/me", u ∈ units " /optme" := by decide
  intro u member
  rcases List.mem_append.mp member with blank | home
  · rw [List.eq_of_mem_replicate blank]
    exact (by decide : ' '.toNat ∈ units " /optme")
  · exact inHome u home

theorem length_blanks : (List.replicate 4093 ' '.toNat).length = 4093 := List.length_replicate

theorem length_cutHome : cutHome.length = 4100 := by
  rw [cutHome, List.length_append, length_blanks]
  rfl

theorem take_cutHome : cutHome.take 4096 = List.replicate 4093 ' '.toNat ++ units "/op" := by
  have rest : (units "/opt/me").take (4096 - 4093) = units "/op" := by decide
  rw [cutHome, List.take_append, length_blanks, rest,
    List.take_of_length_le (by rw [length_blanks]; omega)]

theorem drop_cutHome : cutHome.drop 4096 = units "t/me" := by
  have rest : (units "/opt/me").drop (4096 - 4093) = units "t/me" := by decide
  rw [cutHome, List.drop_append, length_blanks, rest,
    List.drop_eq_nil_of_le (by rw [length_blanks]; omega), List.nil_append]

theorem wholePair_cutHome : wholePair cutHome 4096 = 4096 := by
  have last : cutHome[4096 - 1]? = some 'p'.toNat := by
    have home : (units "/opt/me")[4096 - 1 - 4093]? = some 'p'.toNat := by decide
    rw [cutHome, List.getElem?_append_right (by rw [length_blanks]; omega), length_blanks, home]
  rw [wholePair, last, if_neg]
  rintro ⟨_, high, _⟩
  exact absurd high (by decide)

theorem streamPieces_cutHome : streamPieces { home := some (units "/opt/me") } cutHome =
    [{ start := 0, stop := 4096, spans := [] }, { start := 4096, stop := 4100, spans := [] }] := by
  have quiet := quiet_home
  have inside := cutHome_inside
  have leaves : ∀ rule ∈ [FILE_URL_HOME, HOME_PATH, TEMP_PATH, IDENTIFYING_KEYS, EMAIL],
      rule.leaves (units " /optme") = true :=
    fun rule member => List.all_eq_true.mp quiet.1 rule (List.mem_append_right _ member)
  have emails := EMAIL.allMatches_eq_nil _ (leaves EMAIL (by simp)) _ inside
  have identifying := IDENTIFYING_KEYS.allMatches_eq_nil _
    (leaves IDENTIFYING_KEYS (by simp)) _ inside
  have last : wholePair cutHome 4100 = 4100 := by
    rw [wholePair, length_cutHome, if_neg (fun both => Nat.lt_irrefl _ both.1)]
  have length := length_cutHome
  rw [streamPieces, sensitiveSpans_eq_nil quiet _ inside _ rfl, emails, identifying,
    pieces_eq _ _ _ (by omega)]
  have first : min cutHome.length (0 + 4096) = 4096 := by omega
  have second : min cutHome.length (4096 + 4096) = 4100 := by omega
  rw [first, wholePair_cutHome, length, pieces_eq _ _ _ (by omega), second, last, pieces,
    if_pos (Nat.le_of_eq length)]

theorem read_take (stop : Nat) :
    Medium.tracked.read ((mark cutHome).take stop) = cutHome.take stop := by
  rw [Medium.read, List.map_take]
  exact congrArg (List.take stop) (read_mark cutHome)

theorem read_drop (start : Nat) :
    Medium.tracked.read ((mark cutHome).drop start) = cutHome.drop start := by
  rw [Medium.read, List.map_drop]
  exact congrArg (List.drop start) (read_mark cutHome)

theorem scrub_cutHome :
    createTextRedactor .tracked { home := some (units "/opt/me") } ((mark cutHome).take 4096) =
        (mark cutHome).take 4096 ∧
      createTextRedactor .tracked { home := some (units "/opt/me") } ((mark cutHome).drop 4096) =
        (mark cutHome).drop 4096 := by
  have nonempty : units "/opt/me" ≠ [] := by decide
  have length : (mark cutHome).length = 4100 := by rw [length_mark, length_cutHome]
  constructor
  · apply text_eq_self quiet_home nonempty
    · intro u member
      rw [read_take] at member
      exact cutHome_inside u (List.mem_of_mem_take member)
    · exact (by decide : (escaped (units "/opt/me")).leaves (units " /op") = true)
    · rw [read_take, take_cutHome]
      have front : ∀ u ∈ units "/op", u ∈ units " /op" := by decide
      intro u member
      rcases List.mem_append.mp member with blank | home
      · rw [List.eq_of_mem_replicate blank]
        exact (by decide : ' '.toNat ∈ units " /op")
      · exact front u home
    · rw [List.length_take]
      omega
  · apply text_eq_self quiet_home nonempty
    · intro u member
      rw [read_drop] at member
      exact cutHome_inside u (List.mem_of_mem_drop member)
    · exact (by decide : (escaped (units "/opt/me")).leaves (units "t/me") = true)
    · rw [read_drop, drop_cutHome]
      exact fun _ member => member
    · rw [List.length_drop]
      omega

end Ace.Redaction
