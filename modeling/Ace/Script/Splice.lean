import Ace.Script.Utf16

/-!
# Replacing spans of a text

A replacement copies what stands between the spans and puts new text in their place. It is
written once for every kind of cell that carries a code unit, so that one definition is both
what the program computes (cells are code units) and the same computation in which every cell
remembers where in the original text it stood.
-/

namespace Script

/-- A span of a text and what replaces it. -/
structure Edit where
  start : Nat
  stop : Nat
  replacement : CodeUnits
  deriving DecidableEq, Repr

/-- Cells that carry code units. -/
structure Medium (α : Type) where
  unit : α → Nat
  fresh : Nat → α
  unit_fresh : ∀ u, unit (fresh u) = u

namespace Medium

def plain : Medium Nat where
  unit := id
  fresh := id
  unit_fresh := fun _ => rfl

variable {α : Type} (M : Medium α)

def write (text : CodeUnits) : List α := text.map M.fresh

def read (text : List α) : CodeUnits := text.map M.unit

/-- The text from `start` on with its spans replaced. -/
def splice (text : List α) : Nat → List Edit → List α
  | start, [] => text.drop start
  | start, s :: spans =>
    slice text start s.start ++ (M.write s.replacement ++ splice text s.stop spans)

@[simp] theorem read_write (text : CodeUnits) : M.read (M.write text) = text := by
  rw [read, write, List.map_map]
  exact (List.map_congr_left fun u _ => M.unit_fresh u).trans (List.map_id text)

@[simp] theorem read_append (front back : List α) :
    M.read (front ++ back) = M.read front ++ M.read back := List.map_append

@[simp] theorem length_read (text : List α) : (M.read text).length = text.length :=
  List.length_map _

@[simp] theorem read_plain (text : CodeUnits) : plain.read text = text := List.map_id text

@[simp] theorem write_plain (text : CodeUnits) : plain.write text = text := List.map_id text

theorem read_splice (text : List α) (spans : List Edit) : ∀ start,
    M.read (M.splice text start spans) = plain.splice (M.read text) start spans := by
  induction spans with
  | nil =>
    intro start
    exact List.map_drop
  | cons s spans ih =>
    intro start
    rw [splice, splice, read_append, read_append, read_write, write_plain, ih s.stop, read,
      map_slice, read]

theorem splice_nil (text : List α) : M.splice text 0 [] = text := List.drop_zero

end Medium

/-! ### Tracked text -/

/-- A code unit with its place in the original text, if it has one. -/
structure Cell where
  unit : Nat
  origin : Option Nat
  deriving DecidableEq

def Medium.tracked : Medium Cell where
  unit := Cell.unit
  fresh := fun u => { unit := u, origin := none }
  unit_fresh := fun _ => rfl

/-- Every code unit at its own place. -/
def mark (text : CodeUnits) : List Cell := text.zipIdx.map fun (u, i) => { unit := u, origin := some i }

def origins (cells : List Cell) : List Nat := cells.filterMap Cell.origin

@[simp] theorem read_mark (text : CodeUnits) : Medium.tracked.read (mark text) = text := by
  rw [Medium.read, mark, List.map_map]
  exact List.zipIdx_map_fst 0 text

@[simp] theorem length_mark (text : CodeUnits) : (mark text).length = text.length := by simp [mark]

@[simp] theorem origins_append (front back : List Cell) :
    origins (front ++ back) = origins front ++ origins back := List.filterMap_append

@[simp] theorem origins_write (text : CodeUnits) : origins (Medium.tracked.write text) = [] := by
  simp [origins, Medium.write, Medium.tracked]

theorem getElem?_mark (text : CodeUnits) (k : Nat) :
    (mark text)[k]? = text[k]?.map fun u => { unit := u, origin := some k } := by
  simp [mark, List.getElem?_map, List.getElem?_zipIdx, Function.comp_def]

/-! ### Spans in order -/

/-- The spans follow one another from `start` on. -/
def Ordered : Nat → List Edit → Prop
  | _, [] => True
  | start, s :: spans => start ≤ s.start ∧ s.start ≤ s.stop ∧ Ordered s.stop spans

theorem Ordered.start_le {spans : List Edit} : ∀ {start : Nat}, Ordered start spans →
    ∀ s ∈ spans, start ≤ s.start := by
  induction spans with
  | nil => exact fun _ s member => absurd member List.not_mem_nil
  | cons first spans ih =>
    intro start ordered s member
    rcases List.mem_cons.mp member with rfl | later
    · exact ordered.1
    · exact Nat.le_trans (Nat.le_trans ordered.1 ordered.2.1) (ih ordered.2.2 s later)

theorem Ordered.pairwise {spans : List Edit} : ∀ {start : Nat}, Ordered start spans →
    spans.Pairwise fun s t => s.stop ≤ t.start := by
  induction spans with
  | nil => exact fun _ => List.Pairwise.nil
  | cons s spans ih =>
    exact fun ordered => List.Pairwise.cons (ordered.2.2.start_le ·) (ih ordered.2.2)

theorem Ordered.append_left {front back : List Edit} : ∀ {start : Nat},
    Ordered start (front ++ back) → Ordered start front := by
  induction front with
  | nil => exact fun _ => trivial
  | cons s front ih => exact fun ordered => ⟨ordered.1, ordered.2.1, ih ordered.2.2⟩

theorem Ordered.of_append {front back : List Edit} : ∀ {start : Nat},
    Ordered start (front ++ back) → ∃ place, Ordered place back := by
  induction front with
  | nil => exact fun {start} ordered => ⟨start, ordered⟩
  | cons s front ih => exact fun ordered => ih ordered.2.2

theorem Ordered.of_start_le {place start : Nat} {spans : List Edit} (ordered : Ordered place spans)
    (after : ∀ s ∈ spans, start ≤ s.start) : Ordered start spans := by
  cases spans with
  | nil => trivial
  | cons s spans => exact ⟨after s List.mem_cons_self, ordered.2⟩

theorem origins_splice (text : List Cell) (spans : List Edit) : ∀ start, Ordered start spans →
    (origins (Medium.tracked.splice text start spans)).Sublist (origins (text.drop start)) := by
  induction spans with
  | nil =>
    intro start _
    exact List.Sublist.refl _
  | cons s spans ih =>
    intro start ordered
    have split : text.drop start = slice text start s.start ++ text.drop s.start := by
      have whole := take_append_slice_append_drop text ordered.1
      calc text.drop start
        _ = (text.take start ++ (slice text start s.start ++ text.drop s.start)).drop start := by
          rw [whole]
        _ = slice text start s.start ++ text.drop s.start := by
          by_cases short : text.length ≤ start
          · have none : slice text start s.start ++ text.drop s.start = [] := by
              have front := congrArg List.length whole
              simp only [List.length_append, List.length_take] at front
              rw [List.append_eq_nil_iff]
              constructor <;> apply List.eq_nil_of_length_eq_zero <;> omega
            rw [none, List.append_nil, List.drop_eq_nil_iff, List.length_take]
            omega
          · exact List.drop_left' (List.length_take_of_le (by omega))
    rw [Medium.splice, origins_append, origins_append, origins_write, List.nil_append, split,
      origins_append]
    have rest : (origins (text.drop s.stop)).Sublist (origins (text.drop s.start)) :=
      (List.drop_sublist_drop_left text ordered.2.1).filterMap _
    exact (List.Sublist.refl _).append ((ih s.stop ordered.2.2).trans rest)

theorem mem_origins_slice (text : CodeUnits) (start stop k : Nat) :
    k ∈ origins (slice (mark text) start stop) ↔ start ≤ k ∧ k < stop ∧ k < text.length := by
  rw [origins, List.mem_filterMap]
  constructor
  · rintro ⟨cell, member, here⟩
    obtain ⟨i, found⟩ := List.mem_iff_getElem?.mp member
    rw [getElem?_slice, getElem?_mark] at found
    split at found
    · next inside =>
      rw [Option.map_eq_some_iff] at found
      obtain ⟨u, known, rfl⟩ := found
      have bound := (List.getElem?_eq_some_iff.mp known).1
      simp only [Option.some.injEq] at here
      omega
    · cases found
  · rintro ⟨after, before, inside⟩
    refine ⟨{ unit := text[k], origin := some k }, List.mem_iff_getElem?.mpr ⟨k - start, ?_⟩, rfl⟩
    rw [getElem?_slice, getElem?_mark, Nat.add_sub_cancel' after, if_pos before,
      List.getElem?_eq_getElem inside]
    rfl

theorem drop_eq_slice {α : Type} (text : List α) (start : Nat) :
    text.drop start = slice text start text.length := by
  rw [slice, List.take_length]

theorem mem_origins_splice (text : CodeUnits) (spans : List Edit) (k : Nat) : ∀ start,
    Ordered start spans →
    (k ∈ origins (Medium.tracked.splice (mark text) start spans) ↔
      start ≤ k ∧ k < text.length ∧ ∀ s ∈ spans, ¬ (s.start ≤ k ∧ k < s.stop)) := by
  induction spans with
  | nil =>
    intro start _
    rw [Medium.splice, drop_eq_slice, mem_origins_slice, length_mark]
    simp
  | cons s spans ih =>
    intro start ordered
    have later := ordered.2.2.start_le
    rw [Medium.splice, origins_append, origins_append, origins_write, List.nil_append,
      List.mem_append, mem_origins_slice, ih s.stop ordered.2.2, List.forall_mem_cons]
    have first := ordered.1
    have second := ordered.2.1
    constructor
    · rintro (⟨after, before, inside⟩ | ⟨after, inside, outside⟩)
      · refine ⟨after, inside, by omega, fun t member covered => ?_⟩
        have bound := later t member
        omega
      · exact ⟨by omega, inside, by omega, outside⟩
    · rintro ⟨after, inside, here, outside⟩
      by_cases before : k < s.start
      · exact .inl ⟨after, before, inside⟩
      · exact .inr ⟨by omega, inside, outside⟩

theorem origins_mark (text : CodeUnits) : origins (mark text) = List.range text.length := by
  rw [origins, mark, List.filterMap_map, List.range_eq_range', ← List.zipIdx_map_snd 0 text]
  induction text.zipIdx with
  | nil => rfl
  | cons entry rest ih => simp [ih]

theorem origins_splice_eq (text : CodeUnits) (spans : List Edit) (ordered : Ordered 0 spans) :
    origins (Medium.tracked.splice (mark text) 0 spans) =
      (List.range text.length).filter fun k => spans.all fun s => k < s.start || s.stop ≤ k := by
  have sorted : (origins (Medium.tracked.splice (mark text) 0 spans)).Pairwise (· < ·) := by
    have sub := origins_splice (mark text) spans 0 ordered
    rw [List.drop_zero, origins_mark] at sub
    exact List.pairwise_lt_range.sublist sub
  have other := (List.pairwise_lt_range (n := text.length)).filter
    fun k => spans.all fun s => k < s.start || s.stop ≤ k
  refine List.Perm.eq_of_pairwise (fun a b _ _ less more => absurd (Nat.lt_trans less more) (by simp))
    sorted other ?_
  rw [List.perm_ext_iff_of_nodup (sorted.imp Nat.ne_of_lt) (other.imp Nat.ne_of_lt)]
  intro k
  rw [mem_origins_splice text spans k 0 ordered, List.mem_filter, List.mem_range, List.all_eq_true]
  have outside : ∀ s : Edit, (decide (k < s.start) || decide (s.stop ≤ k)) = true ↔
      ¬ (s.start ≤ k ∧ k < s.stop) := by
    intro s
    rw [Bool.or_eq_true, decide_eq_true_iff, decide_eq_true_iff]
    omega
  simp only [outside, Nat.zero_le, true_and]

/-! ### What is still there after a replacement -/

/-- The neighbour of a word, if any, is not part of it. -/
def Edge (neighbour : Option Nat) : Prop := ∀ u ∈ neighbour, isWordUnit u = false

instance (neighbour : Option Nat) : Decidable (Edge neighbour) :=
  inferInstanceAs (Decidable (∀ u ∈ neighbour, isWordUnit u = false))

/-- A text with which no word beside it can grow together. -/
structure Closed (text : CodeUnits) : Prop where
  nonempty : text ≠ []
  front : Edge text.head?
  back : Edge text.getLast?

instance (text : CodeUnits) : Decidable (Closed text) :=
  decidable_of_iff (text ≠ [] ∧ Edge text.head? ∧ Edge text.getLast?)
    ⟨fun h => ⟨h.1, h.2.1, h.2.2⟩, fun h => ⟨h.nonempty, h.front, h.back⟩⟩

theorem append_cases {α : Type} {front middle back pre part post : List α}
    (apart : ∀ x ∈ part, x ∉ middle) (some : middle ≠ []) (part_some : part ≠ [])
    (same : front ++ (middle ++ back) = pre ++ (part ++ post)) :
    (∃ x, front = pre ++ (part ++ x) ∧ post = x ++ (middle ++ back)) ∨
      ∃ y, back = y ++ (part ++ post) ∧ pre = front ++ (middle ++ y) := by
  rcases List.append_eq_append_iff.mp same with ⟨c, preIs, tail⟩ | ⟨c, frontIs, tail⟩
  · right
    rcases List.append_eq_append_iff.mp tail with ⟨y, cIs, backIs⟩ | ⟨d, middleIs, partIs⟩
    · exact ⟨y, backIs, by rw [preIs, cIs]⟩
    · cases d with
      | nil =>
        rw [List.append_nil] at middleIs
        refine ⟨[], partIs.symm, ?_⟩
        rw [preIs, middleIs, List.append_nil]
      | cons x d =>
        obtain ⟨p, part', rfl⟩ := List.exists_cons_of_ne_nil part_some
        have head : p = x := (List.cons.inj partIs).1
        refine absurd ?_ (apart p List.mem_cons_self)
        rw [middleIs, head]
        exact List.mem_append_right _ List.mem_cons_self
  · left
    rcases List.append_eq_append_iff.mp tail with ⟨x, cIs, postIs⟩ | ⟨d, partIs, middleIs⟩
    · exact ⟨x, by rw [frontIs, cIs], postIs⟩
    · cases d with
      | nil =>
        rw [List.append_nil] at partIs
        refine ⟨[], ?_, middleIs.symm⟩
        rw [frontIs, partIs, List.append_nil]
      | cons x d =>
        obtain ⟨m, middle', rfl⟩ := List.exists_cons_of_ne_nil some
        have head : m = x := (List.cons.inj middleIs).1
        refine absurd List.mem_cons_self (apart m ?_)
        rw [partIs, head]
        exact List.mem_append_right _ List.mem_cons_self

/-- The code units beside a part of a text are not part of a word with it. -/
structure Apart (pre post : List Cell) : Prop where
  front : Edge (pre.getLast?.map Cell.unit)
  back : Edge (post.head?.map Cell.unit)

/-- A part of a text that stands clear of the spans. -/
structure Clear (text part : List Cell) (start : Nat) (spans : List Edit)
    (pre post : List Cell) : Prop where
  whole : text = pre ++ (part ++ post)
  after : start ≤ pre.length
  clear : ∀ s ∈ spans, pre.length < s.start ∨ s.stop ≤ pre.length

theorem edge_front_of_suffix {pre pre' : List Cell} (suffix : pre' <:+ pre)
    (edge : Edge (pre.getLast?.map Cell.unit)) : Edge (pre'.getLast?.map Cell.unit) := by
  obtain ⟨front, rfl⟩ := suffix
  rcases List.eq_nil_or_concat pre' with rfl | ⟨body, last, rfl⟩
  · exact fun u member => absurd member (by simp)
  · simpa using edge

theorem write_ne_nil {text : CodeUnits} (closed : Closed text) : Medium.tracked.write text ≠ [] := by
  rw [Medium.write, Ne, List.map_eq_nil_iff]
  exact closed.nonempty

theorem edge_write_getLast {text : CodeUnits} (closed : Closed text) (pre : List Cell) :
    Edge ((pre ++ Medium.tracked.write text).getLast?.map Cell.unit) := by
  rw [List.getLast?_append_of_ne_nil _ (write_ne_nil closed), Medium.write, List.getLast?_map,
    Option.map_map]
  have units : Cell.unit ∘ Medium.tracked.fresh = id := rfl
  rw [units, Option.map_id]
  exact closed.back

theorem edge_write_head {text : CodeUnits} (closed : Closed text) (post : List Cell) :
    Edge ((Medium.tracked.write text ++ post).head?.map Cell.unit) := by
  rw [List.head?_append_of_ne_nil _ (write_ne_nil closed), Medium.write, List.head?_map,
    Option.map_map]
  have units : Cell.unit ∘ Medium.tracked.fresh = id := rfl
  rw [units, Option.map_id]
  exact closed.front

/-- What is still there after a replacement stood in the text clear of the spans, and stands
no closer to a word than it did. -/
theorem splice_infix {part : List Cell} (original : ∀ x ∈ part, x.origin ≠ none)
    (nonempty : part ≠ []) (text : List Cell) (spans : List Edit) : ∀ start, Ordered start spans →
    (∀ s ∈ spans, Closed s.replacement) → ∀ pre' post',
    Medium.tracked.splice text start spans = pre' ++ (part ++ post') →
    ∃ pre post, Clear text part start spans pre post ∧ (Apart pre post → Apart pre' post') := by
  have fromText : ∀ replacement, ∀ x ∈ part, x ∉ Medium.tracked.write replacement := by
    intro replacement x inPart inFresh
    obtain ⟨u, _, rfl⟩ := List.mem_map.mp inFresh
    exact original _ inPart rfl
  induction spans with
  | nil =>
    intro start _ _ pre' post' same
    rw [Medium.splice] at same
    have inside : start < text.length := by
      have some := List.length_pos_iff.mpr nonempty
      have lengths := congrArg List.length same
      simp only [List.length_drop, List.length_append] at lengths
      omega
    refine ⟨text.take start ++ pre', post', ⟨?_, ?_, nofun⟩, fun apart => ⟨?_, apart.back⟩⟩
    · rw [List.append_assoc, ← same, List.take_append_drop]
    · rw [List.length_append, List.length_take_of_le (Nat.le_of_lt inside)]
      exact Nat.le_add_right _ _
    · exact edge_front_of_suffix (List.suffix_append _ _) apart.front
  | cons s spans ih =>
    intro start ordered closed pre' post' same
    have closedHere := closed s List.mem_cons_self
    rw [Medium.splice] at same
    rcases append_cases (fromText s.replacement) (write_ne_nil closedHere) nonempty same with
      ⟨x, inGap, postIs⟩ | ⟨y, inRest, preIs⟩
    · -- the part stands before the first span
      have gap : start + (pre'.length + (part.length + x.length)) ≤ s.start ∧
          start + (pre'.length + (part.length + x.length)) ≤ text.length := by
        have some := List.length_pos_iff.mpr nonempty
        have lengths := congrArg List.length inGap
        simp only [length_slice, List.length_append] at lengths
        omega
      have some := List.length_pos_iff.mpr nonempty
      have front : (text.take start ++ pre').length = start + pre'.length := by
        rw [List.length_append, List.length_take_of_le (by omega)]
      refine ⟨text.take start ++ pre', x ++ text.drop s.start, ⟨?_, ?_, ?_⟩,
        fun apart => ⟨?_, ?_⟩⟩
      · have whole := take_append_slice_append_drop text ordered.1
        rw [inGap] at whole
        simpa only [List.append_assoc] using whole.symm
      · rw [front]
        exact Nat.le_add_right _ _
      · intro t member
        left
        rw [front]
        rcases List.mem_cons.mp member with rfl | later
        · omega
        · have after := ordered.2.2.start_le t later
          have width := ordered.2.1
          omega
      · exact edge_front_of_suffix (List.suffix_append _ _) apart.front
      · rw [postIs]
        cases x with
        | nil => exact edge_write_head closedHere _
        | cons first x => simpa using apart.back
    · -- it stands in what follows the first span
      obtain ⟨pre, post, ⟨whole, after, clear⟩, apart⟩ := ih s.stop ordered.2.2
        (fun t member => closed t (List.mem_cons_of_mem s member)) y post' inRest
      refine ⟨pre, post, ⟨whole, ?_, ?_⟩, fun before => ⟨?_, (apart before).back⟩⟩
      · exact Nat.le_trans (Nat.le_trans ordered.1 ordered.2.1) after
      · intro t member
        rcases List.mem_cons.mp member with rfl | later
        · exact Or.inr after
        · exact clear t later
      · rw [preIs]
        rcases List.eq_nil_or_concat y with rfl | ⟨body, last, rfl⟩
        · rw [List.append_nil]
          exact edge_write_getLast closedHere _
        · simpa using (apart before).front

end Script
