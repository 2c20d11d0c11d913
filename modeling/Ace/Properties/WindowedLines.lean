import Ace.Git.LineWindow

/-!
# A window of lines is exact for any chunks

What a window keeps between chunks is fixed by the text so far: by the lines that are closed and the
one that is open (`Reads`). Every piece of text that the loop takes extends the open line, and a
newline closes it.

## Main result

`finish_exact`
-/

namespace Ace.Git.LineWindow

open Script

/-! ### Lines -/

/-- The lines of a text: what stands between newlines, without an empty line after the last one (so
that an empty text has none). -/
def linesOf (text : CodeUnits) : List CodeUnits :=
  let (first, others) := Framing.lines newline text
  if (first :: others).getLast? = some [] then (first :: others).dropLast else first :: others

/-- The lines with numbers from `start` to `stop`. -/
def within (start stop : Nat) (lines : List CodeUnits) : List CodeUnits :=
  ((lines.zipIdx 1).filter fun (_, number) => start ≤ number && number ≤ stop).map Prod.fst

def sizeOf (lines : List CodeUnits) : Nat := (lines.map List.length).sum

theorem within_concat (start stop : Nat) (lines : List CodeUnits) (line : CodeUnits) :
    within start stop (lines ++ [line]) = within start stop lines ++
      if start ≤ lines.length + 1 && lines.length + 1 ≤ stop then [line] else [] := by
  rw [within, List.zipIdx_append, List.filter_append, List.map_append, ← within,
    List.zipIdx_singleton, Nat.add_comm 1]
  cases included : (decide (start ≤ lines.length + 1) && decide (lines.length + 1 ≤ stop)) with
  | true =>
    simp only [List.filter_cons, included]
    rfl
  | false =>
    simp only [List.filter_cons, included]
    rfl

theorem sizeOf_append (first second : List CodeUnits) :
    sizeOf (first ++ second) = sizeOf first + sizeOf second := by
  rw [sizeOf, List.map_append, List.sum_append]
  rfl

/-- A text as the lines that are closed and the one that is open. -/
structure Splits (text : CodeUnits) (closed : List CodeUnits) (open' : CodeUnits) : Prop where
  text_eq : text = closed.flatMap (· ++ [newline]) ++ open'
  closed_free : ∀ line ∈ closed, newline ∉ line
  open_free : newline ∉ open'

theorem splits_nil : Splits [] [] [] where
  text_eq := rfl
  closed_free := by
    intro line member
    cases member
  open_free := List.not_mem_nil

theorem Splits.extend {text open' piece : CodeUnits} {closed : List CodeUnits}
    (splits : Splits text closed open') (free : newline ∉ piece) :
    Splits (text ++ piece) closed (open' ++ piece) where
  text_eq := by rw [splits.text_eq, List.append_assoc]
  closed_free := splits.closed_free
  open_free := by
    rw [List.mem_append]
    rintro (before | after)
    · exact splits.open_free before
    · exact free after

theorem Splits.close {text open' : CodeUnits} {closed : List CodeUnits}
    (splits : Splits text closed open') : Splits (text ++ [newline]) (closed ++ [open']) [] where
  text_eq := by
    rw [splits.text_eq, List.flatMap_append, List.flatMap_singleton, List.append_nil,
      List.append_assoc]
  closed_free := by
    intro line member
    rcases List.mem_append.mp member with old | new
    · exact splits.closed_free line old
    · rw [List.mem_singleton.mp new]
      exact splits.open_free
  open_free := List.not_mem_nil

theorem Splits.lines {closed : List CodeUnits} : ∀ {text open' : CodeUnits},
    Splits text closed open' →
      (Framing.lines newline text).1 :: (Framing.lines newline text).2 = closed ++ [open'] := by
  induction closed with
  | nil =>
    intro text open' splits
    rw [splits.text_eq, List.flatMap_nil, List.nil_append,
      Framing.lines_of_free splits.open_free]
    rfl
  | cons line closed ih =>
    intro text open' splits
    have rest : Splits (closed.flatMap (· ++ [newline]) ++ open') closed open' :=
      ⟨rfl, fun l member => splits.closed_free l (List.mem_cons_of_mem _ member),
        splits.open_free⟩
    have first := splits.closed_free line List.mem_cons_self
    rw [splits.text_eq, List.flatMap_cons, List.append_assoc, List.append_assoc,
      List.singleton_append, Framing.lines_cons first, ih rest]
    rfl

theorem Splits.linesOf_eq {text open' : CodeUnits} {closed : List CodeUnits}
    (splits : Splits text closed open') :
    linesOf text = closed ++ if open' = [] then [] else [open'] := by
  unfold linesOf
  simp only [splits.lines, List.getLast?_concat, Option.some.injEq]
  split
  next => rw [List.dropLast_concat, List.append_nil]
  next => rfl

theorem Splits.getLast?_eq {text open' : CodeUnits} {closed : List CodeUnits}
    (splits : Splits text closed open') :
    (text ≠ [] ∧ text.getLast? ≠ some newline) ↔ open' ≠ [] := by
  rw [splits.text_eq]
  rcases open'.eq_nil_or_concat' with rfl | ⟨start, last, rfl⟩
  · rcases closed.eq_nil_or_concat' with rfl | ⟨before, line, rfl⟩
    · simp
    · simp [List.getLast?_append]
  · have other : last ≠ newline := by
      rintro rfl
      exact splits.open_free (List.mem_append_right _ (List.mem_singleton_self _))
    simp [List.getLast?_append, other]

/-! ### What a window keeps -/

/-- What a window keeps of the lines so far: how many are closed, how much of them is in the window,
and as long as that is not too much the lines themselves and the open one. -/
structure Keeps (start stop maxChars : Nat) (w : LineWindow) (closed : List CodeUnits)
    (open' : CodeUnits) : Prop where
  bounds : w.start = start ∧ w.stop = stop ∧ w.maxChars = maxChars
  number : w.number = closed.length + 1
  chars : w.chars = sizeOf (within start stop (closed ++ [open']))
  overflow : w.overflow = decide (maxChars < w.chars)
  lines : w.overflow = false → w.lines = within start stop closed
  fragment : w.overflow = false → w.fragment = if w.inside w.number then open' else []

variable {start stop maxChars : Nat} {w : LineWindow} {closed : List CodeUnits}
  {open' : CodeUnits}

theorem keeps_start :
    Keeps start stop maxChars { start, stop, maxChars } [] [] where
  bounds := ⟨rfl, rfl, rfl⟩
  number := rfl
  chars := by
    rw [within_concat, sizeOf_append]
    split <;> rfl
  overflow := (decide_eq_false (Nat.not_lt_zero maxChars)).symm
  lines := fun _ => rfl
  fragment := fun _ => (ite_self []).symm

theorem Keeps.inside_eq (keeps : Keeps start stop maxChars w closed open') :
    w.inside w.number =
      (decide (start ≤ closed.length + 1) && decide (closed.length + 1 ≤ stop)) := by
  obtain ⟨first, last, _⟩ := keeps.bounds
  rw [inside, first, last, keeps.number]

theorem Keeps.within_eq (keeps : Keeps start stop maxChars w closed open') (line : CodeUnits) :
    within start stop (closed ++ [line]) =
      within start stop closed ++ if w.inside w.number then [line] else [] := by
  rw [within_concat, keeps.inside_eq]

theorem Keeps.sizeOf_eq (keeps : Keeps start stop maxChars w closed open') (line : CodeUnits) :
    sizeOf (within start stop (closed ++ [line])) =
      sizeOf (within start stop closed) + if w.inside w.number then line.length else 0 := by
  rw [keeps.within_eq, sizeOf_append]
  split <;> rfl

theorem sizeOf_within_nil (lines : List CodeUnits) :
    sizeOf (within start stop (lines ++ [[]])) = sizeOf (within start stop lines) := by
  rw [within_concat, sizeOf_append]
  split <;> rfl

theorem Keeps.chars_extend (keeps : Keeps start stop maxChars w closed open') (piece : CodeUnits) :
    sizeOf (within start stop (closed ++ [open' ++ piece])) =
      w.chars + if w.inside w.number then piece.length else 0 := by
  rw [keeps.chars, keeps.sizeOf_eq, keeps.sizeOf_eq]
  split
  next => rw [List.length_append, Nat.add_assoc]
  next => rfl

theorem Keeps.overflow_extend (keeps : Keeps start stop maxChars w closed open') (more : Nat) :
    (w.overflow || decide (w.maxChars < w.chars + more)) = decide (maxChars < w.chars + more) := by
  rw [keeps.overflow, keeps.bounds.2.2, Bool.eq_iff_iff, Bool.or_eq_true, decide_eq_true_iff,
    decide_eq_true_iff]
  omega

theorem account_open (keeps : Keeps start stop maxChars w closed open') (piece : CodeUnits) :
    Keeps start stop maxChars (w.account piece false) closed (open' ++ piece) := by
  have chars := keeps.chars_extend piece
  unfold account
  cases included : w.inside w.number with
  | true =>
    rw [included, if_pos rfl] at chars
    rw [if_pos rfl]
    refine ⟨keeps.bounds, keeps.number, chars.symm, keeps.overflow_extend _, ?_, ?_⟩
    · intro fits
      exact keeps.lines (Bool.or_eq_false_iff.mp fits).1
    · intro fits
      have before := keeps.fragment (Bool.or_eq_false_iff.mp fits).1
      rw [included, if_pos rfl] at before
      have within' : (w.overflow || decide (w.maxChars < w.chars + piece.length)) = false := fits
      change (if (w.overflow || decide (w.maxChars < w.chars + piece.length)) = true then w.fragment
        else w.fragment ++ piece) = if w.inside w.number = true then open' ++ piece else []
      rw [included, within', if_pos rfl, if_neg Bool.false_ne_true, before]
  | false =>
    rw [included, if_neg Bool.false_ne_true, Nat.add_zero] at chars
    rw [if_neg Bool.false_ne_true]
    refine ⟨keeps.bounds, keeps.number, chars.symm, keeps.overflow, keeps.lines, ?_⟩
    intro fits
    have before := keeps.fragment fits
    rw [included, if_neg Bool.false_ne_true] at before ⊢
    exact before

theorem account_close (keeps : Keeps start stop maxChars w closed open') (piece : CodeUnits) :
    Keeps start stop maxChars
      { w.account piece true with number := (w.account piece true).number + 1 }
      (closed ++ [open' ++ piece]) [] := by
  have chars := keeps.chars_extend piece
  rw [← sizeOf_within_nil] at chars
  have number : w.number + 1 = (closed ++ [open' ++ piece]).length + 1 := by
    rw [keeps.number, List.length_append, List.length_singleton]
  unfold account
  cases included : w.inside w.number with
  | true =>
    rw [included, if_pos rfl] at chars
    rw [if_pos rfl]
    refine ⟨keeps.bounds, number, chars.symm, keeps.overflow_extend _, ?_,
      fun _ => (ite_self []).symm⟩
    intro fits
    have within' : (w.overflow || decide (w.maxChars < w.chars + piece.length)) = false := fits
    obtain ⟨before, _⟩ := Bool.or_eq_false_iff.mp within'
    have fragment := keeps.fragment before
    rw [included, if_pos rfl] at fragment
    rw [keeps.within_eq, included, if_pos rfl, ← keeps.lines before, ← fragment]
    simp only [within', Bool.false_eq_true, if_false, if_true]
  | false =>
    rw [included, if_neg Bool.false_ne_true, Nat.add_zero] at chars
    rw [if_neg Bool.false_ne_true]
    refine ⟨keeps.bounds, number, chars.symm, keeps.overflow, ?_, ?_⟩
    · intro fits
      rw [keeps.within_eq, included, if_neg Bool.false_ne_true, List.append_nil]
      exact keeps.lines fits
    · intro fits
      have before := keeps.fragment fits
      rw [included, if_neg Bool.false_ne_true] at before
      exact before.trans (ite_self []).symm

/-! ### Chunks -/

theorem appendLines_some (w : LineWindow) {rest piece more : CodeUnits}
    (found : Framing.cut newline rest = some (piece, more)) :
    w.appendLines rest =
      appendLines { w.account piece true with number := (w.account piece true).number + 1 }
        more := by
  rw [appendLines]
  split
  next piece' more' found' =>
    rw [found] at found'
    cases found'
    rfl
  next found' =>
    rw [found] at found'
    cases found'

theorem appendLines_none (w : LineWindow) {rest : CodeUnits}
    (found : Framing.cut newline rest = none) :
    w.appendLines rest = if rest = [] then w else w.account rest false := by
  rw [appendLines]
  split
  next piece' more' found' =>
    rw [found] at found'
    cases found'
  next => rfl

theorem account_flags (w : LineWindow) (piece : CodeUnits) (closes : Bool) :
    (w.account piece closes).seen = w.seen ∧
      (w.account piece closes).terminated = w.terminated := by
  unfold account
  split
  next =>
    simp only []
    split
    next => exact ⟨rfl, rfl⟩
    next => exact ⟨rfl, rfl⟩
  next => exact ⟨rfl, rfl⟩

theorem free_of_cut_none {rest : CodeUnits} (found : Framing.cut newline rest = none) :
    newline ∉ rest := by
  intro member
  obtain ⟨before, after, split, free⟩ := List.eq_append_cons_of_mem member
  rw [Framing.cut_eq_some_iff.mpr ⟨split, free⟩] at found
  cases found

theorem appendLines_spec (size : Nat) : ∀ {rest text open' : CodeUnits} {w : LineWindow}
    {closed : List CodeUnits}, rest.length ≤ size → Splits text closed open' →
    Keeps start stop maxChars w closed open' →
    ∃ closed' last, Splits (text ++ rest) closed' last ∧
      Keeps start stop maxChars (w.appendLines rest) closed' last ∧
      (w.appendLines rest).seen = w.seen ∧ (w.appendLines rest).terminated = w.terminated := by
  induction size with
  | zero =>
    intro rest text open' w closed short splits keeps
    rw [List.eq_nil_of_length_eq_zero (Nat.le_zero.mp short), List.append_nil,
      appendLines_none w rfl, if_pos rfl]
    exact ⟨closed, open', splits, keeps, rfl, rfl⟩
  | succ size ih =>
    intro rest text open' w closed short splits keeps
    cases found : Framing.cut newline rest with
    | none =>
      have free := free_of_cut_none found
      rw [appendLines_none w found]
      split
      next empty =>
        rw [empty, List.append_nil]
        exact ⟨closed, open', splits, keeps, rfl, rfl⟩
      next =>
        obtain ⟨seen, terminated⟩ := account_flags w rest false
        exact ⟨closed, open' ++ rest, splits.extend free, account_open keeps rest, seen,
          terminated⟩
    | some pair =>
      obtain ⟨piece, more⟩ := pair
      obtain ⟨split, free⟩ := Framing.cut_eq_some_iff.mp found
      rw [appendLines_some w found]
      have shorter : more.length ≤ size := by
        rw [split, List.length_append, List.length_cons] at short
        omega
      obtain ⟨closed', last, splits', keeps', seen, terminated⟩ :=
        ih shorter (splits.extend free).close (account_close keeps piece)
      obtain ⟨seen', terminated'⟩ := account_flags w piece true
      refine ⟨closed', last, ?_, keeps', seen.trans seen', terminated.trans terminated'⟩
      rw [split]
      simpa using splits'

/-- What a window keeps of the text so far. -/
structure Reads (start stop maxChars : Nat) (w : LineWindow) (text : CodeUnits) : Prop where
  lines : ∃ closed open', Splits text closed open' ∧ Keeps start stop maxChars w closed open'
  seen : w.seen = decide (text ≠ [])
  terminated : w.terminated = (text.getLast? == some newline)

theorem reads_start : Reads start stop maxChars { start, stop, maxChars } [] where
  lines := ⟨[], [], splits_nil, keeps_start⟩
  seen := rfl
  terminated := rfl

theorem append_reads {text : CodeUnits} (reads : Reads start stop maxChars w text)
    (chunk : CodeUnits) : Reads start stop maxChars (w.append chunk) (text ++ chunk) := by
  unfold append
  split
  next empty =>
    rw [empty, List.append_nil]
    exact reads
  next some' =>
    obtain ⟨closed, open', splits, keeps⟩ := reads.lines
    have begun : Keeps start stop maxChars
        { w with seen := true, terminated := chunk.getLast? == some newline } closed open' :=
      ⟨keeps.bounds, keeps.number, keeps.chars, keeps.overflow, keeps.lines, keeps.fragment⟩
    obtain ⟨closed', last, splits', keeps', seen, terminated⟩ :=
      appendLines_spec _ (Nat.le_refl _) splits begun
    refine ⟨⟨closed', last, splits', keeps'⟩, ?_, ?_⟩
    · rw [seen]
      simp [some']
    · rw [terminated, List.getLast?_append_of_ne_nil _ some']

theorem append_all_reads (chunks : List CodeUnits) : ∀ {w : LineWindow} {text : CodeUnits},
    Reads start stop maxChars w text →
    Reads start stop maxChars (chunks.foldl append w) (text ++ chunks.flatten) := by
  induction chunks with
  | nil =>
    intro w text reads
    rw [List.flatten_nil, List.append_nil]
    exact reads
  | cons chunk chunks ih =>
    intro w text reads
    rw [List.flatten_cons, ← List.append_assoc]
    exact ih (append_reads reads chunk)

/-! ### The end -/

/-- The lines of a text that are in a window. -/
def window (start stop maxChars : Nat) (text : CodeUnits) : Option RevisionLines :=
  let lines := within start stop (linesOf text)
  if maxChars < sizeOf lines then none
  else some {
    lines
    atEof := (linesOf text).length ≤ stop
    noFinalNewline := text ≠ [] ∧ text.getLast? ≠ some newline }

theorem finish_reads {text : CodeUnits} (reads : Reads start stop maxChars w text) :
    w.finish = window start stop maxChars text := by
  obtain ⟨closed, open', splits, keeps⟩ := reads.lines
  obtain ⟨first, last, limit⟩ := keeps.bounds
  -- an open line is counted at the end if anything is in it
  have final : (w.seen && !w.terminated) = decide (open' ≠ []) := by
    rw [reads.seen, reads.terminated, Bool.eq_iff_iff, Bool.and_eq_true, decide_eq_true_iff,
      decide_eq_true_iff, ← splits.getLast?_eq, Bool.not_eq_true', beq_eq_false_iff_ne]
  have all : sizeOf (within start stop (linesOf text)) = w.chars := by
    rw [keeps.chars, splits.linesOf_eq]
    split
    next empty => rw [empty, List.append_nil, sizeOf_within_nil]
    next => rfl
  have noFinal : decide (text ≠ [] ∧ text.getLast? ≠ some newline) =
      (w.seen && !w.terminated) := by
    rw [final, decide_eq_decide, splits.getLast?_eq]
  unfold finish window
  simp only [all, noFinal]
  cases whole : w.overflow with
  | true =>
    have exceeded : maxChars < w.chars := of_decide_eq_true (keeps.overflow.symm.trans whole)
    rw [if_pos rfl, if_pos exceeded]
  | false =>
    have fits : ¬maxChars < w.chars := of_decide_eq_false (keeps.overflow.symm.trans whole)
    rw [if_neg Bool.false_ne_true, if_neg fits, splits.linesOf_eq]
    by_cases empty : open' = []
    · have done : (w.seen && !w.terminated) = false := by
        rw [final, empty]
        rfl
      simp only [done, empty, Bool.false_eq_true, if_false, if_true, List.append_nil,
        keeps.lines whole, keeps.number, last, Nat.add_sub_cancel]
    · have left : (w.seen && !w.terminated) = true := by
        rw [final]
        exact decide_eq_true empty
      have lines : (if w.inside w.number then w.lines ++ [w.fragment] else w.lines) =
          within start stop (closed ++ [open']) := by
        rw [keeps.within_eq, keeps.lines whole, keeps.fragment whole]
        split
        next => rfl
        next => rw [List.append_nil]
      simp only [left, empty, if_false, if_true, lines]
      rw [keeps.number, last, Nat.add_sub_cancel, List.length_append, List.length_singleton]

/-- However a text is cut into chunks, the window gives its lines from `start` to `stop`, unless
they hold more than `maxChars` characters. -/
theorem finish_exact (start stop maxChars : Nat) (chunks : List CodeUnits) :
    (chunks.foldl append { start, stop, maxChars }).finish =
      window start stop maxChars chunks.flatten := by
  apply finish_reads
  exact append_all_reads chunks reads_start

/-- An empty last line, and lines past the end. -/
example : window 2 4 5 [97, 10, 98, 99, 10, 10] =
    some { lines := [[98, 99], []], atEof := true, noFinalNewline := false } := by decide

end Ace.Git.LineWindow
