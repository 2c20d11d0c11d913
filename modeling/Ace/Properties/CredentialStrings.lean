import Ace.Properties.CredentialScan
import Ace.Script.Members

/-!
# Strings under the scan for credentials

A string in JSON text stands between two delimiters: quotes, or quotes behind a backslash where
the text is encoded once more. The backslashes before a quote tell the delimiters from the quotes
inside: with `2n` of them a quote of JSON text delimits, and with `4n + 1` one of encoded text.

## Main result

`delimited_isNext`: the scan pairs the delimiters of every string.
-/

namespace Ace.Redaction.JsonCredentials

open Script UnitJson

/-! ### Two levels of encoding -/

def delimiter (once : Bool) : CodeUnits := if once then units "\\\"" else units "\""

def wrap (once : Bool) (piece : CodeUnits) : CodeUnits := if once then respell piece else piece

theorem wrap_append (once : Bool) (front back : CodeUnits) :
    wrap once (front ++ back) = wrap once front ++ wrap once back := by
  cases once with
  | false => rfl
  | true => exact respell_append front back

theorem wrap_quote (once : Bool) : wrap once ['"'.toNat] = delimiter once := by
  cases once <;> rfl

theorem wrap_plain {once : Bool} {piece : CodeUnits}
    (plain : ∀ u ∈ piece, u ≠ '"'.toNat ∧ u ≠ '\\'.toNat) : wrap once piece = piece := by
  cases once with
  | false => rfl
  | true =>
    rw [wrap, if_pos rfl]
    induction piece with
    | nil => rfl
    | cons u rest ih =>
      have first := plain u List.mem_cons_self
      rw [respell_of_plain first.1 first.2, ih fun v member => plain v (List.mem_cons_of_mem u member)]

def closesAt (once : Bool) (run : Nat) : Bool := if once then run % 4 == 1 else run % 2 == 0

def period (once : Bool) : Nat := if once then 4 else 2

/-- No quote in a piece delimits. -/
def noClose (closes : Nat → Bool) : Nat → CodeUnits → Prop
  | _, [] => True
  | run, u :: rest => ¬(u = '"'.toNat ∧ closes run = true) ∧
      noClose closes (if u = '\\'.toNat then run + 1 else 0) rest

theorem slash_noClose (closes : Nat → Bool) (run : Nat) :
    ¬('\\'.toNat = '"'.toNat ∧ closes run = true) :=
  fun both => absurd both.1 (by decide)

theorem noClose_append {closes : Nat → Bool} {back : CodeUnits} (front : CodeUnits) : ∀ {run : Nat},
    noClose closes run front → noClose closes (runAfter run front) back →
    noClose closes run (front ++ back) := by
  induction front with
  | nil => exact fun _ second => second
  | cons u rest ih => exact fun first second => ⟨first.1, ih first.2 second⟩

theorem noClose_plain {closes : Nat → Bool} {piece : CodeUnits} (plain : '"'.toNat ∉ piece) :
    ∀ run, noClose closes run piece := by
  induction piece with
  | nil => exact fun _ => trivial
  | cons u rest ih =>
    intro run
    rw [List.mem_cons, not_or] at plain
    exact ⟨fun quote => plain.1 quote.1.symm, ih plain.2 _⟩

theorem runAfter_plain {piece : CodeUnits} (plain : '\\'.toNat ∉ piece) (some_ : piece ≠ []) :
    ∀ run, runAfter run piece = 0 := by
  induction piece with
  | nil => exact absurd rfl some_
  | cons u rest ih =>
    intro run
    rw [List.mem_cons, not_or] at plain
    cases rest with
    | nil => exact if_neg fun same => plain.1 same.symm
    | cons v rest => exact ih plain.2 (List.cons_ne_nil _ _) _

/-! ### Positions in a text -/

theorem runBefore_append (front back : CodeUnits) :
    runBefore (front ++ back) front.length = runAfter 0 front := by
  rw [runBefore, List.take_left]

theorem getElem?_at (front back : CodeUnits) (u : Nat) :
    (front ++ u :: back)[front.length]? = some u := by
  rw [List.getElem?_append_right (Nat.le_refl _), Nat.sub_self]
  rfl

theorem slice_between (front piece back : CodeUnits) :
    slice (front ++ piece ++ back) front.length (front.length + piece.length) = piece := by
  rw [slice, ← List.length_append, List.take_left, List.drop_left]

theorem noClose_positions {closes : Nat → Bool} {back : CodeUnits} (piece : CodeUnits) :
    ∀ {front : CodeUnits}, noClose closes (runAfter 0 front) piece →
    ∀ j, front.length ≤ j → j < front.length + piece.length →
      ¬IsQuote closes (front ++ piece ++ back) j := by
  induction piece with
  | nil =>
    intro front _ j after before
    rw [List.length_nil] at before
    omega
  | cons u rest ih =>
    intro front quiet j after before
    rcases Nat.eq_or_lt_of_le after with rfl | later
    · rintro ⟨quote, closing⟩
      rw [List.append_assoc, List.cons_append] at quote closing
      rw [getElem?_at] at quote
      rw [runBefore_append] at closing
      exact quiet.1 ⟨Option.some.inj quote, closing⟩
    · have moved : front ++ u :: rest ++ back = (front ++ [u]) ++ rest ++ back := by simp
      have run : runAfter 0 (front ++ [u]) =
          if u = '\\'.toNat then runAfter 0 front + 1 else 0 := runAfter_append 0 front [u]
      rw [moved]
      apply ih (run ▸ quiet.2)
      · rw [List.length_append, List.length_singleton]
        exact later
      · rw [List.length_cons] at before
        simp only [List.length_append, List.length_singleton]
        omega

/-! ### Spellings -/

theorem runAfter_cons (run u : Nat) (rest : CodeUnits) :
    runAfter run (u :: rest) = runAfter (if u = '\\'.toNat then run + 1 else 0) rest := rfl

theorem spelled_quiet (once : Bool) {text spelling : CodeUnits} (spelled : Spelled text spelling) :
    ∀ {run : Nat}, run % period once = 0 → noClose (closesAt once) run (wrap once spelling) ∧
      runAfter run (wrap once spelling) % period once = 0 := by
  have zero : 0 % period once = 0 := Nat.zero_mod _
  induction spelled with
  | nil =>
    intro run even
    cases once <;> exact ⟨trivial, even⟩
  | @plain u text spelling notQuote notSlash printable _ ih =>
    intro run even
    have one : wrap once (u :: spelling) = u :: wrap once spelling := by
      cases once with
      | false => rfl
      | true => exact respell_of_plain notQuote notSlash spelling
    rw [one, runAfter_cons, noClose, if_neg notSlash]
    exact ⟨⟨fun quote => notQuote quote.1, (ih zero).1⟩, (ih zero).2⟩
  | @short u e text spelling reads quote _ ih =>
    intro run even
    have two : wrap once ('\\'.toNat :: e :: spelling) =
        wrap once ['\\'.toNat] ++ wrap once [e] ++ wrap once spelling := by
      rw [← wrap_append, ← wrap_append]
      rfl
    rw [two]
    by_cases isQuote : e = '"'.toNat
    · -- an escaped quote: its run is odd, and three more than a multiple of four
      have piece : noClose (closesAt once) run (wrap once ['\\'.toNat] ++ wrap once [e]) ∧
          runAfter run (wrap once ['\\'.toNat] ++ wrap once [e]) = 0 := by
        rw [isQuote]
        cases once with
        | false =>
          have odd : ¬closesAt false (run + 1) = true := by
            simp only [closesAt, period, Bool.false_eq_true, if_false, beq_iff_eq] at even ⊢
            omega
          exact ⟨⟨slash_noClose _ _, fun both => odd both.2, trivial⟩, rfl⟩
        | true =>
          have third : ¬closesAt true (run + 1 + 1 + 1) = true := by
            simp only [closesAt, period, if_true, beq_iff_eq] at even ⊢
            omega
          exact ⟨⟨slash_noClose _ _, slash_noClose _ _, slash_noClose _ _,
            fun both => third both.2, trivial⟩, rfl⟩
      rw [runAfter_append, piece.2]
      exact ⟨noClose_append _ piece.1 (piece.2 ▸ (ih zero).1), (ih zero).2⟩
    · have quiet : noClose (closesAt once) run (wrap once ['\\'.toNat] ++ wrap once [e]) := by
        apply noClose_plain
        intro member
        rcases List.mem_append.mp member with first | second
        · cases once <;> exact absurd first (by decide)
        · have quoted : '"'.toNat ∈ [e] ∨ '"'.toNat ∈ ['\\'.toNat, e] := by
            cases once with
            | false => exact .inl second
            | true =>
              simp only [wrap, respell, if_true, List.flatMap_cons, List.flatMap_nil,
                List.append_nil] at second
              split at second
              · exact .inr second
              · exact .inl second
          rcases quoted with one | two
          · exact isQuote (List.mem_singleton.mp one).symm
          · rcases List.mem_cons.mp two with slash | one
            · exact absurd slash (by decide)
            · exact isQuote (List.mem_singleton.mp one).symm
      have closed : runAfter run (wrap once ['\\'.toNat] ++ wrap once [e]) % period once = 0 := by
        by_cases slash : e = '\\'.toNat
        · rw [slash]
          cases once with
          | false =>
            change (run + 1 + 1) % 2 = 0
            simp only [period, Bool.false_eq_true, if_false] at even
            omega
          | true =>
            change (run + 1 + 1 + 1 + 1) % 4 = 0
            simp only [period, if_true] at even
            omega
        · have last : wrap once [e] = [e] := wrap_plain fun u member => by
            rw [List.mem_singleton.mp member]
            exact ⟨isQuote, slash⟩
          rw [runAfter_append, last, runAfter_plain (by simpa using fun same => slash same.symm)
            (List.cons_ne_nil _ _)]
          exact zero
      rw [runAfter_append]
      exact ⟨noClose_append _ quiet (ih closed).1, (ih closed).2⟩
  | @long u digits text spelling reads plain notQuote _ ih =>
    intro run even
    have slash : wrap once ('\\'.toNat :: 'u'.toNat :: digits ++ spelling) =
        wrap once ['\\'.toNat] ++ ('u'.toNat :: digits) ++ wrap once spelling := by
      have body : wrap once ('u'.toNat :: digits) = 'u'.toNat :: digits := wrap_plain fun v member => by
        rcases List.mem_cons.mp member with rfl | digit
        · decide
        · exact plain v digit
      conv => rhs; rw [← body, ← wrap_append, ← wrap_append]
      rfl
    have closed : ∀ run, runAfter run ('u'.toNat :: digits) = 0 := by
      apply runAfter_plain ?_ (List.cons_ne_nil _ _)
      intro member
      rcases List.mem_cons.mp member with letter | digit
      · exact absurd letter (by decide)
      · exact (plain _ digit).2 rfl
    have quiet : noClose (closesAt once) run (wrap once ['\\'.toNat] ++ ('u'.toNat :: digits)) := by
      apply noClose_plain
      intro member
      rcases List.mem_append.mp member with first | second
      · cases once <;> exact absurd first (by decide)
      · rcases List.mem_cons.mp second with letter | digit
        · exact absurd letter (by decide)
        · exact (plain _ digit).1 rfl
    rw [slash, runAfter_append, runAfter_append, closed]
    refine ⟨noClose_append _ quiet ?_, (ih zero).2⟩
    rw [runAfter_append, closed]
    exact (ih zero).1

/-! ### The delimiters of a string -/

def lead (once : Bool) : CodeUnits := if once then ['\\'.toNat] else []

theorem delimiter_eq (once : Bool) : delimiter once = lead once ++ ['"'.toNat] := by
  cases once <;> rfl

theorem isQuote_at {closes : Nat → Bool} {front back : CodeUnits} (closing : closes (runAfter 0 front)) :
    IsQuote closes (front ++ '"'.toNat :: back) front.length :=
  ⟨getElem?_at front back _, by rw [runBefore_append]; exact closing⟩

theorem runAfter_quote (front : CodeUnits) : runAfter 0 (front ++ ['"'.toNat]) = 0 := by
  rw [runAfter_append]
  rfl

theorem between_isNext {closes : Nat → Bool} {piece : CodeUnits} (front back : CodeUnits)
    (quiet : noClose closes 0 piece) (closing : closes (runAfter 0 piece)) :
    IsNext closes (front ++ '"'.toNat :: piece ++ '"'.toNat :: back) front.length
      (front.length + 1 + piece.length) := by
  have moved : front ++ '"'.toNat :: piece ++ '"'.toNat :: back =
      (front ++ ['"'.toNat] ++ piece) ++ '"'.toNat :: back := by simp
  have length : (front ++ ['"'.toNat] ++ piece).length = front.length + 1 + piece.length := by
    simp only [List.length_append, List.length_singleton]
  have run : runAfter 0 (front ++ ['"'.toNat] ++ piece) = runAfter 0 piece := by
    rw [runAfter_append, runAfter_quote]
  refine ⟨by omega, ?_, fun _ => ?_, fun j after before => ?_⟩
  · rw [moved, List.length_append, length]
    omega
  · rw [moved, ← length]
    exact isQuote_at (run ▸ closing)
  · rw [moved]
    apply noClose_positions piece ((runAfter_quote front).symm ▸ quiet)
    · rw [List.length_append, List.length_singleton]
      exact after
    · rw [List.length_append, List.length_singleton]
      exact before

theorem closesAt_lead {once : Bool} {run : Nat} (even : run % period once = 0) :
    closesAt once (runAfter run (lead once)) := by
  cases once with
  | false =>
    simp only [period, Bool.false_eq_true, if_false] at even
    simp [closesAt, lead, runAfter, even]
  | true =>
    simp only [period, if_true] at even
    change ((run + 1) % 4 == 1) = true
    rw [beq_iff_eq]
    omega

theorem noClose_lead (closes : Nat → Bool) (once : Bool) (run : Nat) :
    noClose closes run (lead once) := by
  apply noClose_plain
  cases once <;> decide

theorem delimited_isNext (once : Bool) (front back : CodeUnits) {text spelling : CodeUnits}
    (spelled : Spelled text spelling) :
    IsNext (closesAt once)
      (front ++ '"'.toNat :: (wrap once spelling ++ lead once) ++ '"'.toNat :: back) front.length
      (front.length + 1 + (wrap once spelling ++ lead once).length) := by
  obtain ⟨quiet, even⟩ := spelled_quiet once spelled (Nat.zero_mod _)
  apply between_isNext
  · exact noClose_append _ quiet (noClose_lead _ _ _)
  · rw [runAfter_append]
    exact closesAt_lead even

/-! ### The part of a key after its last quote -/

/-- Where a key has quotes, a candidate for it begins after the last. -/
inductive TailOf (key spelling tail back : CodeUnits) : Prop
  | whole (same : tail = key) (spelled : back = spelling)
  | after (front written : CodeUnits) (key : key = front ++ '"'.toNat :: tail)
      (spelled : spelling = written ++ '"'.toNat :: back)

theorem spelled_tail {key spelling : CodeUnits} (spelled : Spelled key spelling) :
    ∃ tail back, Spelled tail back ∧ TailOf key spelling tail back ∧ '"'.toNat ∉ tail ∧
      '"'.toNat ∉ back := by
  -- One more part in front of the string leaves its last quote where it is, if it has one.
  have extend : ∀ {u : Nat} (part : CodeUnits) {key spelling : CodeUnits}, (∀ tail back,
      Spelled tail back → Spelled (u :: tail) (part ++ back)) →
      (u = '"'.toNat ∧ (∃ written, part = written ++ ['"'.toNat])) ∨
        (u ≠ '"'.toNat ∧ '"'.toNat ∉ part) →
      (∃ tail back, Spelled tail back ∧ TailOf key spelling tail back ∧ '"'.toNat ∉ tail ∧
        '"'.toNat ∉ back) →
      ∃ tail back, Spelled tail back ∧ TailOf (u :: key) (part ++ spelling) tail back ∧
        '"'.toNat ∉ tail ∧ '"'.toNat ∉ back := by
    rintro u part key spelling grow kind ⟨tail, back, spelled, tailOf, noQuote, noQuote'⟩
    cases tailOf with
    | after front written isKey isSpelling =>
      refine ⟨tail, back, spelled, .after (u :: front) (part ++ written) ?_ ?_, noQuote, noQuote'⟩
      · rw [isKey]
        rfl
      · rw [isSpelling, List.append_assoc]
    | whole same isSpelling =>
      subst same isSpelling
      rcases kind with ⟨rfl, written, rfl⟩ | ⟨other, plain⟩
      · exact ⟨tail, back, spelled, .after [] written rfl (by simp), noQuote, noQuote'⟩
      · refine ⟨u :: tail, part ++ back, grow tail back spelled, .whole rfl rfl, ?_, ?_⟩
        · simpa using ⟨fun same => other same.symm, noQuote⟩
        · simpa using ⟨plain, noQuote'⟩
  induction spelled with
  | nil => exact ⟨[], [], .nil, .whole rfl rfl, by simp, by simp⟩
  | @plain u text spelling notQuote notSlash printable _ ih =>
    apply extend [u] (fun _ _ rest => .plain notQuote notSlash printable rest) ?_ ih
    exact .inr ⟨notQuote, by simpa using fun same => notQuote same.symm⟩
  | @short u e text spelling reads quote _ ih =>
    apply extend ['\\'.toNat, e] (fun _ _ rest => .short reads quote rest) ?_ ih
    by_cases isQuote : u = '"'.toNat
    · exact .inl ⟨isQuote, ['\\'.toNat], by rw [quote.mp isQuote]; rfl⟩
    · refine .inr ⟨isQuote, fun member => ?_⟩
      rcases List.mem_cons.mp member with slash | same
      · exact absurd slash (by decide)
      · exact isQuote (quote.mpr (List.mem_singleton.mp same).symm)
  | @long u digits text spelling reads plain notQuote _ ih =>
    apply extend ('\\'.toNat :: 'u'.toNat :: digits)
      (fun _ _ rest => .long reads plain notQuote rest) ?_ ih
    refine .inr ⟨notQuote, fun member => ?_⟩
    rcases List.mem_cons.mp member with slash | later
    · exact absurd slash (by decide)
    · rcases List.mem_cons.mp later with letter | digit
      · exact absurd letter (by decide)
      · exact (plain _ digit).1 rfl

theorem spelled_self {text spelling : CodeUnits} (spelled : Spelled text spelling)
    (plain : '\\'.toNat ∉ spelling) : text = spelling := by
  induction spelled with
  | nil => rfl
  | plain _ _ _ _ ih =>
    rw [ih fun member => plain (List.mem_cons_of_mem _ member)]
  | short => exact absurd List.mem_cons_self plain
  | long => exact absurd List.mem_cons_self plain

end Ace.Redaction.JsonCredentials
