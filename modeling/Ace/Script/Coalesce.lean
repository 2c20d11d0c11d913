import Mathlib.Data.List.Basic

/-!
# Coalescing a log

Elements are pushed onto a list one by one, and each may be merged into the last row. A `Span`
is a run of elements and the row that they became. The rows of a log are spans that lie in it
end to end, so a fold that does not see a merge does not see the coalescing.
-/

namespace Script

universe u v

variable {α : Type u} {σ : Type v} (merge : α → α → Option α)

/-- Behind the last row, or into it. -/
def push (rows : List α) (x : α) : List α :=
  match rows.getLast? with
  | none => rows ++ [x]
  | some last =>
    match merge last x with
    | none => rows ++ [x]
    | some merged => rows.dropLast ++ [merged]

def coalesce (xs : List α) : List α := xs.foldl (push merge) []

/-- A run of elements that became one row. -/
inductive Span : List α → α → Prop where
  | single (x : α) : Span [x] x
  | grow {run : List α} {row x merged : α} (span : Span run row) (merges : merge row x = some merged) :
      Span (run ++ [x]) merged

/-- Runs and their rows, end to end. -/
structure Covers (spans : List (List α × α)) (xs rows : List α) : Prop where
  runs : spans.flatMap Prod.fst = xs
  rows : spans.map Prod.snd = rows
  spans : ∀ span ∈ spans, Span merge span.1 span.2

variable {merge}

theorem Covers.push {spans : List (List α × α)} {xs rows : List α}
    (covers : Covers merge spans xs rows) (x : α) :
    ∃ spans', Covers merge spans' (xs ++ [x]) (push merge rows x) := by
  -- The element is a row of its own, unless the last row takes it.
  have alone : Covers merge (spans ++ [([x], x)]) (xs ++ [x]) (rows ++ [x]) := by
    refine ⟨by simp [covers.runs], by simp [covers.rows], ?_⟩
    intro span member
    rcases List.mem_append.mp member with old | new
    · exact covers.spans span old
    · rw [List.mem_singleton.mp new]
      exact .single x
  unfold Script.push
  cases last : rows.getLast? with
  | none => exact ⟨_, alone⟩
  | some row =>
    simp only
    cases merges : merge row x with
    | none => exact ⟨_, alone⟩
    | some merged =>
      rcases List.eq_nil_or_concat spans with rfl | ⟨before, span, rfl⟩
      · have empty : rows = [] := by rw [← covers.rows]; rfl
        simp [empty] at last
      · rw [List.concat_eq_append] at covers
        have row_eq : span.2 = row := by
          rw [← covers.rows] at last
          simpa using last
        refine ⟨before ++ [(span.1 ++ [x], merged)], ?_, ?_, ?_⟩
        · simp [← covers.runs]
        · simp [← covers.rows]
        · intro span' member
          rcases List.mem_append.mp member with old | new
          · exact covers.spans span' (List.mem_append_left _ old)
          · rw [List.mem_singleton.mp new]
            have own := covers.spans span (by simp)
            rw [row_eq] at own
            exact .grow own merges

theorem covers_coalesce (xs : List α) : ∃ spans, Covers merge spans xs (coalesce merge xs) := by
  have kept {spans : List (List α × α)} {before rows : List α}
      (covers : Covers merge spans before rows) :
      ∃ spans', Covers merge spans' (before ++ xs) (xs.foldl (push merge) rows) := by
    induction xs generalizing spans before rows with
    | nil => exact ⟨spans, by simpa using covers⟩
    | cons x xs ih =>
      obtain ⟨spans', covers'⟩ := covers.push x
      simpa using ih covers'
  exact kept (show Covers merge [] [] [] from ⟨rfl, rfl, by simp⟩)

/-! ### Folds -/

section Folds

variable {f : σ → α → Option σ} {I : σ → Prop} {good : α → Prop}

/-- A fold that takes a merged row as it takes the two. -/
structure Absorbs (merge : α → α → Option α) (f : σ → α → Option σ) (I : σ → Prop)
    (good : α → Prop) : Prop where
  kept : ∀ s x s', I s → good x → f s x = some s' → I s'
  merged : ∀ row x merged, good row → good x → merge row x = some merged → good merged
  same : ∀ s row x merged, I s → good row → good x → merge row x = some merged →
    (f s row).bind (f · x) = f s merged

theorem Absorbs.span (absorbs : Absorbs merge f I good) {run : List α} {row : α}
    (span : Span merge run row) (all : ∀ x ∈ run, good x) :
    good row ∧ ∀ s, I s → run.foldlM f s = f s row := by
  induction span with
  | single x =>
    refine ⟨all x (by simp), fun s _ => ?_⟩
    simp
  | @grow run row x merged span merges ih =>
    obtain ⟨good_row, same⟩ := ih fun y member => all y (by simp [member])
    have good_x := all x (by simp)
    refine ⟨absorbs.merged row x merged good_row good_x merges, fun s holds => ?_⟩
    rw [List.foldlM_append, same s holds]
    simp only [List.foldlM_cons, List.foldlM_nil, bind_pure]
    exact absorbs.same s row x merged holds good_row good_x merges

theorem Absorbs.covers (absorbs : Absorbs merge f I good) {spans : List (List α × α)}
    (each : ∀ span ∈ spans, Span merge span.1 span.2)
    (all : ∀ span ∈ spans, ∀ x ∈ span.1, good x) (s : σ) (holds : I s) :
    (spans.flatMap Prod.fst).foldlM f s = (spans.map Prod.snd).foldlM f s := by
  induction spans generalizing s with
  | nil => rfl
  | cons span spans ih =>
    obtain ⟨good_row, same⟩ := absorbs.span (each span (by simp)) (all span (by simp))
    simp only [List.flatMap_cons, List.map_cons, List.foldlM_append, List.foldlM_cons]
    rw [same s holds]
    cases step : f s span.2 with
    | none => rfl
    | some next =>
      have holds' := absorbs.kept s span.2 next holds good_row step
      exact ih (fun span' member => each span' (List.mem_cons_of_mem _ member))
        (fun span' member => all span' (List.mem_cons_of_mem _ member)) next holds'

end Folds

end Script
