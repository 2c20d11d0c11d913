import Ace.Provider.JsonElision

/-!
# Elision does not see chunks

What one byte makes of the elider, and what it adds to the output, does not depend on where a chunk
began: pending bytes are output that comes late.

## Main result

`elide_eq`: the output for a stream in chunks is the output for its bytes.
-/

namespace Ace.Provider.JsonElision

variable {limits : ElisionLimits}

/-! ### One byte -/

/-- A byte of an open string: the elider after it, and the output it adds. -/
def inside (limits : ElisionLimits) (e : JsonElider) (byte : Nat) : JsonElider × List Nat :=
  if cuts limits e byte then ({ e with mode := .truncating }.track byte, [])
  else
    let e := e.track byte
    match e.mode with
    | .passing => (e, [byte])
    | .holding =>
      let e := { e with hold := e.hold ++ [byte] }
      if e.hold.length < limits.holdBytes then (e, [])
      else
        match binaryLabel e.hold with
        | some label => ({ e with label, mode := .eliding }, [])
        | none => ({ e with hold := [], mode := .passing }, e.hold)
    | .outside | .eliding | .truncating => (e, [])

/-- A byte: the elider after it, and the output it adds. -/
def absorb (limits : ElisionLimits) (e : JsonElider) (byte : Nat) : JsonElider × List Nat :=
  if e.mode = .outside then (if byte = quote then e.opened else e, [byte])
  else if closes e byte then (e.closed, e.closing limits ++ [byte])
  else inside limits e byte

def total (s : Scan) : List Nat := s.out ++ live s.elider s.pending

theorem track_mode (e : JsonElider) (byte : Nat) : (e.track byte).mode = e.mode := by
  rw [JsonElider.track]
  simp only
  split
  · rfl
  · split
    · rfl
    · split <;> rfl

theorem live_outside {e : JsonElider} (outside : e.mode = .outside) (pending : List Nat) :
    live e pending = pending := if_pos (.inl outside)

theorem live_passing {e : JsonElider} (passing : e.mode = .passing) (pending : List Nat) :
    live e pending = pending := if_pos (.inr passing)

theorem live_other {e : JsonElider} (notOutside : e.mode ≠ .outside) (notPassing : e.mode ≠ .passing)
    (pending : List Nat) : live e pending = [] :=
  if_neg fun either => either.elim notOutside notPassing

theorem total_silent {s : Scan} (notOutside : s.elider.mode ≠ .outside)
    (notPassing : s.elider.mode ≠ .passing) : total s = s.out := by
  rw [total, live_other notOutside notPassing, List.append_nil]

theorem total_passing {s : Scan} (passing : s.elider.mode = .passing) :
    total s = s.out ++ s.pending := by
  rw [total, live_passing passing]

theorem content_absorb (s : Scan) (byte : Nat) (isOpen : s.elider.mode ≠ .outside) :
    (content limits s byte).elider = (inside limits s.elider byte).1 ∧
      total (content limits s byte) = total s ++ (inside limits s.elider byte).2 := by
  rw [content, inside]
  by_cases cut : cuts limits s.elider byte = true
  · -- the cut emits what was pending
    have passing : s.elider.mode = .passing := by
      simp only [cuts, Bool.and_eq_true, decide_eq_true_eq] at cut
      exact cut.1.1.1.1
    have after : (JsonElider.track { s.elider with mode := .truncating } byte).mode = .truncating :=
      track_mode _ byte
    rw [if_pos cut, if_pos cut]
    simp only [after, ne_eq, reduceCtorEq, not_false_eq_true, if_true, true_and]
    rw [total_passing passing, List.append_nil]
    exact total_silent (by simp [after]) (by simp [after])
  · rw [if_neg cut, if_neg cut]
    have after : (s.elider.track byte).mode = s.elider.mode := track_mode _ byte
    simp only [after]
    cases mode : s.elider.mode with
    | outside => exact absurd mode isOpen
    | passing =>
      simp only [ne_eq, reduceCtorEq, not_false_eq_true, if_true, true_and]
      rw [total_passing mode, total_passing (after.trans mode), List.append_assoc]
    | eliding | truncating =>
      simp only [ne_eq, reduceCtorEq, not_false_eq_true, if_true, true_and, List.append_nil]
      rw [total_silent (s := s) (by simp [mode]) (by simp [mode])]
      exact total_silent (by simp [after, mode]) (by simp [after, mode])
    | holding =>
      rw [total_silent (s := s) (by simp [mode]) (by simp [mode])]
      simp only [ne_eq, not_true_eq_false, if_false]
      split
      · simp only [true_and, List.append_nil]
        exact total_silent (by simp [after, mode]) (by simp [after, mode])
      · cases binaryLabel ((s.elider.track byte).hold ++ [byte]) with
        | some label =>
          simp only [true_and, List.append_nil]
          exact total_silent (by simp) (by simp)
        | none =>
          simp only [true_and]
          rw [total_passing rfl, List.append_nil]

theorem scanByte_absorb (s : Scan) (byte : Nat) :
    (scanByte limits s byte).elider = (absorb limits s.elider byte).1 ∧
      total (scanByte limits s byte) = total s ++ (absorb limits s.elider byte).2 := by
  rw [scanByte, absorb]
  by_cases outside : s.elider.mode = .outside
  · have before : total s = s.out ++ s.pending := by rw [total, live_outside outside]
    rw [if_pos outside, if_pos outside, before]
    by_cases isQuote : byte = quote
    · rw [if_neg (not_not.mpr isQuote), if_pos isQuote]
      refine ⟨rfl, ?_⟩
      rw [List.append_assoc]
      exact total_silent nofun nofun
    · rw [if_pos isQuote, if_neg isQuote, total, live_outside outside]
      exact ⟨rfl, (List.append_assoc _ _ _).symm⟩
  · rw [if_neg outside, if_neg outside]
    split
    next closing =>
      refine ⟨rfl, ?_⟩
      rw [total, total, live_outside rfl]
      by_cases passing : s.elider.mode = .passing
      · rw [live_passing passing, if_neg (not_not.mpr passing), JsonElider.closing, passing]
        simp
      · rw [live_other outside passing, if_pos passing]
        simp
    · exact content_absorb s byte outside

/-! ### Many bytes -/

def absorbAll (limits : ElisionLimits) (e : JsonElider) : List Nat → JsonElider × List Nat
  | [] => (e, [])
  | byte :: bytes =>
    let (e, out) := absorb limits e byte
    let (e, more) := absorbAll limits e bytes
    (e, out ++ more)

theorem absorbAll_append (e : JsonElider) (first rest : List Nat) :
    absorbAll limits e (first ++ rest) =
      ((absorbAll limits (absorbAll limits e first).1 rest).1,
        (absorbAll limits e first).2 ++ (absorbAll limits (absorbAll limits e first).1 rest).2) := by
  induction first generalizing e with
  | nil => rfl
  | cons byte first ih =>
    rw [List.cons_append, absorbAll, absorbAll]
    simp only [ih, List.append_assoc]

theorem scan_absorb (s : Scan) (chunk : List Nat) :
    (chunk.foldl (scanByte limits) s).elider = (absorbAll limits s.elider chunk).1 ∧
      total (chunk.foldl (scanByte limits) s) = total s ++ (absorbAll limits s.elider chunk).2 := by
  induction chunk generalizing s with
  | nil => exact ⟨rfl, (List.append_nil _).symm⟩
  | cons byte chunk ih =>
    obtain ⟨elider, output⟩ := @scanByte_absorb limits s byte
    obtain ⟨elider', output'⟩ := ih (scanByte limits s byte)
    rw [List.foldl_cons, absorbAll]
    simp only
    rw [elider', output', elider, output, List.append_assoc]
    exact ⟨rfl, rfl⟩

theorem push_eq (e : JsonElider) (chunk : List Nat) :
    push limits e chunk = absorbAll limits e chunk := by
  obtain ⟨elider, output⟩ := @scan_absorb limits { elider := e } chunk
  have nothing : total { elider := e } = [] := by
    rw [total, live]
    split <;> rfl
  rw [nothing, List.nil_append] at output
  exact Prod.ext elider output

theorem elide_eq (chunks : List (List Nat)) :
    elide limits chunks =
      (absorbAll limits {} chunks.flatten).2 ++ finish limits (absorbAll limits {} chunks.flatten).1
    := by
  have fromAny : ∀ e, pushAll limits e chunks =
      (absorbAll limits e chunks.flatten).2 ++
        finish limits (absorbAll limits e chunks.flatten).1 := by
    induction chunks with
    | nil => exact fun e => rfl
    | cons chunk chunks ih =>
      intro e
      rw [pushAll, push_eq, List.flatten_cons, absorbAll_append]
      simp only
      rw [ih, List.append_assoc]
  exact fromAny {}

end Ace.Provider.JsonElision
