import Ace.Properties.EnvironmentCoverage
import Mathlib.Data.List.Pairwise

/-!
# Sensitive spans are the union of the matches

Absorbing a match widens the span under construction by places of that match only, and what a
span leaves unread begins behind it. So the spans that `sensitiveSpans` yields are the
connected parts of the union of all matches.

## Main result

`sensitiveSpans_union`
-/

namespace Ace.Redaction

open Script

abbrev Extent := Nat × Nat

def EnvironmentSpan.extent (s : EnvironmentSpan) : Extent := (s.start, s.stop)

def extent (m : Edit) : Extent := (m.start, m.stop)

/-- Everything that the scans of a text match. -/
def rawMatches (text : CodeUnits) (environment : EnvironmentMatcher) : List Extent :=
  (environment.spans text).map EnvironmentSpan.extent ++
    (credentialScans text).flatMap fun scan => scan.map extent

namespace SensitiveSpans

def Pending.raw (p : Pending) : List Extent :=
  p.env.map EnvironmentSpan.extent ++ p.scans.flatMap fun scan => scan.map extent

def Nonempty (raw : List Extent) : Prop := ∀ r ∈ raw, r.1 < r.2

/-! ### Taking matches -/

/-- From `raw` some matches are taken, and `raw'` is left. They lie before `stop'`, and between
`stop` and `stop'` there is nothing but them. -/
structure Takes (raw raw' : List Extent) (stop stop' : Nat) : Prop where
  sub : raw'.Sublist raw
  grows : stop ≤ stop'
  taken : ∀ r ∈ raw, r ∈ raw' ∨ r.2 ≤ stop'
  covered : ∀ place, stop ≤ place → place < stop' → ∃ r ∈ raw, r.1 ≤ place ∧ place < r.2

namespace Takes

variable {a a' a'' b b' : List Extent} {s s' s'' : Nat}

theorem refl (a : List Extent) (s : Nat) : Takes a a s s where
  sub := List.Sublist.refl a
  grows := Nat.le_refl s
  taken _ member := .inl member
  covered _ after before := absurd (Nat.lt_of_le_of_lt after before) (Nat.lt_irrefl s)

theorem trans (first : Takes a a' s s') (second : Takes a' a'' s' s'') : Takes a a'' s s'' where
  sub := second.sub.trans first.sub
  grows := Nat.le_trans first.grows second.grows
  taken r member := by
    rcases first.taken r member with left | before
    · exact second.taken r left
    · exact .inr (Nat.le_trans before second.grows)
  covered place after before := by
    rcases Nat.lt_or_ge place s' with early | late
    · exact first.covered place after early
    · obtain ⟨r, member, inside⟩ := second.covered place late before
      exact ⟨r, first.sub.subset member, inside⟩

theorem append (first : Takes a a' s s') (second : Takes b b' s' s'') :
    Takes (a ++ b) (a' ++ b') s s'' where
  sub := first.sub.append second.sub
  grows := Nat.le_trans first.grows second.grows
  taken r member := by
    rcases List.mem_append.mp member with inFirst | inSecond
    · rcases first.taken r inFirst with left | before
      · exact .inl (List.mem_append_left b' left)
      · exact .inr (Nat.le_trans before second.grows)
    · rcases second.taken r inSecond with left | before
      · exact .inl (List.mem_append_right a' left)
      · exact .inr before
  covered place after before := by
    rcases Nat.lt_or_ge place s' with early | late
    · obtain ⟨r, member, inside⟩ := first.covered place after early
      exact ⟨r, List.mem_append_left b member, inside⟩
    · obtain ⟨r, member, inside⟩ := second.covered place late before
      exact ⟨r, List.mem_append_right a member, inside⟩

theorem one {r : Extent} (begins : r.1 < s) (rest : Takes a a' (max s r.2) s') :
    Takes (r :: a) a' s s' where
  sub := rest.sub.trans (List.sublist_cons_self r a)
  grows := Nat.le_trans (Nat.le_max_left s r.2) rest.grows
  taken q member := by
    rcases List.mem_cons.mp member with rfl | later
    · exact .inr (Nat.le_trans (Nat.le_max_right s _) rest.grows)
    · exact rest.taken q later
  covered place after before := by
    rcases Nat.lt_or_ge place (max s r.2) with early | late
    · exact ⟨r, List.mem_cons_self, by omega, by omega⟩
    · obtain ⟨q, member, inside⟩ := rest.covered place late before
      exact ⟨q, List.mem_cons_of_mem r member, inside⟩

end Takes

theorem absorbEnvironment_takes (env : List EnvironmentSpan) : ∀ stop,
    Takes (env.map EnvironmentSpan.extent)
      ((absorbEnvironment env stop).1.map EnvironmentSpan.extent)
      stop (absorbEnvironment env stop).2 := by
  induction env with
  | nil => exact fun stop => Takes.refl [] stop
  | cons e env ih =>
    intro stop
    rw [absorbEnvironment]
    split
    · next begins => exact Takes.one begins (ih (max stop e.stop))
    · exact Takes.refl _ stop

theorem absorbScan_takes (scan : List Edit) : ∀ u : Union,
    Takes (scan.map extent) ((absorbScan scan u).1.map extent)
      u.stop (absorbScan scan u).2.stop := by
  induction scan with
  | nil => exact fun u => Takes.refl [] u.stop
  | cons m scan ih =>
    intro u
    rw [absorbScan]
    split
    · next begins => exact Takes.one begins (ih (u.take m))
    · exact Takes.refl _ u.stop

theorem absorbScans_takes (scans : List (List Edit)) : ∀ u : Union,
    Takes (scans.flatMap fun scan => scan.map extent)
      ((absorbScans scans u).1.flatMap fun scan => scan.map extent)
      u.stop (absorbScans scans u).2.stop := by
  induction scans with
  | nil => exact fun u => Takes.refl [] u.stop
  | cons scan scans ih =>
    intro u
    rw [absorbScans]
    simp only [List.flatMap_cons]
    exact (absorbScan_takes scan u).append (ih (absorbScan scan u).2)

theorem round_takes (p : Pending) (u : Union) :
    Takes p.raw (round p u).1.raw u.stop (round p u).2.stop :=
  (absorbEnvironment_takes p.env u.stop).append
    (absorbScans_takes p.scans { u with stop := (absorbEnvironment p.env u.stop).2 })

theorem extend_takes (fuel : Nat) : ∀ p u,
    Takes p.raw (extend fuel p u).1.raw u.stop (extend fuel p u).2.stop := by
  induction fuel with
  | zero => exact fun p u => Takes.refl p.raw u.stop
  | succ fuel ih =>
    intro p u
    rw [extend_succ]
    split
    · exact (round_takes p u).trans (ih (round p u).1 (round p u).2)
    · exact round_takes p u

/-! ### The first match -/

theorem length_raw (p : Pending) : p.raw.length = p.size := by
  simp [Pending.raw, Pending.size, List.length_flatMap, Function.comp_def]

theorem start?_spec (p : Pending) (good : p.Good) :
    match p.start? with
    | none => p.raw = []
    | some start => (∃ stop, (start, stop) ∈ p.raw) ∧ ∀ r ∈ p.raw, start ≤ r.1 := by
  -- A list in order begins with its head.
  have heads : ∀ r ∈ p.raw, ∃ first, (first ∈ (p.env.head?.map EnvironmentSpan.start).toList ++
      p.scans.filterMap fun scan => scan.head?.map Edit.start) ∧ first ≤ r.1 := by
    intro r member
    rcases List.mem_append.mp member with inEnv | inScans
    · obtain ⟨e, known, rfl⟩ := List.mem_map.mp inEnv
      have sorted := good.env
      cases env : p.env with
      | nil => exact absurd (env ▸ known) List.not_mem_nil
      | cons first rest =>
        rw [env] at sorted known
        refine ⟨first.start, List.mem_append_left _ (by simp), ?_⟩
        rcases List.mem_cons.mp known with rfl | later
        · exact Nat.le_refl _
        · exact (List.pairwise_cons.mp sorted).1 e later
    · obtain ⟨scan, listed, inScan⟩ := List.mem_flatMap.mp inScans
      obtain ⟨m, known, rfl⟩ := List.mem_map.mp inScan
      have sorted := good.scans scan listed
      cases scan with
      | nil => exact absurd known List.not_mem_nil
      | cons first rest =>
        refine ⟨first.start, List.mem_append_right _ ?_, ?_⟩
        · exact List.mem_filterMap.mpr ⟨first :: rest, listed, rfl⟩
        · rcases List.mem_cons.mp known with rfl | later
          · exact Nat.le_refl _
          · exact (List.pairwise_cons.mp sorted).1 m later
  split
  · next none =>
    rw [Pending.start?, List.min?_eq_none_iff] at none
    rw [List.eq_nil_iff_forall_not_mem]
    intro r member
    obtain ⟨first, inHeads, _⟩ := heads r member
    rw [none] at inHeads
    exact List.not_mem_nil inHeads
  · next start first =>
    constructor
    · rcases List.mem_append.mp (List.min?_mem first) with inEnv | inScans
      · rw [Option.mem_toList, Option.map_eq_some_iff] at inEnv
        obtain ⟨e, head, rfl⟩ := inEnv
        exact ⟨e.stop, List.mem_append_left _ (List.mem_map_of_mem (List.mem_of_head? head))⟩
      · rw [List.mem_filterMap] at inScans
        obtain ⟨scan, inScans, head⟩ := inScans
        rw [Option.map_eq_some_iff] at head
        obtain ⟨m, head, rfl⟩ := head
        refine ⟨m.stop, List.mem_append_right _ (List.mem_flatMap.mpr ⟨scan, inScans, ?_⟩)⟩
        exact List.mem_map_of_mem (List.mem_of_head? head)
    · intro r member
      obtain ⟨head, inHeads, before⟩ := heads r member
      exact Nat.le_trans ((List.min?_eq_some_iff.mp first).2 head inHeads) before

/-! ### All spans -/

/-- The spans are the union of the matches. -/
structure Unites (spans : List Edit) (raw : List Extent) : Prop where
  contains : ∀ r ∈ raw, ∃ s ∈ spans, s.start ≤ r.1 ∧ r.2 ≤ s.stop
  within : ∀ s ∈ spans, ∀ place, s.start ≤ place → place < s.stop →
    ∃ r ∈ raw, r.1 ≤ place ∧ place < r.2

theorem yields_unites (fuel : Nat) : ∀ p, p.Good → Nonempty p.raw → p.size < fuel →
    Unites (yields fuel p) p.raw := by
  induction fuel with
  | zero => exact fun _ _ _ enough => absurd enough (Nat.not_lt_zero _)
  | succ fuel ih =>
    intro p good nonempty enough
    have spec := start?_spec p good
    rw [yields]
    split at spec
    · next none =>
      rw [spec]
      exact ⟨by simp, by simp [none]⟩
    · next start first =>
      obtain ⟨⟨stop, isFirst⟩, least⟩ := spec
      have takes := extend_takes (p.size + 1) p { stop := start + 1 }
      obtain ⟨step, done⟩ := extend_spec (p.size + 1) p { stop := start + 1 } good
        (Nat.lt_succ_self _)
      simp only [first]
      generalize extend (p.size + 1) p { stop := start + 1 } = after at takes step done ⊢
      have grows : start + 1 ≤ after.2.stop := takes.grows
      -- What is left begins behind the span, so the first match is not among it.
      have behind : ∀ r ∈ after.1.raw, after.2.stop ≤ r.1 := by
        intro r member
        rcases List.mem_append.mp member with inEnv | inScans
        · obtain ⟨e, known, rfl⟩ := List.mem_map.mp inEnv
          exact done.env e known
        · obtain ⟨scan, listed, inScan⟩ := List.mem_flatMap.mp inScans
          obtain ⟨m, known, rfl⟩ := List.mem_map.mp inScan
          exact done.scans scan listed m known
      have fewer : after.1.size < p.size := by
        rw [← length_raw, ← length_raw]
        refine Nat.lt_of_le_of_ne takes.sub.length_le fun same => ?_
        have whole := takes.sub.eq_of_length same
        have bound := behind _ (whole ▸ isFirst)
        simp only at bound
        omega
      have rest := ih after.1 step.good
        (fun r member => nonempty r (takes.sub.subset member)) (by omega)
      refine ⟨fun r member => ?_, fun s member place after' before => ?_⟩
      · rcases takes.taken r member with left | before
        · obtain ⟨s, inRest, inside⟩ := rest.contains r left
          exact ⟨s, List.mem_cons_of_mem _ inRest, inside⟩
        · exact ⟨_, List.mem_cons_self, least r member, before⟩
      · rcases List.mem_cons.mp member with rfl | later
        · rcases Nat.lt_or_ge place (start + 1) with here | further
          · have begins : start ≤ place := after'
            have some := nonempty _ isFirst
            exact ⟨_, isFirst, begins, by simp only at some ⊢; omega⟩
          · exact takes.covered place further before
        · obtain ⟨r, inRest, inside⟩ := rest.within s later place after' before
          exact ⟨r, takes.sub.subset inRest, inside⟩

end SensitiveSpans

open SensitiveSpans

def Beside (s t : Edit) : Prop := s.stop ≤ t.start ∨ t.stop ≤ s.start

instance : Std.Symm Beside where
  symm _ _ := Or.symm

/-! ### Matches of a text -/

theorem credentialMatches_nonempty (text : CodeUnits) : ∀ rule ∈ CREDENTIAL_PATTERNS,
    ∀ m ∈ credentialMatches rule text, m.start < m.stop := by
  have consume : ∀ rule ∈ CREDENTIAL_PATTERNS, rule.body.consumes = true := by decide
  intro rule listed m member
  obtain ⟨found, inMatches, rfl⟩ := List.mem_map.mp member
  have bounds := rule.allMatches_bounds text found inMatches
  have some := rule.allMatches_nonempty (consume rule listed) text found inMatches
  simp only
  omega

namespace JsonCredentials

theorem valueSpan_nonempty {text : CodeUnits} {s : State} {escaped : Bool} {key : Option CodeUnits}
    {damaged : Bool} {value : Nat} {span : CredentialSpan}
    (found : (valueSpan text s escaped key damaged value).1 = some span) :
    span.start < span.stop := by
  rw [valueSpan] at found
  split at found
  · simp only at found
    split at found
    · next some =>
      cases found
      exact some
    · cases found
  · split at found
    · revert found
      rcases nextEncodedQuote text s (value + 1) with ⟨stop, s'⟩
      simp only
      generalize (if stop < text.length then stop - 1 else stop) = contentEnd
      intro found
      split at found
      · next some =>
        cases found
        exact some
      · cases found
    · split at found
      · simp only at found
        split at found
        · cases found
        · next some =>
          split at found
          · cases found
          · cases found
            exact Nat.not_le.mp some
      · cases found

theorem quoteStep_nonempty {text : CodeUnits} {s : State} {position : Nat} {span : CredentialSpan}
    (found : (quoteStep text s position).1 = some span) : span.start < span.stop := by
  rw [quoteStep] at found
  simp only at found
  generalize (if (s.slashes % 2 == 1) = true then s.encoded else s.raw) = opener at found
  split at found
  · cases found
  · split at found
    · cases found
    · exact valueSpan_nonempty found

theorem scan_nonempty (text : CodeUnits) (rest : CodeUnits) : ∀ position s,
    ∀ span ∈ scan text position s rest, span.start < span.stop := by
  induction rest with
  | nil =>
    intro position s span member
    rw [scan] at member
    exact absurd member List.not_mem_nil
  | cons u rest ih =>
    intro position s span member
    rw [scan] at member
    split at member
    · exact ih _ _ span member
    · split at member
      · rcases List.mem_append.mp member with now | later
        · exact quoteStep_nonempty (Option.mem_toList.mp now)
        · exact ih _ _ span later
      · exact ih _ _ span member

end JsonCredentials

theorem rawMatches_nonempty (text : CodeUnits) (environment : EnvironmentMatcher) :
    Nonempty (rawMatches text environment) := by
  intro r member
  rcases List.mem_append.mp member with inEnv | inScans
  · obtain ⟨e, known, rfl⟩ := List.mem_map.mp inEnv
    exact (environment.spans_apart text).2 e known |>.1
  · obtain ⟨scan, listed, inScan⟩ := List.mem_flatMap.mp inScans
    obtain ⟨m, inMatches, rfl⟩ := List.mem_map.mp inScan
    rw [credentialScans, List.mem_append, List.mem_map, List.mem_singleton] at listed
    rcases listed with ⟨rule, known, rfl⟩ | rfl
    · exact credentialMatches_nonempty text rule known m inMatches
    · obtain ⟨s, inSpans, rfl⟩ := List.mem_map.mp inMatches
      exact JsonCredentials.scan_nonempty text text 0 {} s inSpans

theorem sensitiveSpans_unites (text : CodeUnits) (environment : EnvironmentMatcher) :
    Unites (sensitiveSpans text environment) (rawMatches text environment) := by
  have scans := credentialScans_good text
  rw [sensitiveSpans]
  exact yields_unites _ { env := environment.spans text, scans := credentialScans text }
    ⟨environment.spans_sorted text, scans.1, scans.2⟩ (rawMatches_nonempty text environment)
    (Nat.lt_succ_self _)

/-- **Sensitive spans are an exact union.** The spans are in order and disjoint, every match
lies in exactly one of them, and each place of a span in some match. So a redacted text keeps
the places outside the matches, in order, and none inside. -/
theorem sensitiveSpans_union (text : CodeUnits) (environment : EnvironmentMatcher) :
    (sensitiveSpans text environment).Pairwise (fun s t => s.stop ≤ t.start) ∧
    (∀ r ∈ rawMatches text environment, r.1 < r.2 →
      ∃! s, s ∈ sensitiveSpans text environment ∧ s.start ≤ r.1 ∧ r.2 ≤ s.stop) ∧
    (∀ s ∈ sensitiveSpans text environment, ∀ place, s.start ≤ place → place < s.stop →
      ∃ r ∈ rawMatches text environment, r.1 ≤ place ∧ place < r.2) ∧
    origins (redactOriginalText .tracked environment (mark text)) =
      (List.range text.length).filter fun place =>
        (rawMatches text environment).all fun r => place < r.1 || r.2 ≤ place := by
  obtain ⟨ordered, _⟩ := sensitiveSpans_ordered text environment
  have unites := sensitiveSpans_unites text environment
  have apart := ordered.pairwise
  refine ⟨apart, fun r member some => ?_, unites.within, ?_⟩
  · obtain ⟨s, inSpans, inside⟩ := unites.contains r member
    refine ⟨s, ⟨inSpans, inside⟩, ?_⟩
    rintro t ⟨alsoIn, alsoInside⟩
    -- Two spans that share a place are the same.
    by_contra different
    have beside := (apart.imp (S := Beside) .inl).forall inSpans alsoIn
      (Ne.symm different)
    rw [Beside] at beside
    omega
  · rw [redactOriginalText, read_mark, origins_splice_eq _ _ ordered]
    refine List.filter_congr fun place _ => ?_
    rw [Bool.eq_iff_iff, List.all_eq_true, List.all_eq_true]
    simp only [Bool.or_eq_true, decide_eq_true_iff]
    constructor
    · intro outside r member
      obtain ⟨s, inSpans, inside⟩ := unites.contains r member
      have clear := outside s inSpans
      omega
    · intro outside s inSpans
      by_contra covered
      obtain ⟨r, member, inside⟩ := unites.within s inSpans place (by omega) (by omega)
      have clear := outside r member
      omega

end Ace.Redaction
