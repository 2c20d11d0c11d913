import Ace.Redaction.Spans
import Ace.Script.Matching

/-!
# Sensitive spans are in order

The matches that `sensitiveSpans` merges come in order of where they begin, whichever scan
yields them, and so the merged spans follow one another without overlapping.

## Main result

`sensitiveSpans_ordered`: the sensitive spans of a text are in order, none is empty, and what
replaces them is a text with which no word beside it can grow together.
-/

namespace Ace.Redaction

open Script

def Sorted (spans : List Edit) : Prop := spans.Pairwise fun s t => s.start ≤ t.start

/-! ### Replacements -/

theorem closed_secret : Closed (units "<SECRET>") := by decide

theorem closed_env : Closed (units "<ENV>") := by decide

theorem closed_scalar (escaped : Bool) :
    Closed (if escaped then units "\\\"<SECRET>\\\"" else units "\"<SECRET>\"") := by
  cases escaped <;> decide

/-! ### Environment values -/

namespace EnvironmentMatcher

/-- Spans, newest first, of which each ends before the newer begins. -/
def Stacked (spans : List EnvironmentSpan) : Prop :=
  spans.Pairwise (fun newer older => older.stop ≤ newer.start) ∧ ∀ s ∈ spans, s.start < s.stop

theorem push_stacked (spans : List EnvironmentSpan) : ∀ start stop, start < stop →
    Stacked spans → (∀ s ∈ spans, s.stop ≤ stop) →
    Stacked (push start stop spans) ∧ ∀ s ∈ push start stop spans, s.stop ≤ stop := by
  induction spans with
  | nil =>
    intro start stop some _ _
    rw [push]
    refine ⟨⟨List.pairwise_singleton _ _, fun s member => ?_⟩, fun s member => ?_⟩
    · rw [List.mem_singleton.mp member]
      exact some
    · rw [List.mem_singleton.mp member]
  | cons previous rest ih =>
    intro start stop some stacked bounded
    have restStacked : Stacked rest :=
      ⟨(List.pairwise_cons.mp stacked.1).2, fun s member => stacked.2 s (by simp [member])⟩
    have older := (List.pairwise_cons.mp stacked.1).1
    have previousSome := stacked.2 previous List.mem_cons_self
    have previousBounded := bounded previous List.mem_cons_self
    rw [push]
    split
    · next clear =>
      refine ⟨⟨List.Pairwise.cons (fun s member => ?_) stacked.1, fun s member => ?_⟩,
        fun s member => ?_⟩
      · rcases List.mem_cons.mp member with rfl | deeper
        · exact clear
        · have below := older s deeper
          simp only
          omega
      · rcases List.mem_cons.mp member with rfl | deeper
        · exact some
        · exact stacked.2 s deeper
      · rcases List.mem_cons.mp member with rfl | deeper
        · exact Nat.le_refl _
        · exact bounded s deeper
    · next reaches =>
      exact ih (min start previous.start) stop (by omega) restStacked
        fun s member => bounded s (List.mem_cons_of_mem previous member)

theorem scan_stacked (m : EnvironmentMatcher) (rest : CodeUnits) : ∀ i node spans,
    Stacked spans → (∀ s ∈ spans, s.stop ≤ i) → Stacked (m.scan i node spans rest).reverse := by
  induction rest with
  | nil =>
    intro i node spans stacked _
    rw [scan, List.reverse_reverse]
    exact stacked
  | cons char rest ih =>
    intro i node spans stacked bounded
    have wider : ∀ s ∈ spans, s.stop ≤ i + 1 := fun s member => by
      have bound := bounded s member
      omega
    rw [scan]
    split
    · exact ih _ _ _ stacked wider
    · next positive =>
      have pushed := push_stacked spans (i + 1 - m.longest (m.advance char node)) (i + 1)
        (by omega) stacked wider
      exact ih _ _ _ pushed.1 pushed.2

theorem spans_sorted (m : EnvironmentMatcher) (text : CodeUnits) :
    (m.spans text).Pairwise fun s t => s.start ≤ t.start := by
  rw [spans]
  split
  · exact List.Pairwise.nil
  · have stacked := m.scan_stacked text 0 [] [] ⟨List.Pairwise.nil, by simp⟩ (by simp)
    have inOrder := List.pairwise_reverse.mp stacked.1
    refine inOrder.imp_of_mem fun {s t} inS _ before => ?_
    have some := stacked.2 s (List.mem_reverse.mpr inS)
    omega

end EnvironmentMatcher

/-! ### Credential spellings -/

theorem credentialMatches_sorted (rule : Rule) (text : CodeUnits) :
    Sorted (credentialMatches rule text) := by
  rw [Sorted, credentialMatches, List.pairwise_map]
  refine (rule.allMatches_pairwise text).imp_of_mem fun {m n} inM inN before => ?_
  have first := rule.allMatches_bounds text m inM
  have second := rule.allMatches_bounds text n inN
  simp only
  omega

/-! ### Assignments in JSON text -/

namespace JsonCredentials

theorem pastSpace_le (text : CodeUnits) : ∀ position, position ≤ pastSpace position text := by
  induction text with
  | nil => exact fun position => Nat.le_refl _
  | cons u rest ih =>
    intro position
    rw [pastSpace]
    split
    · exact Nat.le_trans (Nat.le_succ _) (ih _)
    · exact Nat.le_refl _

theorem pastSpace_space (text : CodeUnits) : ∀ position k, k < pastSpace position text →
    position ≤ k → ∃ u, text[k - position]? = some u ∧ isSpaceUnit u = true := by
  induction text with
  | nil =>
    intro position k before after
    rw [pastSpace] at before
    omega
  | cons u rest ih =>
    intro position k before after
    rw [pastSpace] at before
    split at before
    · next space =>
      by_cases here : k = position
      · exact ⟨u, by rw [here, Nat.sub_self]; rfl, space⟩
      · have next : k - position = (k - (position + 1)) + 1 := by omega
        rw [next, List.getElem?_cons_succ]
        exact ih (position + 1) k before (by omega)
    · omega

theorem value_le_of_quote (text : CodeUnits) (position : Nat)
    (colon : text[pastSpace (position + 1) (text.drop (position + 1))]? = some ':'.toNat)
    (later : Nat) (after : position < later) (quote : text[later]? = some '"'.toNat) :
    pastSpace (pastSpace (position + 1) (text.drop (position + 1)) + 1)
      (text.drop (pastSpace (position + 1) (text.drop (position + 1)) + 1)) ≤ later := by
  generalize colonIs : pastSpace (position + 1) (text.drop (position + 1)) = at' at colon ⊢
  have pastColon : at' < later := by
    by_contra early
    rcases Nat.lt_or_eq_of_le (Nat.not_lt.mp early) with before | equal
    · have space := pastSpace_space (text.drop (position + 1)) (position + 1) later
        (colonIs ▸ before) after
      obtain ⟨u, found, white⟩ := space
      rw [List.getElem?_drop, Nat.add_sub_cancel' after, quote] at found
      rw [← Option.some.inj found] at white
      exact absurd white (by decide)
    · rw [equal, colon] at quote
      exact absurd (Option.some.inj quote) (by decide)
  by_contra early
  obtain ⟨u, found, white⟩ := pastSpace_space (text.drop (at' + 1)) (at' + 1) later
    (Nat.not_le.mp early) pastColon
  rw [List.getElem?_drop, Nat.add_sub_cancel' pastColon, quote] at found
  rw [← Option.some.inj found] at white
  exact absurd white (by decide)

theorem valueSpan_start {text : CodeUnits} {s : State} {escaped : Bool} {key : Option CodeUnits}
    {damaged : Bool} {value : Nat} {span : CredentialSpan}
    (found : (valueSpan text s escaped key damaged value).1 = some span) :
    Closed span.replacement ∧ value ≤ span.start ∧ ∀ later, value ≤ later →
      text[later]? = some '"'.toNat → span.start ≤ later + 1 := by
  rw [valueSpan] at found
  split at found
  · -- a raw string
    simp only at found
    split at found
    · cases found
      exact ⟨closed_secret, Nat.le_succ _, fun later after _ => Nat.succ_le_succ after⟩
    · cases found
  · split at found
    · -- an encoded string
      next encoded =>
      revert found
      rcases nextEncodedQuote text s (value + 1) with ⟨stop, s'⟩
      simp only
      generalize (if stop < text.length then stop - 1 else stop) = contentEnd
      intro found
      split at found
      · cases found
        refine ⟨closed_secret, Nat.le_add_right _ _, fun later after quote => ?_⟩
        rcases Nat.lt_or_eq_of_le after with past | rfl
        · simp only
          omega
        · rw [encoded.1] at quote
          exact absurd (Option.some.inj quote) (by decide)
      · cases found
    · split at found
      · -- a scalar
        simp only at found
        split at found
        · cases found
        · split at found
          · cases found
          · cases found
            exact ⟨closed_scalar escaped, Nat.le_refl _,
              fun later after _ => Nat.le_succ_of_le after⟩
      · cases found

theorem quoteStep_start {text : CodeUnits} {s : State} {position : Nat} {span : CredentialSpan}
    (found : (quoteStep text s position).1 = some span) :
    Closed span.replacement ∧ position + 2 ≤ span.start ∧ ∀ later, position < later →
      text[later]? = some '"'.toNat → span.start ≤ later + 1 := by
  rw [quoteStep] at found
  simp only at found
  generalize (if (s.slashes % 2 == 1) = true then s.encoded else s.raw) = opener at found
  split at found
  · cases found
  · next colon =>
    rw [not_or, not_not] at colon
    split at found
    · cases found
    · have bounds := valueSpan_start found
      have first := pastSpace_le (text.drop (position + 1)) (position + 1)
      have second := pastSpace_le
        (text.drop (pastSpace (position + 1) (text.drop (position + 1)) + 1))
        (pastSpace (position + 1) (text.drop (position + 1)) + 1)
      refine ⟨bounds.1, by omega, fun later after quote => ?_⟩
      exact bounds.2.2 later (value_le_of_quote text position colon.1 later after quote) quote

theorem scan_start (text : CodeUnits) (rest : CodeUnits) : ∀ position s,
    rest = text.drop position → ∀ span ∈ scan text position s rest, Closed span.replacement ∧
    ∃ quote, position ≤ quote ∧ text[quote]? = some '"'.toNat ∧ quote + 2 ≤ span.start := by
  induction rest with
  | nil =>
    intro position s _ span member
    rw [scan] at member
    exact absurd member List.not_mem_nil
  | cons u rest ih =>
    intro position s isRest span member
    have here : text[position]? = some u := by
      have head := congrArg List.head? isRest
      rw [List.head?_drop] at head
      exact head.symm
    have tail : rest = text.drop (position + 1) := by
      rw [← List.tail_drop, ← isRest, List.tail_cons]
    have later : ∀ s', span ∈ scan text (position + 1) s' rest → Closed span.replacement ∧
        ∃ quote, position ≤ quote ∧ text[quote]? = some '"'.toNat ∧ quote + 2 ≤ span.start := by
      intro s' inRest
      obtain ⟨closed, quote, after, found, start⟩ := ih (position + 1) s' tail span inRest
      exact ⟨closed, quote, Nat.le_of_succ_le after, found, start⟩
    rw [scan] at member
    split at member
    · exact later _ member
    · split at member
      · next quote =>
        rcases List.mem_append.mp member with now | inRest
        · have bounds := quoteStep_start (Option.mem_toList.mp now)
          exact ⟨bounds.1, position, Nat.le_refl _, by rw [here, quote], bounds.2.1⟩
        · exact later _ inRest
      · exact later _ member

theorem scan_sorted (text : CodeUnits) (rest : CodeUnits) : ∀ position s,
    rest = text.drop position →
    (scan text position s rest).Pairwise fun a b => a.start ≤ b.start := by
  induction rest with
  | nil => exact fun _ _ _ => List.Pairwise.nil
  | cons u rest ih =>
    intro position s isRest
    have tail : rest = text.drop (position + 1) := by
      rw [← List.tail_drop, ← isRest, List.tail_cons]
    rw [scan]
    split
    · exact ih _ _ tail
    · split
      · rw [List.pairwise_append]
        refine ⟨?_, ih _ _ tail, fun a inA b inB => ?_⟩
        · cases (quoteStep text s position).1 <;> simp
        · have bounds := quoteStep_start (Option.mem_toList.mp inA)
          obtain ⟨_, quote, after, found, start⟩ := scan_start text rest _ _ tail b inB
          have upper := bounds.2.2 quote after found
          omega
      · exact ih _ _ tail

end JsonCredentials

/-! ### The union of the matches -/

namespace SensitiveSpans

/-- What is still to be read begins in order, and is replaced by closed texts. -/
structure Pending.Good (p : Pending) : Prop where
  env : p.env.Pairwise fun a b => a.start ≤ b.start
  scans : ∀ scan ∈ p.scans, Sorted scan
  closed : ∀ scan ∈ p.scans, ∀ m ∈ scan, Closed m.replacement

/-- Nothing that is still to be read begins before `place`. -/
structure Pending.After (p : Pending) (place : Nat) : Prop where
  env : ∀ e ∈ p.env, place ≤ e.start
  scans : ∀ scan ∈ p.scans, ∀ m ∈ scan, place ≤ m.start

def Union.Good (u : Union) : Prop := ∀ m ∈ u.preferred, Closed m.replacement

theorem absorbEnvironment_spec (env : List EnvironmentSpan) : ∀ stop,
    env.Pairwise (fun a b => a.start ≤ b.start) →
    (absorbEnvironment env stop).1 <:+ env ∧ stop ≤ (absorbEnvironment env stop).2 ∧
      (∀ e ∈ (absorbEnvironment env stop).1, (absorbEnvironment env stop).2 ≤ e.start) ∧
      (stop < (absorbEnvironment env stop).2 →
        (absorbEnvironment env stop).1.length < env.length) := by
  induction env with
  | nil =>
    intro stop _
    exact ⟨List.suffix_refl _, Nat.le_refl _, by simp [absorbEnvironment],
      fun grew => absurd grew (Nat.lt_irrefl _)⟩
  | cons e env ih =>
    intro stop sorted
    rw [absorbEnvironment]
    split
    · obtain ⟨suffix, grows, after, _⟩ := ih (max stop e.stop) (List.pairwise_cons.mp sorted).2
      have shorter := suffix.length_le
      refine ⟨suffix.trans (List.suffix_cons e env), by omega, after, fun _ => ?_⟩
      rw [List.length_cons]
      omega
    · next late =>
      refine ⟨List.suffix_refl _, Nat.le_refl _, fun f member => ?_,
        fun grew => absurd grew (Nat.lt_irrefl _)⟩
      rcases List.mem_cons.mp member with rfl | later
      · exact Nat.not_lt.mp late
      · exact Nat.le_trans (Nat.not_lt.mp late) ((List.pairwise_cons.mp sorted).1 f later)

theorem absorbScan_spec (scan : List Edit) : ∀ u : Union, Sorted scan →
    (absorbScan scan u).1 <:+ scan ∧ u.stop ≤ (absorbScan scan u).2.stop ∧
      (∀ m ∈ (absorbScan scan u).1, (absorbScan scan u).2.stop ≤ m.start) ∧
      (u.stop < (absorbScan scan u).2.stop → (absorbScan scan u).1.length < scan.length) := by
  induction scan with
  | nil =>
    intro u _
    exact ⟨List.suffix_refl _, Nat.le_refl _, by simp [absorbScan],
      fun grew => absurd grew (Nat.lt_irrefl _)⟩
  | cons m scan ih =>
    intro u sorted
    rw [absorbScan]
    split
    · obtain ⟨suffix, grows, after, _⟩ := ih (u.take m) (List.pairwise_cons.mp sorted).2
      have shorter := suffix.length_le
      have wider : u.stop ≤ (u.take m).stop := Nat.le_max_left _ _
      refine ⟨suffix.trans (List.suffix_cons m scan), by omega, after, fun _ => ?_⟩
      rw [List.length_cons]
      omega
    · next late =>
      refine ⟨List.suffix_refl _, Nat.le_refl _, fun n member => ?_,
        fun grew => absurd grew (Nat.lt_irrefl _)⟩
      rcases List.mem_cons.mp member with rfl | later
      · exact Nat.not_lt.mp late
      · exact Nat.le_trans (Nat.not_lt.mp late) ((List.pairwise_cons.mp sorted).1 n later)

theorem take_good {u : Union} {m : Edit} (good : u.Good) (closed : Closed m.replacement) :
    (u.take m).Good := by
  intro n member
  rw [Union.take] at member
  simp only at member
  split at member
  · rw [← Option.some.inj member]
    exact closed
  · next p known =>
    split at member
    · rw [← Option.some.inj member]
      exact closed
    · rw [← Option.some.inj member]
      exact good p known

theorem absorbScan_good (scan : List Edit) : ∀ u : Union, u.Good →
    (∀ m ∈ scan, Closed m.replacement) → (absorbScan scan u).2.Good := by
  induction scan with
  | nil => exact fun u good _ => good
  | cons m scan ih =>
    intro u good closed
    rw [absorbScan]
    split
    · exact ih _ (take_good good (closed m List.mem_cons_self))
        fun n member => closed n (List.mem_cons_of_mem m member)
    · exact good

/-- How the scans stand after a round over them. -/
structure Absorbed (scans scans' : List (List Edit)) (u u' : Union) : Prop where
  suffix : ∀ scan' ∈ scans', ∃ scan ∈ scans, scan' <:+ scan
  grows : u.stop ≤ u'.stop
  after : u'.stop = u.stop → ∀ scan ∈ scans', ∀ m ∈ scan, u'.stop ≤ m.start
  shorter : (scans'.map List.length).sum ≤ (scans.map List.length).sum
  took : u.stop < u'.stop → (scans'.map List.length).sum < (scans.map List.length).sum
  good : u.Good → (∀ scan ∈ scans, ∀ m ∈ scan, Closed m.replacement) → u'.Good

theorem absorbScans_spec (scans : List (List Edit)) : ∀ u : Union,
    (∀ scan ∈ scans, Sorted scan) →
    Absorbed scans (absorbScans scans u).1 u (absorbScans scans u).2 := by
  induction scans with
  | nil =>
    intro u _
    exact ⟨by simp [absorbScans], Nat.le_refl _, by simp [absorbScans], Nat.le_refl _,
      fun grew => absurd grew (Nat.lt_irrefl _), fun good _ => good⟩
  | cons scan scans ih =>
    intro u sorted
    obtain ⟨suffix, grows, after, took⟩ := absorbScan_spec scan u (sorted scan List.mem_cons_self)
    have rest := ih (absorbScan scan u).2
      fun s member => sorted s (List.mem_cons_of_mem scan member)
    have shorter := suffix.length_le
    have later := rest.grows
    have tail := rest.shorter
    rw [absorbScans]
    refine ⟨fun s member => ?_, Nat.le_trans grows rest.grows, fun same s member => ?_, ?_,
      fun grew => ?_, fun good closed => ?_⟩
    · rcases List.mem_cons.mp member with rfl | inRest
      · exact ⟨scan, List.mem_cons_self, suffix⟩
      · obtain ⟨t, inScans, suffix⟩ := rest.suffix s inRest
        exact ⟨t, List.mem_cons_of_mem scan inScans, suffix⟩
    · simp only at same
      have still : (absorbScans scans (absorbScan scan u).2).2.stop =
          (absorbScan scan u).2.stop := by omega
      rcases List.mem_cons.mp member with rfl | inRest
      · intro m inScan
        simp only [still]
        exact after m inScan
      · exact rest.after still s inRest
    · simp only [List.map_cons, List.sum_cons]
      omega
    · simp only [List.map_cons, List.sum_cons] at grew ⊢
      by_cases first : u.stop < (absorbScan scan u).2.stop
      · have fewer := took first
        omega
      · have fewer := rest.took (by omega)
        omega
    · apply rest.good
      · exact absorbScan_good scan u good (closed scan List.mem_cons_self)
      · exact fun s member => closed s (List.mem_cons_of_mem scan member)

/-- How things stand after some rounds. -/
structure Extended (p p' : Pending) (u u' : Union) : Prop where
  good : p'.Good
  grows : u.stop ≤ u'.stop
  shorter : p'.size ≤ p.size
  union : u.Good → u'.Good

theorem round_spec (p : Pending) (u : Union) (good : p.Good) :
    Extended p (round p u).1 u (round p u).2 ∧
      (u.stop < (round p u).2.stop → (round p u).1.size < p.size) ∧
      ((round p u).2.stop = u.stop → (round p u).1.After (round p u).2.stop) := by
  obtain ⟨suffix, grows, after, took⟩ := absorbEnvironment_spec p.env u.stop good.env
  have scans := absorbScans_spec p.scans { u with stop := (absorbEnvironment p.env u.stop).2 }
    good.scans
  have widens := scans.grows
  have fewer := scans.shorter
  have shorter := suffix.length_le
  simp only at widens
  rw [round]
  simp only
  refine ⟨⟨⟨good.env.sublist suffix.sublist, ?_, ?_⟩, Nat.le_trans grows widens, ?_, ?_⟩, ?_, ?_⟩
  · intro scan member
    obtain ⟨whole, inScans, suffix⟩ := scans.suffix scan member
    exact (good.scans whole inScans).sublist suffix.sublist
  · intro scan member m inScan
    obtain ⟨whole, inScans, suffix⟩ := scans.suffix scan member
    exact good.closed whole inScans m (suffix.subset inScan)
  · rw [Pending.size, Pending.size]
    simp only
    omega
  · exact fun union => scans.good union good.closed
  · intro grew
    rw [Pending.size, Pending.size]
    simp only at grew ⊢
    by_cases first : u.stop < (absorbEnvironment p.env u.stop).2
    · have less := took first
      omega
    · have less := scans.took (by simp only; omega)
      omega
  · intro same
    refine ⟨fun e member => ?_, ?_⟩
    · have place := after e member
      rw [same]
      exact Nat.le_trans grows place
    · exact scans.after (by simp only; omega)

theorem extend_succ (fuel : Nat) (p : Pending) (u : Union) :
    extend (fuel + 1) p u =
      if u.stop < (round p u).2.stop then extend fuel (round p u).1 (round p u).2
      else round p u := rfl

theorem extend_spec (fuel : Nat) : ∀ p u, p.Good → p.size < fuel →
    Extended p (extend fuel p u).1 u (extend fuel p u).2 ∧
      (extend fuel p u).1.After (extend fuel p u).2.stop := by
  induction fuel with
  | zero => exact fun _ _ _ enough => absurd enough (Nat.not_lt_zero _)
  | succ fuel ih =>
    intro p u good enough
    obtain ⟨step, took, after⟩ := round_spec p u good
    rw [extend_succ]
    split
    · next grew =>
      have less := took grew
      obtain ⟨more, done⟩ := ih (round p u).1 (round p u).2 step.good (by omega)
      exact ⟨⟨more.good, Nat.le_trans step.grows more.grows,
        Nat.le_trans more.shorter step.shorter, fun union => more.union (step.union union)⟩, done⟩
    · next still =>
      have grows := step.grows
      exact ⟨step, after (by omega)⟩

theorem le_start? {p : Pending} {place start : Nat} (after : p.After place)
    (first : p.start? = some start) : place ≤ start := by
  have member := List.min?_mem first
  rcases List.mem_append.mp member with inEnv | inScans
  · rw [Option.mem_toList, Option.map_eq_some_iff] at inEnv
    obtain ⟨e, head, rfl⟩ := inEnv
    exact after.env e (List.mem_of_head? head)
  · rw [List.mem_filterMap] at inScans
    obtain ⟨scan, inScans, head⟩ := inScans
    rw [Option.map_eq_some_iff] at head
    obtain ⟨m, head, rfl⟩ := head
    exact after.scans scan inScans m (List.mem_of_head? head)

theorem span_closed {u : Union} (good : u.Good) (start : Nat) :
    Closed (u.span start).replacement := by
  have usual : Closed (if u.secret then units "<SECRET>" else units "<ENV>") := by
    split
    · exact closed_secret
    · exact closed_env
  rw [Union.span]
  simp only
  split
  · next p known =>
    split
    · exact good p known
    · exact usual
  · exact usual

theorem yields_ordered (fuel : Nat) : ∀ p place, p.Good → p.After place →
    Ordered place (yields fuel p) ∧
      ∀ s ∈ yields fuel p, Closed s.replacement ∧ s.start < s.stop := by
  induction fuel with
  | zero => exact fun _ _ _ _ => ⟨trivial, by simp [yields]⟩
  | succ fuel ih =>
    intro p place good after
    rw [yields]
    split
    · exact ⟨trivial, by simp⟩
    · next start first =>
      have begins := le_start? after first
      obtain ⟨step, done⟩ := extend_spec (p.size + 1) p { stop := start + 1 } good
        (Nat.lt_succ_self _)
      have union : (extend (p.size + 1) p { stop := start + 1 }).2.Good :=
        step.union fun m member => absurd member (by simp)
      have grows : start + 1 ≤ (extend (p.size + 1) p { stop := start + 1 }).2.stop := step.grows
      obtain ⟨ordered, closed⟩ := ih _ _ step.good done
      refine ⟨⟨begins, Nat.le_of_succ_le grows, ordered⟩, fun s member => ?_⟩
      rcases List.mem_cons.mp member with rfl | later
      · exact ⟨span_closed union start, grows⟩
      · exact closed s later

end SensitiveSpans

/-! ### The spans of a text -/

theorem credentialScans_good (text : CodeUnits) :
    (∀ scan ∈ credentialScans text, Sorted scan) ∧
      ∀ scan ∈ credentialScans text, ∀ m ∈ scan, Closed m.replacement := by
  constructor
  · intro scan member
    rw [credentialScans, List.mem_append, List.mem_map, List.mem_singleton] at member
    rcases member with ⟨rule, _, rfl⟩ | rfl
    · exact credentialMatches_sorted rule text
    · rw [Sorted, List.pairwise_map]
      exact JsonCredentials.scan_sorted text text 0 {} rfl
  · intro scan member m inScan
    rw [credentialScans, List.mem_append, List.mem_map, List.mem_singleton] at member
    rcases member with ⟨rule, _, rfl⟩ | rfl
    · obtain ⟨_, _, rfl⟩ := List.mem_map.mp inScan
      exact closed_secret
    · obtain ⟨s, inSpans, rfl⟩ := List.mem_map.mp inScan
      exact (JsonCredentials.scan_start text text 0 {} rfl s inSpans).1

theorem sensitiveSpans_ordered (text : CodeUnits) (environment : EnvironmentMatcher) :
    Ordered 0 (sensitiveSpans text environment) ∧
      ∀ s ∈ sensitiveSpans text environment, Closed s.replacement ∧ s.start < s.stop := by
  have scans := credentialScans_good text
  rw [sensitiveSpans]
  apply SensitiveSpans.yields_ordered
  · exact ⟨environment.spans_sorted text, scans.1, scans.2⟩
  · exact ⟨fun _ _ => Nat.zero_le _, fun _ _ _ _ => Nat.zero_le _⟩

end Ace.Redaction
