import Ace.Properties.SensitiveSpans
import Ace.Script.LongestPrefix

/-!
# What the environment matcher covers

The state of the automaton after a text is the longest end of it that begins a spelling. It
therefore knows the longest spelling that ends there, and the spans that it pushes cover the
places of all the spellings that occur.

## Main result

`environmentSpans_exact`
-/

namespace Ace.Redaction

open Script

namespace EnvironmentMatcher

variable (m : EnvironmentMatcher)

/-! ### States -/

/-- A state of the trie: the root, or a text that begins a spelling. -/
def InTrie (node : Node) : Prop :=
  node = [] ∨ ∃ spelling ∈ m.spellings, node.reverse <+: spelling

theorem inTrie_nil : m.InTrie [] := .inl rfl

theorem hasChild_iff (node : Node) (char : Nat) :
    m.hasChild node char = true ↔ m.InTrie (char :: node) := by
  rw [hasChild, List.any_eq_true]
  simp only [List.isPrefixOf_iff_prefix]
  constructor
  · exact fun ⟨spelling, known, begins⟩ => .inr ⟨spelling, known, begins⟩
  · rintro (root | ⟨spelling, known, begins⟩)
    · exact absurd root (List.cons_ne_nil _ _)
    · exact ⟨spelling, known, begins⟩

variable {m}

theorem InTrie.tail {char : Nat} {node : Node} (inside : m.InTrie (char :: node)) :
    m.InTrie node := by
  rcases inside with root | ⟨spelling, known, begins⟩
  · exact absurd root (List.cons_ne_nil _ _)
  · refine .inr ⟨spelling, known, ?_⟩
    rw [List.reverse_cons] at begins
    exact (List.prefix_append node.reverse [char]).trans begins

theorem InTrie.of_spelling {node : Node} (known : node.reverse ∈ m.spellings) : m.InTrie node :=
  .inr ⟨node.reverse, known, List.prefix_refl _⟩

variable (m)

/-! ### Failure links -/

/-- The states from which `char` leads on. -/
abbrev GoesOn (char : Nat) (node : Node) : Prop := m.InTrie (char :: node)

/-- A link leads to the longest shorter state that ends alike. -/
def Links (link : Node → Option Node) (node : Node) : Prop :=
  (node = [] → link node = none) ∧
    (node ≠ [] → ∃ shorter, link node = some shorter ∧ LongestProper m.InTrie node shorter)

theorem fallback_spec (link : Node → Option Node) (char : Nat) (fuel : Nat) : ∀ node : Node,
    node.length < fuel → (∀ z : Node, z.length ≤ node.length → m.Links link z) →
    (∃ y, m.fallback link char fuel (some node) = some y ∧
        LongestPrefix (m.GoesOn char) node y) ∨
      (m.fallback link char fuel (some node) = none ∧ NoPrefix (m.GoesOn char) node) := by
  induction fuel with
  | zero => exact fun _ enough => absurd enough (Nat.not_lt_zero _)
  | succ fuel ih =>
    intro node enough links
    rw [fallback]
    by_cases child : m.hasChild node char = true
    · rw [if_pos child]
      exact .inl ⟨node, rfl, LongestPrefix.self ((m.hasChild_iff node char).mp child)⟩
    · rw [if_neg child]
      have stuck : ¬ m.GoesOn char node := fun on => child ((m.hasChild_iff node char).mpr on)
      by_cases root : node = []
      · rw [(links node (Nat.le_refl _)).1 root]
        refine .inr ⟨by rw [fallback], fun y leads => ?_⟩
        rw [root] at leads stuck
        rw [List.prefix_nil.mp leads]
        exact stuck
      · obtain ⟨shorter, found, proper⟩ := (links node (Nat.le_refl _)).2 root
        have less := proper.shorter
        rw [found]
        have tail : ∀ z, m.GoesOn char z → m.InTrie z := fun _ => InTrie.tail
        rcases ih shorter (by omega) (fun z le => links z (by omega)) with ⟨y, on, longest⟩ | ⟨off, none⟩
        · exact .inl ⟨y, on, proper.of_not_whole tail stuck longest⟩
        · exact .inr ⟨off, proper.noPrefix_of_not_whole tail stuck none⟩

theorem failWith_spec (fuel : Nat) : ∀ node : Node, node.length < fuel →
    m.Links (m.failWith fuel) node := by
  induction fuel with
  | zero => exact fun _ enough => absurd enough (Nat.not_lt_zero _)
  | succ fuel ih =>
    intro node enough
    refine ⟨fun root => by rw [root, failWith], fun _ => ?_⟩
    match node, enough with
    | [char], _ => exact ⟨[], by rw [failWith], LongestProper.singleton m.inTrie_nil⟩
    | char :: next :: rest, enough =>
      have long : (next :: rest).length < fuel := by simpa using enough
      obtain ⟨shorter, found, proper⟩ := (ih (next :: rest) long).2 (List.cons_ne_nil _ _)
      have less := proper.shorter
      have tail : ∀ z, m.InTrie (char :: z) → m.InTrie z := fun _ => InTrie.tail
      have followed := m.fallback_spec (m.failWith fuel) char ((next :: rest).length + 1) shorter
        (by omega) fun z le => ih z (by omega)
      rw [failWith, found]
      · rcases followed with ⟨y, on, longest⟩ | ⟨off, none⟩
        · rw [on]
          exact ⟨char :: y, rfl, proper.cons tail longest⟩
        · rw [off]
          exact ⟨[], rfl, proper.cons_nil tail m.inTrie_nil none⟩
      · simp

theorem fail_spec (node : Node) : m.Links m.fail node := m.failWith_spec _ node (Nat.lt_succ_self _)

/-! ### The longest spelling that ends at a state -/

abbrev IsSpelling (node : Node) : Prop := node.reverse ∈ m.spellings

theorem longestWith_spec (fuel : Nat) : ∀ node : Node, node.length < fuel →
    (∃ x, LongestPrefix m.IsSpelling node x ∧ m.longestWith fuel node = x.length) ∨
      (NoPrefix m.IsSpelling node ∧ m.longestWith fuel node = 0) := by
  induction fuel with
  | zero => exact fun _ enough => absurd enough (Nat.not_lt_zero _)
  | succ fuel ih =>
    intro node enough
    rw [longestWith]
    have own : (if m.spellings.contains node.reverse then node.length else 0) =
        if m.IsSpelling node then node.length else 0 := by simp
    rw [own]
    by_cases root : node = []
    · -- The root has no link, and only the empty text ends there.
      rw [(m.fail_spec node).1 root]
      subst root
      by_cases known : m.IsSpelling []
      · exact .inl ⟨[], LongestPrefix.self known, by simp⟩
      · refine .inr ⟨fun y leads => ?_, by simp⟩
        rw [List.prefix_nil.mp leads]
        exact known
    · obtain ⟨shorter, found, proper⟩ := (m.fail_spec node).2 root
      have less := proper.shorter
      have inherited := ih shorter (by omega)
      rw [found]
      simp only
      by_cases known : m.IsSpelling node
      · refine .inl ⟨node, LongestPrefix.self known, ?_⟩
        rw [if_pos known]
        rcases inherited with ⟨x, longest, is⟩ | ⟨_, is⟩
        · have bound := longest.leads.length_le
          omega
        · omega
      · rw [if_neg known, Nat.zero_max]
        have stronger : ∀ z, m.IsSpelling z → m.InTrie z := fun _ => InTrie.of_spelling
        rcases inherited with ⟨x, longest, is⟩ | ⟨none, is⟩
        · exact .inl ⟨x, proper.of_not_whole stronger known longest, is⟩
        · exact .inr ⟨proper.noPrefix_of_not_whole stronger known none, is⟩

/-! ### The state after a text -/

theorem advanceWith_spec (char : Nat) (fuel : Nat) : ∀ node : Node, node.length < fuel →
    (∃ y, m.advanceWith char fuel node = char :: y ∧ LongestPrefix (m.GoesOn char) node y) ∨
      (m.advanceWith char fuel node = [] ∧ NoPrefix (m.GoesOn char) node) := by
  induction fuel with
  | zero => exact fun _ enough => absurd enough (Nat.not_lt_zero _)
  | succ fuel ih =>
    intro node enough
    rw [advanceWith]
    by_cases child : m.hasChild node char = true
    · rw [if_pos child]
      exact .inl ⟨node, rfl, LongestPrefix.self ((m.hasChild_iff node char).mp child)⟩
    · rw [if_neg child]
      have stuck : ¬ m.GoesOn char node := fun on => child ((m.hasChild_iff node char).mpr on)
      by_cases root : node = []
      · rw [if_pos root]
        refine .inr ⟨rfl, fun y leads => ?_⟩
        rw [root] at leads stuck
        rw [List.prefix_nil.mp leads]
        exact stuck
      · obtain ⟨shorter, found, proper⟩ := (m.fail_spec node).2 root
        have less := proper.shorter
        rw [if_neg root, found, Option.getD_some]
        have tail : ∀ z, m.GoesOn char z → m.InTrie z := fun _ => InTrie.tail
        rcases ih shorter (by omega) with ⟨y, on, longest⟩ | ⟨off, none⟩
        · exact .inl ⟨y, on, proper.of_not_whole tail stuck longest⟩
        · exact .inr ⟨off, proper.noPrefix_of_not_whole tail stuck none⟩

theorem advance_spec {read : CodeUnits} {node : Node} (char : Nat)
    (state : LongestPrefix m.InTrie read node) :
    LongestPrefix m.InTrie (char :: read) (m.advance char node) := by
  have tail : ∀ z, m.GoesOn char z → m.InTrie z := fun _ => InTrie.tail
  rcases m.advanceWith_spec char (node.length + 1) node (Nat.lt_succ_self _) with
    ⟨y, on, longest⟩ | ⟨off, none⟩
  · rw [advance, on]
    exact (state.of_stronger tail longest).cons
  · rw [advance, off]
    exact LongestPrefix.cons_nil (state.noPrefix_of_stronger tail none) m.inTrie_nil

/-! ### Places -/

def Covers (spans : List EnvironmentSpan) (place : Nat) : Prop :=
  ∃ s ∈ spans, s.start ≤ place ∧ place < s.stop

/-- The place lies in a spelling that ends where `read` does, which is newest first. -/
def EndsOver (read : CodeUnits) (place : Nat) : Prop :=
  ∃ spelling ∈ m.spellings, spelling.reverse <+: read ∧
    read.length - spelling.length ≤ place ∧ place < read.length

theorem endsOver_iff {read : CodeUnits} {node : Node} (state : LongestPrefix m.InTrie read node)
    (place : Nat) : m.EndsOver read place ↔
      m.longest node ≠ 0 ∧ read.length - m.longest node ≤ place ∧ place < read.length := by
  -- The spellings that end here are ends of the state.
  have ends : ∀ spelling ∈ m.spellings, spelling.reverse <+: read ↔ spelling.reverse <+: node := by
    intro spelling known
    exact state.prefix_iff (InTrie.of_spelling (by rwa [List.reverse_reverse]))
  have spec := m.longestWith_spec (node.length + 1) node (Nat.lt_succ_self _)
  rw [← longest] at spec
  constructor
  · rintro ⟨spelling, known, ending, after, before⟩
    have inside := (ends spelling known).mp ending
    have isSpelling : m.IsSpelling spelling.reverse := by
      rw [IsSpelling, List.reverse_reverse]
      exact known
    rcases spec with ⟨x, longest, is⟩ | ⟨none, _⟩
    · have bound := longest.longest spelling.reverse inside isSpelling
      rw [List.length_reverse] at bound
      refine ⟨?_, ?_, before⟩ <;> omega
    · exact absurd isSpelling (none _ inside)
  · rintro ⟨some, after, before⟩
    rcases spec with ⟨x, longest, is⟩ | ⟨_, zero⟩
    · refine ⟨x.reverse, longest.holds, ?_, ?_, before⟩
      · rw [List.reverse_reverse]
        exact longest.leads.trans state.leads
      · rw [List.length_reverse, ← is]
        exact after
    · exact absurd zero some

theorem covers_push (spans : List EnvironmentSpan) (place : Nat) : ∀ start stop, start < stop →
    Stacked spans → (∀ s ∈ spans, s.stop ≤ stop) →
    (Covers (push start stop spans) place ↔
      (start ≤ place ∧ place < stop) ∨ Covers spans place) := by
  induction spans with
  | nil =>
    intro start stop _ _ _
    simp [push, Covers]
  | cons previous rest ih =>
    intro start stop some stacked bounded
    have previousSome := stacked.2 previous List.mem_cons_self
    have previousBounded := bounded previous List.mem_cons_self
    have both : Covers (previous :: rest) place ↔
        (previous.start ≤ place ∧ place < previous.stop) ∨ Covers rest place := by
      simp [Covers]
    rw [push]
    split
    · simp [Covers]
    · next reaches =>
      rw [ih (min start previous.start) stop (by omega)
        ⟨(List.pairwise_cons.mp stacked.1).2, fun s member => stacked.2 s (by simp [member])⟩
        fun s member => bounded s (List.mem_cons_of_mem previous member), both, ← or_assoc]
      -- The two overlap, so that one span over both covers nothing else.
      have union : (min start previous.start ≤ place ∧ place < stop) ↔
          (start ≤ place ∧ place < stop) ∨ (previous.start ≤ place ∧ place < previous.stop) := by
        omega
      rw [union]

theorem covers_scan (rest : CodeUnits) (place : Nat) : ∀ read node spans,
    LongestPrefix m.InTrie read node → Stacked spans → (∀ s ∈ spans, s.stop ≤ read.length) →
    (Covers (m.scan read.length node spans rest) place ↔ Covers spans place ∨
      ∃ n, n < rest.length ∧ m.EndsOver ((rest.take (n + 1)).reverse ++ read) place) := by
  induction rest with
  | nil =>
    intro read node spans _ _ _
    simp [scan, Covers]
  | cons char rest ih =>
    intro read node spans state stacked bounded
    have next := m.advance_spec char state
    have wider : ∀ s ∈ spans, s.stop ≤ read.length + 1 := fun s member => by
      have bound := bounded s member
      omega
    have here := m.endsOver_iff next place
    rw [List.length_cons] at here
    -- A spelling ends at this code unit or at a later one.
    have split : (∃ n, n < (char :: rest).length ∧
        m.EndsOver (((char :: rest).take (n + 1)).reverse ++ read) place) ↔
        m.EndsOver (char :: read) place ∨ ∃ n, n < rest.length ∧
          m.EndsOver ((rest.take (n + 1)).reverse ++ char :: read) place := by
      constructor
      · rintro ⟨n, short, ended⟩
        cases n with
        | zero => exact .inl (by simpa using ended)
        | succ n => exact .inr ⟨n, by simpa using short, by simpa using ended⟩
      · rintro (ended | ⟨n, short, ended⟩)
        · exact ⟨0, by simp, by simpa using ended⟩
        · exact ⟨n + 1, by simpa using short, by simpa using ended⟩
    rw [split, scan]
    split
    · next zero =>
      have step := ih (char :: read) (m.advance char node) spans next stacked
        (by simpa using wider)
      rw [List.length_cons] at step
      have nothing : ¬ m.EndsOver (char :: read) place := fun ended => (here.mp ended).1 zero
      rw [step, or_iff_right nothing]
    · next positive =>
      have pushed := push_stacked spans (read.length + 1 - m.longest (m.advance char node))
        (read.length + 1) (by omega) stacked wider
      have step := ih (char :: read) (m.advance char node) _ next pushed.1
        (by simpa using pushed.2)
      rw [List.length_cons] at step
      rw [step, covers_push spans place _ _ (by omega) stacked wider, here,
        and_iff_right positive, or_assoc, or_left_comm]

theorem covers_spans (text : CodeUnits) (place : Nat) :
    Covers (m.spans text) place ↔ ∃ spelling ∈ m.spellings, ∃ start, spelling <+: text.drop start ∧
      start ≤ place ∧ place < start + spelling.length := by
  have scanned := m.covers_scan text place [] [] [] (LongestPrefix.self m.inTrie_nil)
    ⟨List.Pairwise.nil, by simp⟩ (by simp)
  have whole : Covers (m.spans text) place ↔
      ∃ n, n < text.length ∧ m.EndsOver (text.take (n + 1)).reverse place := by
    rw [spans]
    split
    · next none =>
      have empty : m.spellings = [] := List.isEmpty_iff.mp none
      simp [Covers, EndsOver, empty]
    · simpa [Covers] using scanned
  rw [whole]
  constructor
  · rintro ⟨n, short, spelling, known, ending, after, before⟩
    rw [List.reverse_prefix] at ending
    obtain ⟨front, split⟩ := ending
    have lengths := congrArg List.length split
    simp only [List.length_append, List.length_take, List.length_reverse] at lengths after before
    refine ⟨spelling, known, front.length, ?_, by omega, by omega⟩
    have text_eq : text = front ++ (spelling ++ text.drop (n + 1)) := by
      rw [← List.append_assoc, split, List.take_append_drop]
    rw [text_eq, List.drop_left]
    exact List.prefix_append spelling _
  · rintro ⟨spelling, known, start, occurs, after, before⟩
    have fits := occurs.length_le
    rw [List.length_drop] at fits
    refine ⟨start + spelling.length - 1, by omega, spelling, known, ?_, ?_, ?_⟩
    · have stop : start + spelling.length - 1 + 1 = start + spelling.length := by omega
      have ending : text.take (start + spelling.length) = text.take start ++ spelling := by
        rw [List.take_add, ← List.prefix_iff_eq_take.mp occurs]
      rw [stop, List.reverse_prefix, ending]
      exact List.suffix_append _ _
    · simp only [List.length_reverse, List.length_take]
      omega
    · simp only [List.length_reverse, List.length_take]
      omega

theorem stop_le_length (rest : CodeUnits) : ∀ i node spans, (∀ s ∈ spans, s.stop ≤ i) →
    Stacked spans → ∀ s ∈ m.scan i node spans rest, s.stop ≤ i + rest.length := by
  induction rest with
  | nil =>
    intro i node spans bounded _ s member
    exact bounded s (by simpa [scan] using member)
  | cons char rest ih =>
    intro i node spans bounded stacked s member
    have wider : ∀ s ∈ spans, s.stop ≤ i + 1 := fun s member => by
      have bound := bounded s member
      omega
    rw [scan] at member
    rw [List.length_cons]
    split at member
    · have bound := ih _ _ _ wider stacked s member
      omega
    · next positive =>
      have pushed := push_stacked spans (i + 1 - m.longest (m.advance char node)) (i + 1)
        (by omega) stacked wider
      have bound := ih _ _ _ pushed.2 pushed.1 s member
      omega

theorem spans_apart (text : CodeUnits) :
    (m.spans text).Pairwise (fun s t => s.stop ≤ t.start) ∧
      ∀ s ∈ m.spans text, s.start < s.stop ∧ s.stop ≤ text.length := by
  rw [spans]
  split
  · exact ⟨List.Pairwise.nil, by simp⟩
  · have stacked := m.scan_stacked text 0 [] [] ⟨List.Pairwise.nil, by simp⟩ (by simp)
    refine ⟨List.pairwise_reverse.mp stacked.1, fun s member => ⟨?_, ?_⟩⟩
    · exact stacked.2 s (List.mem_reverse.mpr member)
    · have inside := m.stop_le_length text 0 [] [] (by simp) ⟨List.Pairwise.nil, by simp⟩ s member
      omega

end EnvironmentMatcher

/-- **The matcher covers exactly the configured values.** The spans are in order, apart from
each other and inside the text, and a place lies in one iff it lies in an occurrence of a
value, or of a value as JSON spells it. -/
theorem environmentSpans_exact (values : List CodeUnits) (text : CodeUnits) :
    ((createEnvironmentMatcher values).spans text).Pairwise (fun s t => s.stop ≤ t.start) ∧
    (∀ s ∈ (createEnvironmentMatcher values).spans text, s.start < s.stop ∧ s.stop ≤ text.length) ∧
    ∀ place, (∃ s ∈ (createEnvironmentMatcher values).spans text, s.start ≤ place ∧ place < s.stop) ↔
      ∃ value ∈ values, value ≠ [] ∧ ∃ spelling ∈ [value, UnitJson.escapeText value],
        ∃ start, spelling <+: text.drop start ∧ start ≤ place ∧ place < start + spelling.length := by
  obtain ⟨apart, inside⟩ := (createEnvironmentMatcher values).spans_apart text
  refine ⟨apart, inside, fun place => ?_⟩
  have covered := (createEnvironmentMatcher values).covers_spans text place
  rw [EnvironmentMatcher.Covers] at covered
  rw [covered]
  constructor
  · rintro ⟨spelling, known, occurs⟩
    rw [createEnvironmentMatcher, List.mem_filter, List.mem_flatMap] at known
    obtain ⟨⟨value, configured, spelled⟩, some⟩ := known
    refine ⟨value, configured, ?_, spelling, spelled, occurs⟩
    -- The empty value has no spelling but itself.
    rintro rfl
    simp [UnitJson.escapeText] at spelled
    simp [spelled] at some
  · rintro ⟨value, configured, _, spelling, spelled, start, occurs, after, before⟩
    refine ⟨spelling, ?_, start, occurs, after, before⟩
    rw [createEnvironmentMatcher, List.mem_filter, List.mem_flatMap]
    refine ⟨⟨value, configured, spelled⟩, ?_⟩
    cases spelling with
    | nil => simp at before; omega
    | cons _ _ => rfl

end Ace.Redaction
