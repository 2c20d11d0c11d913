import Ace.Script.Pattern

/-!
# Matches of a pattern

Where the matches of a pattern lie: in order, apart from each other and inside the text. Where
a pattern matches at all, some match covers the place; over an alphabet that a pattern cannot
match without leaving, there is no match.
-/

namespace Script

namespace Pattern

/-! ### What a match consumes -/

theorem many_suffix (step : Cursor → List Cursor)
    (suffix : ∀ c, ∀ d ∈ step c, d.rest <:+ c.rest) :
    ∀ n c, ∀ d ∈ many step n c, d.rest <:+ c.rest
  | 0, c, d, member => by
    rw [many, List.mem_singleton] at member
    cases member
    exact List.suffix_refl _
  | n + 1, c, d, member => by
    rw [many, List.mem_append, List.mem_singleton, List.mem_flatMap] at member
    rcases member with ⟨e, one, more⟩ | rfl
    · have first := suffix c e (List.mem_filter.mp one).1
      exact (many_suffix step suffix n e d more).trans first
    · exact List.suffix_refl _

theorem run_suffix (p : Pattern) : ∀ c, ∀ d ∈ p.run c, d.rest <:+ c.rest := by
  induction p with
  | empty =>
    intro c d member
    rw [run, List.mem_singleton] at member
    cases member
    exact List.suffix_refl _
  | unit accepts =>
    intro c d member
    rw [run] at member
    split at member
    · exact absurd member List.not_mem_nil
    · next u rest whole =>
      split at member
      · rw [List.mem_singleton.mp member, whole]
        exact List.suffix_cons u rest
      · exact absurd member List.not_mem_nil
  | boundary =>
    intro c d member
    rw [run] at member
    split at member
    · obtain rfl := List.mem_singleton.mp member
      exact List.suffix_refl _
    · exact absurd member List.not_mem_nil
  | notAfter accepts =>
    intro c d member
    rw [run] at member
    split at member
    · exact absurd member List.not_mem_nil
    · obtain rfl := List.mem_singleton.mp member
      exact List.suffix_refl _
  | ending =>
    intro c d member
    rw [run] at member
    split at member
    · obtain rfl := List.mem_singleton.mp member
      exact List.suffix_refl _
    · exact absurd member List.not_mem_nil
  | seq first second ihFirst ihSecond =>
    intro c d member
    rw [run, List.mem_flatMap] at member
    obtain ⟨e, one, two⟩ := member
    exact (ihSecond e d two).trans (ihFirst c e one)
  | alt first second ihFirst ihSecond =>
    intro c d member
    rw [run, List.mem_append] at member
    exact member.elim (ihFirst c d) (ihSecond c d)
  | star body ih =>
    intro c d member
    rw [run] at member
    exact many_suffix _ ih _ _ _ member

/-- Every match of the pattern takes a code unit. -/
def consumes : Pattern → Bool
  | unit _ => true
  | seq first second => consumes first || consumes second
  | alt first second => consumes first && consumes second
  | _ => false

theorem run_shorter (p : Pattern) (takes : p.consumes = true) : ∀ c, ∀ d ∈ p.run c,
    d.rest.length < c.rest.length := by
  induction p with
  | unit accepts =>
    intro c d member
    rw [run] at member
    split at member
    · exact absurd member List.not_mem_nil
    · next u rest whole =>
      split at member
      · rw [List.mem_singleton.mp member, whole]
        exact Nat.lt_succ_self _
      · exact absurd member List.not_mem_nil
  | seq first second ihFirst ihSecond =>
    intro c d member
    rw [consumes, Bool.or_eq_true] at takes
    rw [run, List.mem_flatMap] at member
    obtain ⟨e, one, two⟩ := member
    have front := (run_suffix first c e one).length_le
    have back := (run_suffix second e d two).length_le
    rcases takes with inFirst | inSecond
    · have less := ihFirst inFirst c e one
      omega
    · have less := ihSecond inSecond e d two
      omega
  | alt first second ihFirst ihSecond =>
    intro c d member
    rw [consumes, Bool.and_eq_true] at takes
    rw [run, List.mem_append] at member
    exact member.elim (ihFirst takes.1 c d) (ihSecond takes.2 c d)
  | empty | boundary | notAfter | ending | star => exact absurd takes Bool.false_ne_true

/-! ### The units of a match -/

/-- Every class of the pattern is in a class. -/
def within (accepts : Nat → Bool) : Pattern → Prop
  | unit own => ∀ u, own u = true → accepts u = true
  | seq first second | alt first second => first.within accepts ∧ second.within accepts
  | star body => body.within accepts
  | empty | boundary | notAfter _ | ending => True

/-- What is between two cursors. -/
def Consumes (accepts : Nat → Bool) (c d : Cursor) : Prop :=
  ∃ us, c.rest = us ++ d.rest ∧ ∀ u ∈ us, accepts u = true

theorem Consumes.rfl {accepts : Nat → Bool} {c : Cursor} : Consumes accepts c c :=
  ⟨[], Eq.refl _, fun _ member => absurd member List.not_mem_nil⟩

theorem Consumes.trans {accepts : Nat → Bool} {c d e : Cursor} (first : Consumes accepts c d)
    (second : Consumes accepts d e) : Consumes accepts c e := by
  obtain ⟨us, front, inFront⟩ := first
  obtain ⟨vs, back, inBack⟩ := second
  refine ⟨us ++ vs, by rw [front, back, List.append_assoc], fun u member => ?_⟩
  exact (List.mem_append.mp member).elim (inFront u) (inBack u)

theorem many_consumes {accepts : Nat → Bool} (step : Cursor → List Cursor)
    (consumed : ∀ c, ∀ d ∈ step c, Consumes accepts c d) :
    ∀ n c, ∀ d ∈ many step n c, Consumes accepts c d
  | 0, c, d, member => by
    rw [many, List.mem_singleton] at member
    cases member
    exact .rfl
  | n + 1, c, d, member => by
    rw [many, List.mem_append, List.mem_singleton, List.mem_flatMap] at member
    rcases member with ⟨e, one, more⟩ | rfl
    · exact (consumed c e (List.mem_filter.mp one).1).trans (many_consumes step consumed n e d more)
    · exact .rfl

theorem run_consumes {accepts : Nat → Bool} (p : Pattern) (inside : p.within accepts) :
    ∀ c, ∀ d ∈ p.run c, Consumes accepts c d := by
  induction p with
  | empty =>
    intro c d member
    cases List.mem_singleton.mp member
    exact .rfl
  | unit own =>
    intro c d member
    rw [run] at member
    split at member
    · exact absurd member List.not_mem_nil
    next u rest whole =>
      split at member
      next isOwn =>
        cases List.mem_singleton.mp member
        refine ⟨[u], whole, fun v isU => ?_⟩
        rw [List.mem_singleton.mp isU]
        exact inside u isOwn
      · exact absurd member List.not_mem_nil
  | boundary | ending =>
    intro c d member
    rw [run] at member
    split at member
    · cases List.mem_singleton.mp member
      exact .rfl
    · exact absurd member List.not_mem_nil
  | notAfter own =>
    intro c d member
    rw [run] at member
    split at member
    · exact absurd member List.not_mem_nil
    · cases List.mem_singleton.mp member
      exact .rfl
  | seq first second ihFirst ihSecond =>
    intro c d member
    rw [run, List.mem_flatMap] at member
    obtain ⟨e, one, two⟩ := member
    exact (ihFirst inside.1 c e one).trans (ihSecond inside.2 e d two)
  | alt first second ihFirst ihSecond =>
    intro c d member
    rw [run, List.mem_append] at member
    exact member.elim (ihFirst inside.1 c d) (ihSecond inside.2 c d)
  | star body ih =>
    intro c d member
    rw [run] at member
    exact many_consumes _ (ih inside) _ _ _ member

/-! ### Literal text -/

/-- The end of a text in front of the cursor. -/
def past (c : Cursor) (us rest : CodeUnits) : Cursor :=
  { before := us.getLast?.or c.before, rest }

theorem run_text (us : CodeUnits) : ∀ before rest,
    (text us).run { before, rest := us ++ rest } =
      [past { before, rest := us ++ rest } us rest] := by
  induction us with
  | nil =>
    intro before rest
    rfl
  | cons u us ih =>
    intro before rest
    have one : (unit (· == u)).run { before, rest := u :: us ++ rest } =
        [{ before := some u, rest := us ++ rest }] := by
      simp [run]
    rw [text, run, one, List.flatMap_cons, List.flatMap_nil, List.append_nil, ih]
    cases us with
    | nil => rfl
    | cons v us => simp [past, List.getLast?_cons]

/-! ### Alphabets -/

/-- No match of the pattern stays in the alphabet. -/
def leaves (alphabet : CodeUnits) : Pattern → Bool
  | unit accepts => alphabet.all fun u => !accepts u
  | seq first second => leaves alphabet first || leaves alphabet second
  | alt first second => leaves alphabet first && leaves alphabet second
  | _ => false

theorem run_eq_nil_of_leaves (alphabet : CodeUnits) (p : Pattern) (out : p.leaves alphabet = true) :
    ∀ c : Cursor, (∀ u ∈ c.rest, u ∈ alphabet) → p.run c = [] := by
  induction p with
  | unit accepts =>
    intro c inside
    rw [leaves, List.all_eq_true] at out
    rw [run]
    split
    · rfl
    · next u rest whole =>
      have refused := out u (inside u (whole ▸ List.mem_cons_self))
      rw [Bool.not_eq_true'] at refused
      rw [if_neg (by rw [refused]; exact Bool.false_ne_true)]
  | seq first second ihFirst ihSecond =>
    intro c inside
    rw [leaves, Bool.or_eq_true] at out
    rw [run]
    rcases out with one | two
    · rw [ihFirst one c inside, List.flatMap_nil]
    · rw [List.flatMap_eq_nil_iff]
      intro d member
      apply ihSecond two d
      exact fun u inRest => inside u ((run_suffix first c d member).subset inRest)
  | alt first second ihFirst ihSecond =>
    intro c inside
    rw [leaves, Bool.and_eq_true] at out
    rw [run, ihFirst out.1 c inside, ihSecond out.2 c inside, List.append_nil]
  | empty | boundary | notAfter | ending | star => exact absurd out Bool.false_ne_true

end Pattern

namespace Rule

variable (r : Rule)

/-! ### One match -/

theorem matchAt_bounds {index : Nat} {c : Cursor} {m : Match}
    (found : r.matchAt index c = some m) :
    m.index = index ∧ index ≤ m.start ∧ m.start ≤ m.finish ∧ m.finish ≤ m.stop ∧
      m.stop ≤ index + c.rest.length := by
  have member := List.mem_of_head? found
  simp only [List.mem_flatMap, List.mem_map] at member
  obtain ⟨start, inLead, finish, inBody, stop, inTrail, rfl⟩ := member
  have lead := (r.lead.run_suffix c start inLead).length_le
  have body := (r.body.run_suffix start finish inBody).length_le
  have trail := (r.trail.run_suffix finish stop inTrail).length_le
  refine ⟨rfl, ?_, ?_, ?_, ?_⟩ <;> simp only <;> omega

theorem matchAt_nonempty (takes : r.body.consumes = true) {index : Nat} {c : Cursor} {m : Match}
    (found : r.matchAt index c = some m) : m.start < m.finish := by
  have member := List.mem_of_head? found
  simp only [List.mem_flatMap, List.mem_map] at member
  obtain ⟨start, inLead, finish, inBody, stop, inTrail, rfl⟩ := member
  have lead := (r.lead.run_suffix c start inLead).length_le
  have body := r.body.run_shorter takes start finish inBody
  simp only
  omega

/-- No match of the rule stays in the alphabet. -/
def leaves (alphabet : CodeUnits) : Bool :=
  r.lead.leaves alphabet || r.body.leaves alphabet || r.trail.leaves alphabet

theorem matchAt_eq_none (alphabet : CodeUnits)
    (out : r.leaves alphabet = true) (index : Nat) (c : Cursor) (inside : ∀ u ∈ c.rest, u ∈ alphabet) :
    r.matchAt index c = none := by
  rw [matchAt, List.head?_eq_none_iff, List.flatMap_eq_nil_iff]
  intro start inLead
  rw [List.flatMap_eq_nil_iff]
  intro finish inBody
  rw [List.map_eq_nil_iff]
  have fromStart : ∀ u ∈ start.rest, u ∈ alphabet :=
    fun u member => inside u ((r.lead.run_suffix c start inLead).subset member)
  have fromFinish : ∀ u ∈ finish.rest, u ∈ alphabet :=
    fun u member => fromStart u ((r.body.run_suffix start finish inBody).subset member)
  rw [leaves, Bool.or_eq_true, Bool.or_eq_true] at out
  rcases out with (one | two) | three
  · rw [r.lead.run_eq_nil_of_leaves alphabet one c inside] at inLead
    exact absurd inLead List.not_mem_nil
  · rw [r.body.run_eq_nil_of_leaves alphabet two start fromStart] at inBody
    exact absurd inBody List.not_mem_nil
  · exact r.trail.run_eq_nil_of_leaves alphabet three finish fromFinish

/-! ### All matches -/

theorem matchesFrom_bounds (rest : CodeUnits) : ∀ index before resume,
    ∀ m ∈ r.matchesFrom index before rest resume,
      resume ≤ m.index ∧ index ≤ m.index ∧ m.index ≤ m.start ∧ m.start ≤ m.finish ∧
        m.finish ≤ m.stop ∧ m.stop ≤ index + rest.length := by
  induction rest with
  | nil =>
    intro index before resume m member
    rw [matchesFrom] at member
    split at member
    · next due =>
      have bounds := r.matchAt_bounds (Option.mem_toList.mp member)
      simp only [List.length_nil] at bounds ⊢
      omega
    · exact absurd member List.not_mem_nil
  | cons u rest ih =>
    intro index before resume m member
    rw [matchesFrom] at member
    split at member
    · next due =>
      split at member
      · next first found =>
        rcases List.mem_cons.mp member with rfl | later
        · have bounds := r.matchAt_bounds found
          simp only [List.length_cons] at bounds ⊢
          omega
        · have bounds := ih _ _ _ m later
          simp only [List.length_cons]
          omega
      · have bounds := ih _ _ _ m member
        simp only [List.length_cons]
        omega
    · have bounds := ih _ _ _ m member
      simp only [List.length_cons]
      omega

theorem exists_matchAt (rest : CodeUnits) : ∀ index before resume,
    ∀ m ∈ r.matchesFrom index before rest resume, ∃ i c, r.matchAt i c = some m := by
  induction rest with
  | nil =>
    intro index before resume m member
    rw [matchesFrom] at member
    split at member
    · exact ⟨_, _, Option.mem_toList.mp member⟩
    · exact absurd member List.not_mem_nil
  | cons u rest ih =>
    intro index before resume m member
    rw [matchesFrom] at member
    split at member
    · split at member
      · next first found =>
        rcases List.mem_cons.mp member with rfl | later
        · exact ⟨_, _, found⟩
        · exact ih _ _ _ m later
      · exact ih _ _ _ m member
    · exact ih _ _ _ m member

theorem matchesFrom_pairwise (rest : CodeUnits) : ∀ index before resume,
    (r.matchesFrom index before rest resume).Pairwise fun m n => m.stop ≤ n.index := by
  induction rest with
  | nil =>
    intro index before resume
    rw [matchesFrom]
    split
    · cases r.matchAt index { before, rest := [] } <;> simp
    · exact List.Pairwise.nil
  | cons u rest ih =>
    intro index before resume
    rw [matchesFrom]
    split
    · split
      · next first found =>
        refine List.Pairwise.cons (fun later member => ?_) (ih _ _ _)
        have bounds := r.matchesFrom_bounds rest _ _ _ later member
        omega
      · exact ih _ _ _
    · exact ih _ _ _

theorem matchesFrom_covers (front rest : CodeUnits) (m : Match) : ∀ index before resume,
    resume ≤ index + front.length →
    r.matchAt (index + front.length) { before := front.getLast?.or before, rest } = some m →
    index + front.length < m.stop →
    ∃ n ∈ r.matchesFrom index before (front ++ rest) resume,
      n.index ≤ index + front.length ∧ index + front.length < n.stop := by
  induction front with
  | nil =>
    intro index before resume due found nonempty
    simp only [List.length_nil, Nat.add_zero, List.getLast?_nil, Option.none_or,
      List.nil_append] at due found nonempty ⊢
    have bounds := r.matchAt_bounds found
    refine ⟨m, ?_, by omega, nonempty⟩
    cases rest with
    | nil =>
      rw [matchesFrom, if_pos due, found]
      exact List.mem_singleton_self m
    | cons u rest =>
      rw [matchesFrom, if_pos due]
      simp only [found]
      exact List.mem_cons_self
  | cons u front ih =>
    intro index before resume due found nonempty
    have shift : index + (u :: front).length = index + 1 + front.length := by
      rw [List.length_cons]
      omega
    have last : (u :: front).getLast?.or before = front.getLast?.or (some u) := by
      rw [List.getLast?_cons]
      cases front.getLast? <;> rfl
    rw [shift] at due nonempty ⊢
    rw [shift, last] at found
    rw [List.cons_append, matchesFrom]
    split
    · next now =>
      split
      · next first foundFirst =>
        have bounds := r.matchAt_bounds foundFirst
        by_cases covered : index + 1 + front.length < first.stop
        · exact ⟨first, List.mem_cons_self, by omega, covered⟩
        · obtain ⟨n, member, covers⟩ := ih (index + 1) (some u) (max first.stop (index + 1))
            (by omega) found nonempty
          exact ⟨n, List.mem_cons_of_mem _ member, covers⟩
      · exact ih (index + 1) (some u) resume due found nonempty
    · exact ih (index + 1) (some u) resume due found nonempty

theorem matchesFrom_eq_nil (alphabet : CodeUnits)
    (out : r.leaves alphabet = true) (rest : CodeUnits) (inside : ∀ u ∈ rest, u ∈ alphabet) : ∀ index before resume,
    r.matchesFrom index before rest resume = [] := by
  induction rest with
  | nil =>
    intro index before resume
    rw [matchesFrom, r.matchAt_eq_none alphabet out index _ (by simp)]
    exact ite_self _
  | cons u rest ih =>
    intro index before resume
    have later := ih fun v member => inside v (List.mem_cons_of_mem u member)
    rw [matchesFrom, r.matchAt_eq_none alphabet out index _ inside]
    simp only [later, ite_self]

/-! ### Matches of a text -/

theorem allMatches_bounds (text : CodeUnits) : ∀ m ∈ r.allMatches text,
    m.index ≤ m.start ∧ m.start ≤ m.finish ∧ m.finish ≤ m.stop ∧ m.stop ≤ text.length := by
  intro m member
  have bounds := r.matchesFrom_bounds text _ _ _ m member
  omega

theorem allMatches_nonempty (takes : r.body.consumes = true) (text : CodeUnits) :
    ∀ m ∈ r.allMatches text, m.start < m.finish := by
  intro m member
  obtain ⟨i, c, found⟩ := r.exists_matchAt text _ _ _ m member
  exact r.matchAt_nonempty takes found

theorem allMatches_pairwise (text : CodeUnits) :
    (r.allMatches text).Pairwise fun m n => m.stop ≤ n.index :=
  r.matchesFrom_pairwise text _ _ _

theorem allMatches_whole (lead : r.lead = .empty) (trail : r.trail = .empty) (text : CodeUnits) :
    ∀ m ∈ r.allMatches text, m.start = m.index ∧ m.finish = m.stop := by
  intro m member
  obtain ⟨i, c, found⟩ := r.exists_matchAt text _ _ _ m member
  have one := List.mem_of_head? found
  simp only [lead, trail, Pattern.run, List.mem_flatMap, List.mem_map, List.mem_singleton] at one
  obtain ⟨start, rfl, finish, _, stop, rfl, rfl⟩ := one
  exact ⟨by simp, rfl⟩

theorem allMatches_covers (front rest : CodeUnits) (m : Match)
    (found : r.matchAt front.length { before := front.getLast?, rest } = some m)
    (nonempty : front.length < m.stop) :
    ∃ n ∈ r.allMatches (front ++ rest), n.index ≤ front.length ∧ front.length < n.stop := by
  have covers := r.matchesFrom_covers front rest m 0 none 0
  simp only [Nat.zero_add, Option.or_none] at covers
  exact covers (Nat.zero_le _) found nonempty

theorem allMatches_eq_nil (alphabet : CodeUnits)
    (out : r.leaves alphabet = true) (text : CodeUnits) (inside : ∀ u ∈ text, u ∈ alphabet) : r.allMatches text = [] :=
  r.matchesFrom_eq_nil alphabet out text inside _ _ _

end Rule

end Script
