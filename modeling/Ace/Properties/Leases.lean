import Ace.Git.MutationLeases

/-!
# Exclusion by mutation leases

Daemons share the journal of a repository. Admission reads the journal, and publication is a
later step: between the two a lease fences nobody.

## Main result

`leases_exclude` and `leases_race`
-/

namespace Ace.Git

/-- Two roots that must not be mutated at once: the same one, or one inside the other where neither
is a linked worktree. -/
def Conflicts (kind : Root → RootKind) (root root' : Root) : Prop :=
  root = root' ∨
    ((within root root' = true ∨ within root' root = true) ∧ kind root ≠ .linked ∧
      kind root' ≠ .linked)

theorem Conflicts.symm {kind : Root → RootKind} {root root' : Root}
    (conflicts : Conflicts kind root root') : Conflicts kind root' root := by
  rcases conflicts with rfl | ⟨inside, first, second⟩
  · exact .inl rfl
  · exact .inr ⟨inside.symm, second, first⟩

theorem within_refl (root : Root) : within root root = true :=
  List.isPrefixOf_iff_prefix.mpr (List.prefix_refl root)

theorem fences_of_conflicts {kind : Root → RootKind} {facts : LeaseFacts} {root path : Root}
    (roots : facts.record.roots = [root]) (kinds : facts.roots = [kind root])
    (foreign : facts.owner ≠ .running) (conflicts : Conflicts kind root path) :
    fences facts path = true := by
  have touches : overlaps root (some (kind root)) path = true := by
    unfold overlaps
    rcases conflicts with rfl | ⟨inside, unlinked, -⟩
    · simp [within_refl]
    · simpa [unlinked] using inside
  unfold fences
  rw [if_neg foreign, roots, kinds]
  split
  · simpa using touches
  · simp [touches]

/-! ### What holds along a run -/

/-- The call has been admitted and is not over. -/
def LeasePhase.isAdmitted : LeasePhase → Bool
  | .admitted | .staged | .published | .running => true
  | _ => false

def LeasePhase.isPublished : LeasePhase → Bool
  | .published | .running => true
  | _ => false

structure Excluded (kind : Root → RootKind) (s : Daemons) : Prop where
  journaled : ∀ (i : Nat) (call : LeaseCall), s.calls[i]? = some call →
    call.phase.isPublished = true → call.record ∈ s.journal
  apart : ∀ (i j : Nat) (call call' : LeaseCall), s.calls[i]? = some call →
    s.calls[j]? = some call' → call.process ≠ call'.process → call.phase.isAdmitted = true →
    call'.phase.isAdmitted = true → ¬Conflicts kind call.root call'.root
  distinct : ∀ (i j : Nat) (call call' : LeaseCall), s.calls[i]? = some call →
    s.calls[j]? = some call' → call.id = call'.id → i = j

section

variable {kind : Root → RootKind} {s s₁ : Daemons} {i : Nat} {call : LeaseCall}

theorem calls_goto (same : s₁.calls = s.calls) (found : s.calls[i]? = some call)
    {phase : LeasePhase} {j : Nat} {call' : LeaseCall}
    (found' : (s₁.goto i phase).calls[j]? = some call') :
    (j ≠ i ∧ s.calls[j]? = some call') ∨ (j = i ∧ call' = { call with phase }) := by
  rw [Daemons.goto, List.getElem?_modify, same] at found'
  by_cases mine : i = j
  · subst mine
    rw [found] at found'
    cases found'
    exact .inr ⟨rfl, by simp⟩
  · refine .inl ⟨Ne.symm mine, ?_⟩
    simpa [mine] using found'

theorem Excluded.goto (excluded : Excluded kind s) (same : s₁.calls = s.calls)
    (found : s.calls[i]? = some call) {phase : LeasePhase}
    (others : ∀ (j : Nat) (call' : LeaseCall), s.calls[j]? = some call' → j ≠ i →
      call'.record ∈ s.journal → call'.record ∈ s₁.journal)
    (own : phase.isPublished = true → call.record ∈ s₁.journal)
    (apart : phase.isAdmitted = true → ∀ (j : Nat) (call' : LeaseCall), s.calls[j]? = some call' →
      call.process ≠ call'.process → call'.phase.isAdmitted = true →
      ¬Conflicts kind call.root call'.root) : Excluded kind (s₁.goto i phase) := by
  refine ⟨?_, ?_, ?_⟩
  · intro j call' found' published
    rcases calls_goto same found found' with ⟨other, old⟩ | ⟨rfl, rfl⟩
    · exact others j call' old other (excluded.journaled j call' old published)
    · exact own published
  · intro j k call₁ call₂ found₁ found₂ foreign admitted₁ admitted₂
    rcases calls_goto same found found₁ with ⟨other₁, old₁⟩ | ⟨rfl, rfl⟩ <;>
      rcases calls_goto same found found₂ with ⟨other₂, old₂⟩ | ⟨rfl, rfl⟩
    · exact excluded.apart j k call₁ call₂ old₁ old₂ foreign admitted₁ admitted₂
    · exact fun conflicts => apart admitted₂ j call₁ old₁ foreign.symm admitted₁ conflicts.symm
    · exact apart admitted₁ k call₂ old₂ foreign admitted₂
    · exact absurd rfl foreign
  · intro j k call₁ call₂ found₁ found₂ same_id
    rcases calls_goto same found found₁ with ⟨-, old₁⟩ | ⟨rfl, rfl⟩ <;>
      rcases calls_goto same found found₂ with ⟨-, old₂⟩ | ⟨rfl, rfl⟩
    · exact excluded.distinct j k call₁ call₂ old₁ old₂ same_id
    · exact excluded.distinct j k call₁ call old₁ found same_id
    · exact excluded.distinct j k call call₂ found old₂ same_id
    · rfl

theorem Excluded.stays (excluded : Excluded kind s) (same : s₁.calls = s.calls)
    (found : s.calls[i]? = some call) (admitted : call.phase.isAdmitted = true)
    {phase : LeasePhase}
    (others : ∀ (j : Nat) (call' : LeaseCall), s.calls[j]? = some call' → j ≠ i →
      call'.record ∈ s.journal → call'.record ∈ s₁.journal)
    (own : phase.isPublished = true → call.record ∈ s₁.journal) :
    Excluded kind (s₁.goto i phase) :=
  excluded.goto same found others own fun _ j call' found' foreign admitted' =>
    excluded.apart i j call call' found found' foreign admitted admitted'

theorem Excluded.refuse (excluded : Excluded kind s) (same : s₁.calls = s.calls)
    (journal : s₁.journal = s.journal) (found : s.calls[i]? = some call) :
    Excluded kind (s₁.goto i .refused) :=
  excluded.goto same found (fun _ _ _ _ member => journal ▸ member)
    (fun published => by cases published) (fun admitted => by cases admitted)

theorem Excluded.isFenced (excluded : Excluded kind s) {j : Nat} {call' : LeaseCall}
    (found' : s.calls[j]? = some call') (foreign : call.process ≠ call'.process)
    (answers : Bool) (conflicts : Conflicts kind call.root call'.root) :
    fences (s.assess kind call.process answers call'.record) call.root = true := by
  have foreign_id : s.owns call.process call'.record.id = false := by
    rw [Daemons.owns, List.any_eq_false]
    intro other member
    obtain ⟨k, found⟩ := List.mem_iff_getElem?.mp member
    simp only [Bool.and_eq_true, decide_eq_true_eq, not_and]
    rintro ⟨mine, same_id⟩ -
    obtain rfl := excluded.distinct k j other call' found found' same_id
    rw [found'] at found
    cases found
    exact foreign mine.symm
  have owner : (s.assess kind call.process answers call'.record).owner ≠ .running := by
    simp only [Daemons.assess, foreign_id, Bool.false_eq_true, if_false]
    split
    · simp
    · split <;> simp
  refine fences_of_conflicts rfl ?_ owner conflicts.symm
  simp only [Daemons.assess] at owner ⊢
  rw [if_neg owner]
  rfl

/-- No call of another daemon is between its admission and its publication on a root that conflicts
with that of a call. -/
def Unraced (kind : Root → RootKind) (s : Daemons) (call : LeaseCall) : Prop :=
  ∀ call' ∈ s.calls, call'.process ≠ call.process →
    call'.phase = .admitted ∨ call'.phase = .staged → ¬Conflicts kind call.root call'.root

theorem Excluded.survey (excluded : Excluded kind s) (found : s.calls[i]? = some call)
    (answers waits : Bool) (unraced : Unraced kind s call) :
    Excluded kind (s.survey kind i call answers waits) := by
  unfold Daemons.survey
  dsimp only
  split
  · exact excluded.refuse rfl rfl found
  split
  next none_fences =>
    refine excluded.goto rfl found (fun _ _ _ _ => id) (fun published => by cases published) ?_
    intro _ j call' found' foreign admitted conflicts
    by_cases published : call'.phase.isPublished = true
    · -- its lease was in the journal that was read
      have listed := excluded.journaled j call' found' published
      have fenced := excluded.isFenced found' foreign answers conflicts
      have assessed := List.mem_map_of_mem (f := s.assess kind call.process answers) listed
      have member : s.assess kind call.process answers call'.record ∈
          (s.journal.map (s.assess kind call.process answers)).filter (fences · call.root) :=
        List.mem_filter.mpr ⟨assessed, fenced⟩
      rw [List.isEmpty_iff.mp none_fences] at member
      cases member
    · refine unraced call' (List.mem_of_getElem? found') foreign.symm ?_ conflicts
      revert admitted published
      cases call'.phase <;> simp [LeasePhase.isAdmitted, LeasePhase.isPublished]
  split
  · exact excluded
  · exact excluded.refuse rfl rfl found

theorem Excluded.stage (excluded : Excluded kind s) (found : s.calls[i]? = some call)
    (at_admitted : call.phase = .admitted) : Excluded kind (s.stage i call) := by
  unfold Daemons.stage
  split
  · exact excluded.refuse rfl rfl found
  · refine excluded.stays ?_ found ?_ ?_ ?_
    · rfl
    · rw [at_admitted]
      rfl
    · exact fun _ _ _ _ => id
    · exact fun published => by cases published

theorem Excluded.publish (excluded : Excluded kind s) (found : s.calls[i]? = some call)
    (at_staged : call.phase = .staged) : Excluded kind (s.publish i call) := by
  unfold Daemons.publish
  dsimp only
  split
  · exact excluded.refuse rfl rfl found
  · refine excluded.stays ?_ found ?_ ?_ ?_
    · rfl
    · rw [at_staged]
      rfl
    · exact fun _ _ _ _ member => List.mem_append_left _ member
    · exact fun _ => List.mem_append_right _ (List.mem_singleton.mpr rfl)

theorem Excluded.finish (excluded : Excluded kind s) (found : s.calls[i]? = some call) :
    Excluded kind (s.finish i call) := by
  unfold Daemons.finish
  refine excluded.goto ?_ found ?_ (fun published => by cases published)
    (fun admitted => by cases admitted)
  · rfl
  intro j call' found' other member
  refine List.mem_filter.mpr ⟨member, ?_⟩
  simp only [decide_eq_true_eq, ne_eq]
  intro same_id
  exact other (excluded.distinct j i call' call found' found same_id)

end

/-! ### Runs -/

/-- A call that surveys the journal is not in a race. -/
def Admits (kind : Root → RootKind) (s : Daemons) : LeaseAction → Prop
  | .survey i .. => ∀ call ∈ s.calls[i]?, Unraced kind s call
  | _ => True

inductive LeaseRun (kind : Root → RootKind) : Daemons → Prop where
  | start : LeaseRun kind {}
  | step {s s' : Daemons} {action : LeaseAction} (before : LeaseRun kind s)
      (steps : s.step kind action = some s') (admits : Admits kind s action) : LeaseRun kind s'

theorem whenAt_eq_some {s s' : Daemons} {i : Nat} {phase : LeasePhase}
    {next : LeaseCall → Daemons} (steps : s.whenAt i phase next = some s') :
    ∃ call, s.calls[i]? = some call ∧ call.phase = phase ∧ next call = s' := by
  obtain ⟨call, found, rest⟩ := Option.bind_eq_some_iff.mp steps
  split at rest
  next at_phase => exact ⟨call, found, at_phase, Option.some.inj rest⟩
  next => cases rest

theorem Excluded.step {kind : Root → RootKind} {s s' : Daemons} (excluded : Excluded kind s)
    {action : LeaseAction} (steps : s.step kind action = some s')
    (admits : Admits kind s action) : Excluded kind s' := by
  cases action with
  | call process id root =>
    rw [Daemons.step] at steps
    split at steps
    · cases steps
    next fresh =>
      cases steps
      have calls_cases : ∀ (i : Nat) (call : LeaseCall),
          (s.calls ++ [({ process, id, root } : LeaseCall)])[i]? = some call →
          s.calls[i]? = some call ∨
            (i = s.calls.length ∧ call = ({ process, id, root } : LeaseCall)) := by
        intro i call found
        rw [List.getElem?_append] at found
        split at found
        · exact .inl found
        next past =>
          rw [List.getElem?_singleton] at found
          split at found
          · cases found
            exact .inr ⟨by omega, rfl⟩
          · cases found
      have unused : ∀ call ∈ s.calls, call.id ≠ id := by simpa using fresh
      refine ⟨?_, ?_, ?_⟩
      · intro i call found published
        rcases calls_cases i call found with old | ⟨-, rfl⟩
        · exact excluded.journaled i call old published
        · cases published
      · intro i j call call' found found' foreign admitted admitted'
        rcases calls_cases i call found with old | ⟨-, rfl⟩
        · rcases calls_cases j call' found' with old' | ⟨-, rfl⟩
          · exact excluded.apart i j call call' old old' foreign admitted admitted'
          · cases admitted'
        · cases admitted
      · intro i j call call' found found' same_id
        rcases calls_cases i call found with old | ⟨rfl, rfl⟩ <;>
          rcases calls_cases j call' found' with old' | ⟨rfl, rfl⟩
        · exact excluded.distinct i j call call' old old' same_id
        · exact absurd same_id (unused call (List.mem_of_getElem? old))
        · exact absurd same_id.symm (unused call' (List.mem_of_getElem? old'))
        · rfl
  | survey i answers waits =>
    obtain ⟨call, found, -, rfl⟩ := whenAt_eq_some steps
    exact excluded.survey found answers waits (admits call found)
  | stage i =>
    obtain ⟨call, found, at_admitted, rfl⟩ := whenAt_eq_some steps
    exact excluded.stage found at_admitted
  | publish i =>
    obtain ⟨call, found, at_staged, rfl⟩ := whenAt_eq_some steps
    exact excluded.publish found at_staged
  | operate i =>
    obtain ⟨call, found, at_published, rfl⟩ := whenAt_eq_some steps
    have published : call.phase.isPublished = true := by rw [at_published]; rfl
    apply excluded.stays rfl found
    · rw [at_published]
      rfl
    · exact fun _ _ _ _ => id
    · exact fun _ => excluded.journaled i call found published
  | finish i =>
    obtain ⟨call, found, -, rfl⟩ := whenAt_eq_some steps
    exact excluded.finish found

theorem LeaseRun.excluded {kind : Root → RootKind} {s : Daemons} (run : LeaseRun kind s) :
    Excluded kind s := by
  induction run with
  | start => exact ⟨by simp, by simp, by simp⟩
  | step _ steps admits ih => exact ih.step steps admits

/-- **Daemons exclude each other, unless admissions race.** In every run in which no call surveys
the journal while a call of another daemon on a conflicting root is between its admission and its
publication, two daemons never run operations on the same root, or on roots one inside the other
that are not linked worktrees. -/
theorem leases_exclude (kind : Root → RootKind) {s : Daemons} (run : LeaseRun kind s)
    {i j : Nat} {call call' : LeaseCall} (found : s.calls[i]? = some call)
    (found' : s.calls[j]? = some call') (foreign : call.process ≠ call'.process)
    (running : call.phase = .running) (running' : call'.phase = .running) :
    ¬Conflicts kind call.root call'.root :=
  run.excluded.apart i j call call' found found' foreign (by rw [running]; rfl)
    (by rw [running']; rfl)

def Daemons.runs (kind : Root → RootKind) (s : Daemons) (actions : List LeaseAction) :
    Option Daemons :=
  actions.foldlM (·.step kind) s

/-- Both daemons read the empty journal before either of them publishes. -/
theorem leases_race :
    (({} : Daemons).runs (fun _ => .other) [.call 0 "a" ["repo"], .call 1 "b" ["repo"],
      .survey 0 true false, .survey 1 true false, .stage 0, .stage 1, .publish 0, .publish 1,
      .operate 0, .operate 1]).map (·.calls) =
      some [{ process := 0, id := "a", root := ["repo"], phase := .running },
        { process := 1, id := "b", root := ["repo"], phase := .running }] := by
  decide +kernel

/-! ### Samples -/

instance (kind : Root → RootKind) (root root' : Root) : Decidable (Conflicts kind root root') :=
  inferInstanceAs (Decidable (_ ∨ _))

instance (kind : Root → RootKind) (s : Daemons) (call : LeaseCall) :
    Decidable (Unraced kind s call) :=
  inferInstanceAs (Decidable (∀ call' ∈ s.calls, _))

instance (kind : Root → RootKind) (s : Daemons) (action : LeaseAction) :
    Decidable (Admits kind s action) :=
  match action with
  | .survey i .. => inferInstanceAs (Decidable (∀ call ∈ s.calls[i]?, Unraced kind s call))
  | .call .. | .stage _ | .publish _ | .operate _ | .finish _ => inferInstanceAs (Decidable True)

def Daemons.runsWell (kind : Root → RootKind) (s : Daemons) : List LeaseAction → Option Daemons
  | [] => some s
  | action :: actions => if Admits kind s action then
      (s.step kind action).bind fun s' => s'.runsWell kind actions
    else none

theorem leaseRun_of_runsWell {kind : Root → RootKind} {s s' : Daemons}
    {actions : List LeaseAction} (before : LeaseRun kind s)
    (runs : s.runsWell kind actions = some s') : LeaseRun kind s' := by
  induction actions generalizing s with
  | nil =>
    cases runs
    exact before
  | cons action actions ih =>
    rw [Daemons.runsWell] at runs
    split at runs
    next admits =>
      obtain ⟨next, steps, rest⟩ := Option.bind_eq_some_iff.mp runs
      exact ih (before.step steps admits) rest
    next => cases runs

def sampleKind (root : Root) : RootKind := if root = ["repo", "tree"] then .linked else .other

/-- Two daemons run at once, one in a linked worktree and one in the checkout around it. -/
theorem leases_exclude_sample :
    ∃ s, ({} : Daemons).runsWell sampleKind [.call 0 "a" ["repo", "tree"], .call 1 "b" ["repo"],
        .survey 0 true false, .stage 0, .publish 0, .operate 0, .survey 1 true false, .stage 1,
        .publish 1, .operate 1] = some s ∧
      s.calls.map (·.phase) = [.running, .running] ∧
      ¬Conflicts sampleKind ["repo", "tree"] ["repo"] := by
  have ends : (({} : Daemons).runsWell sampleKind [.call 0 "a" ["repo", "tree"],
      .call 1 "b" ["repo"], .survey 0 true false, .stage 0, .publish 0, .operate 0,
      .survey 1 true false, .stage 1, .publish 1, .operate 1]).map (·.calls) =
      some [{ process := 0, id := "a", root := ["repo", "tree"], phase := .running },
        { process := 1, id := "b", root := ["repo"], phase := .running }] := by
    decide +kernel
  obtain ⟨s, runs, calls⟩ := Option.map_eq_some_iff.mp ends
  have run : LeaseRun sampleKind s := leaseRun_of_runsWell .start runs
  have apart := @leases_exclude sampleKind s run 0 1 _ _ (by rw [calls]; rfl) (by rw [calls]; rfl)
    (by decide) rfl rfl
  exact ⟨s, runs, by rw [calls]; rfl, apart⟩

end Ace.Git
