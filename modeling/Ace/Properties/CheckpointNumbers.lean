import Ace.Git.Checkpoints

/-!
# Checkpoint numbers under concurrency

Any number of processes create and delete the checkpoints of one thread, each with a cache of the
counter that may be stale, and their Git calls interleave in any order.

## Main result

`checkpoints_safe`
-/

namespace Ace.Git

/-! ### What one Git call does -/

/-- A value that was read from the counter as it is now. -/
def Counter.Current (threadId : String) (refs : Refs) (value : Counter) : Prop :=
  ∀ sha, value.sha = some sha → refs.counter = some sha ∧ sha.sequence? threadId = some value.sequence

/-- Where a call may go without a change to a ref. -/
def Phase.Follows (threadId : String) (s : State) (caches : Nat → Option Counter) (job : Job) :
    Phase → Prop
  | .record n previous | .transact n previous =>
    caches job.process = some previous ∨ job.phase = .record n previous
  | .listRefs current => current.Current threadId s.refs
  | .delete current listed => job.phase = .listRefs current ∧ listed = s.refs.checkpoints
  | .listBytes _ | .created .. => False
  | .listLive n _ => job.phase = .listBytes n
  | .dropBytes n _ => ∃ listed, job.phase = .listLive n listed
  | .deleted n => job.phase = .listBytes n ∨ ∃ listed, job.phase = .listLive n listed
  | .get _ | .show _ | .list _ | .failed => True

def Input.isCreate : Input → Bool
  | .create .. => true
  | .delete _ => false

def Next.isCreate : Next → Bool
  | .attempt _ | .recheck .. => true
  | .delete => false

def Phase.isCreate : Phase → Option Bool
  | .get _ | .record .. | .transact .. | .created .. => some true
  | .show next | .list next => some next.isCreate
  | .listRefs _ | .delete .. | .listBytes _ | .listLive .. | .dropBytes .. | .deleted _ => some false
  | .failed => none

/-- A cache holds what it held, less what was evicted, or a value that was just read. -/
def Cached (threadId : String) (s : State) (caches : Nat → Option Counter) : Prop :=
  ∀ process value, caches process = some value →
    s.caches process = some value ∨ value.Current threadId s.refs

inductive Advances (threadId : String) (s : State) (i : Nat) (job : Job) : State → Prop where
  | quiet (caches : Nat → Option Counter) (phase : Phase)
      (cached : Cached threadId s caches) (follows : phase.Follows threadId s caches job)
      (same : phase = .failed ∨ phase.isCreate = job.phase.isCreate) :
      Advances threadId s i job ({ s with caches }.goto i phase)
  | record (n : Nat) (previous : Counter) (bytes : BytesCommit)
      (at_record : job.phase = .record n previous) :
      Advances threadId s i job
        ((s.write (s.refs.record (job.input.commit threadId (previous.sequence + 1)) bytes)
          (.recorded i)).goto i (.transact n previous))
  | create (n : Nat) (previous : Counter) (refs : Refs) (at_transact : job.phase = .transact n previous)
      (commits : s.refs.create (previous.sequence + 1)
        (job.input.commit threadId (previous.sequence + 1)) previous.sha = some refs) :
      Advances threadId s i job
        (((s.write refs (.created i (previous.sequence + 1)
          (job.input.commit threadId (previous.sequence + 1)))).remember job.process
            { sha := some (job.input.commit threadId (previous.sequence + 1))
              sequence := previous.sequence + 1 }).goto i
          (.created (previous.sequence + 1) (job.input.commit threadId (previous.sequence + 1))))
  | delete (current : Counter) (listed : List (Nat × Commit)) (refs : Refs)
      (caches : Nat → Option Counter) (phase : Phase) (at_delete : job.phase = .delete current listed)
      (commits : s.refs.delete listed current.sha = some refs)
      (cached : Cached threadId s caches)
      (ends : phase = .deleted listed.length ∨ phase = .listBytes listed.length) :
      Advances threadId s i job ({ s.write refs (.deleted i) with caches }.goto i phase)
  | forget (n : Nat) (stale : List (Commit × BytesCommit)) (refs : Refs)
      (caches : Nat → Option Counter) (at_drop : job.phase = .dropBytes n stale)
      (commits : s.refs.forget stale = some refs) (cached : Cached threadId s caches) :
      Advances threadId s i job ({ s.write refs (.forgot i) with caches }.goto i (.deleted n))

section

variable {threadId : String} {s s' : State} {i : Nat} {job : Job}

theorem cached_refl : Cached threadId s s.caches := fun _ _ => .inl

theorem cached_forget (process : Nat) : Cached threadId s (s.forget process).caches := by
  intro p value found
  simp only [State.forget] at found
  split at found
  · cases found
  · exact .inl found

theorem cached_remember (process : Nat) {value : Counter}
    (current : value.Current threadId s.refs) :
    Cached threadId s (s.remember process value).caches := by
  intro p value' found
  simp only [State.remember] at found
  split at found
  · cases found
    exact .inr current
  · exact .inl found

theorem follows_proceed {caches : Nat → Option Counter} {value : Counter}
    (cached : caches job.process = some value) (n : Nat) :
    (job.input.proceed n value).Follows threadId s caches job := by
  unfold Input.proceed
  split
  · split
    · exact .inl cached
    · exact .inl cached
  · trivial

theorem isCreate_proceed (input : Input) (n : Nat) (value : Counter) :
    input.proceed n value = .failed ∨ (input.proceed n value).isCreate = some true := by
  unfold Input.proceed
  split
  · split
    · exact .inr rfl
    · exact .inr rfl
  · exact .inl rfl

theorem advances_refreshed {value : Counter} (current : value.Current threadId s.refs)
    {next : Next} (same : job.phase.isCreate = some next.isCreate) :
    Advances threadId s i job (s.refreshed i job value next) := by
  cases next with
  | attempt n =>
    apply Advances.quiet (s.remember job.process value).caches
    · exact cached_remember job.process current
    · exact follows_proceed (by simp [State.remember]) n
    · rw [same]
      exact isCreate_proceed job.input n value
  | recheck n previous locked =>
    apply Advances.quiet (s.remember job.process value).caches
    · exact cached_remember job.process current
    · split
      · trivial
      · split
        · trivial
        · trivial
    · rw [same]
      split
      · exact .inl rfl
      · split
        · exact .inr rfl
        · exact .inl rfl
  | delete =>
    apply Advances.quiet (s.remember job.process value).caches
    · exact cached_remember job.process current
    · exact current
    · exact .inr same.symm

theorem advances (git : Outcome) (runs : s.advance threadId i job git = some s') :
    Advances threadId s i job s' := by
  have quiet : ∀ phase : Phase, phase.Follows threadId s s.caches job →
      (phase = .failed ∨ phase.isCreate = job.phase.isCreate) →
      Advances threadId s i job (s.goto i phase) :=
    fun phase follows same => .quiet s.caches phase cached_refl follows same
  have fails := quiet .failed trivial (.inl rfl)
  have finishes : ∀ n, (Phase.deleted n).Follows threadId s (s.forget job.process).caches job →
      job.phase.isCreate = some false → Advances threadId s i job (s.finish i job n) :=
    fun n follows same => .quiet (s.forget job.process).caches (.deleted n)
      (cached_forget job.process) follows (.inr same.symm)
  unfold State.advance at runs
  split at runs
  case h_1 n at_get =>
    cases runs
    rw [at_get] at quiet
    split
    next value cached =>
      exact quiet _ (follows_proceed cached n) (isCreate_proceed job.input n value)
    next => exact quiet _ trivial (.inr rfl)
  case h_2 next at_show =>
    cases runs
    split
    next sha counter =>
      split
      next sequence is_sequence =>
        refine advances_refreshed ?_ (by rw [at_show]; rfl)
        rintro sha' ⟨⟩
        exact ⟨counter, is_sequence⟩
      next => exact fails
    next => exact quiet _ trivial (.inr (by rw [at_show]; rfl))
  case h_3 next at_show =>
    cases runs
    exact quiet _ trivial (.inr (by rw [at_show]; rfl))
  case h_4 next at_list =>
    cases runs
    refine advances_refreshed ?_ (by rw [at_list]; rfl)
    rintro sha ⟨⟩
  case h_5 n previous at_record =>
    cases runs
    split
    next bytes _ => exact .record n previous bytes at_record
    next => exact quiet _ (.inr at_record) (.inr (by rw [at_record]; rfl))
  case h_6 n previous at_transact =>
    cases runs
    split
    next refs commits => exact .create n previous refs at_transact commits
    next => exact quiet _ trivial (.inr (by rw [at_transact]; rfl))
  case h_7 n previous locked at_transact =>
    cases runs
    exact quiet _ trivial (.inr (by rw [at_transact]; rfl))
  case h_8 current at_list =>
    cases runs
    exact quiet _ ⟨at_list, rfl⟩ (.inr (by rw [at_list]; rfl))
  case h_9 current listed at_delete =>
    cases runs
    split
    next refs commits =>
      split
      · exact .delete current listed refs s.caches _ at_delete commits cached_refl (.inr rfl)
      · exact .delete current listed refs (s.forget job.process).caches _ at_delete commits
          (cached_forget job.process) (.inl rfl)
    next => exact fails
  case h_10 n at_bytes =>
    cases runs
    split
    · exact finishes n (.inl at_bytes) (by rw [at_bytes]; rfl)
    · exact quiet _ at_bytes (.inr (by rw [at_bytes]; rfl))
  case h_11 n listed at_live =>
    cases runs
    split
    · exact finishes n (.inr ⟨listed, at_live⟩) (by rw [at_live]; rfl)
    · exact quiet _ ⟨listed, at_live⟩ (.inr (by rw [at_live]; rfl))
  case h_12 n stale at_drop =>
    cases runs
    split
    next refs commits =>
      exact .forget n stale refs (s.forget job.process).caches at_drop commits
        (cached_forget job.process)
    next => exact fails
  all_goals
    cases runs
    try exact fails

theorem unfinished {git : Outcome} (runs : s.advance threadId i job git = some s') :
    (∀ sequence sha, job.phase ≠ .created sequence sha) ∧ job.phase ≠ .failed := by
  constructor
  · intro sequence sha finished
    simp [State.advance, finished] at runs
  · intro finished
    simp [State.advance, finished] at runs

/-! ### Jobs -/

theorem jobs_goto {phase : Phase} {j : Nat} {job' : Job}
    (found : (s.goto i phase).jobs[j]? = some job') :
    (j ≠ i ∧ s.jobs[j]? = some job') ∨
      (j = i ∧ ∃ job, s.jobs[i]? = some job ∧ job' = { job with phase }) := by
  rw [State.goto, List.getElem?_modify] at found
  by_cases same : i = j
  · subst same
    obtain ⟨job, old, rfl⟩ := Option.map_eq_some_iff.mp found
    exact .inr ⟨rfl, job, old, by simp⟩
  · refine .inl ⟨Ne.symm same, ?_⟩
    simpa [same] using found

end

/-! ### What is followed -/

def Event.job : Event → Nat
  | .created job .. | .deleted job | .recorded job | .forgot job => job

/-- The numbers that were created since the last deletion. -/
def era (log : List Event) : List Nat :=
  log.foldl (fun numbers event => match event with
    | .created _ sequence _ => numbers ++ [sequence]
    | .deleted _ => []
    | .recorded _ | .forgot _ => numbers) []

def State.creations (s : State) (i : Nat) : List (Nat × Commit) :=
  s.log.filterMap fun
    | .created job sequence sha => if job = i then some (sequence, sha) else none
    | _ => none

/-- What tells a create from others. -/
def Input.source : Input → Option (String × String × String)
  | .create tree label createdAt _ => some (tree, label, createdAt)
  | .delete _ => none

/-- A counter value that agrees with its commit. -/
def Counter.Reads (threadId : String) (value : Counter) : Prop :=
  ∀ sha, value.sha = some sha → sha.sequence? threadId = some value.sequence

/-- The counter has pointed at a commit. -/
def Seen (start : Refs) (log : List Event) (sha : Commit) : Prop :=
  start.counter = some sha ∨ ∃ i sequence, .created i sequence sha ∈ log

/-- What a phase relies on. -/
def Phase.Grounded (threadId : String) (start : Refs) (s : State) : Phase → Prop
  | .record _ previous | .transact _ previous => previous.Reads threadId
  | .listRefs current => ∀ sha, current.sha = some sha → Seen start s.log sha
  | .delete current listed => (∀ sha, current.sha = some sha → Seen start s.log sha) ∧
    (s.refs.counter = current.sha → ∀ ref ∈ s.refs.checkpoints, ref ∈ listed)
  | _ => True

def Phase.creation : Phase → List (Nat × Commit)
  | .created sequence sha => [(sequence, sha)]
  | _ => []

/-- The transaction of a deletion is done. -/
def Phase.hasDeleted : Phase → Bool
  | .listBytes _ | .listLive .. | .dropBytes .. | .deleted _ => true
  | _ => false

structure JobSafe (threadId : String) (start : Refs) (s : State) (i : Nat) (job : Job) : Prop where
  kind : job.phase = .failed ∨ job.phase.isCreate = some job.input.isCreate
  grounded : job.phase.Grounded threadId start s
  creations : s.creations i = job.phase.creation
  untouched : job.phase = .failed → ∀ event ∈ s.log, event.job ≠ i
  deletes : job.phase.hasDeleted = true → .deleted i ∈ s.log

structure Safe (threadId : String) (start : Refs) (s : State) : Prop where
  jobs : ∀ (i : Nat) (job : Job), s.jobs[i]? = some job → JobSafe threadId start s i job
  cached : ∀ process value, s.caches process = some value → value.Reads threadId
  counter : ∀ sha, s.refs.counter = some sha → Seen start s.log sha
  grows : (era s.log).Pairwise (· < ·)
  bound : ∀ number ∈ era s.log, ∃ sha sequence, s.refs.counter = some sha ∧
    sha.sequence? threadId = some sequence ∧ number ≤ sequence
  owner : ∀ event ∈ s.log, event.job < s.jobs.length
  published : ∀ i sequence sha, .created i sequence sha ∈ s.log →
    ∃ job : Job, s.jobs[i]? = some job ∧ job.input.isCreate = true ∧
      sha = job.input.commit threadId sequence
  unseen : ∀ job ∈ s.jobs, job.input.isCreate = true → ∀ sequence,
    start.counter ≠ some (job.input.commit threadId sequence)
  sources : ∀ (i j : Nat) (job job' : Job), s.jobs[i]? = some job → s.jobs[j]? = some job' →
    job.input.isCreate = true → job.input.source = job'.input.source → i = j

/-! ### A step leaves the other calls in place -/

/-- How the refs of checkpoints change: not at all, to a counter that was never there before, or to
no checkpoints. -/
def Changes (start : Refs) (s s' : State) : Prop :=
  (s'.refs.counter = s.refs.counter ∧ s'.refs.checkpoints = s.refs.checkpoints) ∨
  (∃ sha, s'.refs.counter = some sha ∧ ¬Seen start s.log sha) ∨
  (s'.refs.counter = none ∧ s'.refs.checkpoints = [])

section

variable {threadId : String} {start : Refs} {s s' : State} {i : Nat} {job : Job}

theorem Seen.mono {log log' : List Event} {sha : Commit} (seen : Seen start log sha)
    (more : ∀ event ∈ log, event ∈ log') : Seen start log' sha := by
  rcases seen with first | ⟨i, sequence, created⟩
  · exact .inl first
  · exact .inr ⟨i, sequence, more _ created⟩

theorem Phase.Grounded.mono {phase : Phase} (grounded : phase.Grounded threadId start s)
    (changes : Changes start s s') (more : ∀ event ∈ s.log, event ∈ s'.log) :
    phase.Grounded threadId start s' := by
  cases phase with
  | record n previous => exact grounded
  | transact n previous => exact grounded
  | listRefs current => exact fun sha is => (grounded sha is).mono more
  | delete current listed =>
    obtain ⟨seen, listing⟩ := grounded
    refine ⟨fun sha is => (seen sha is).mono more, fun same => ?_⟩
    rcases changes with ⟨same_counter, same_refs⟩ | ⟨sha, fresh, unseen⟩ | ⟨-, none_left⟩
    · rw [same_refs]
      exact listing (same_counter ▸ same)
    · exact absurd (seen sha (same ▸ fresh)) unseen
    · rw [none_left]
      simp
  | _ => trivial

theorem JobSafe.frame {j : Nat} (safe : JobSafe threadId start s j job)
    (changes : Changes start s s') (events : List Event) (log : s'.log = s.log ++ events)
    (others : ∀ event ∈ events, event.job ≠ j) : JobSafe threadId start s' j job := by
  have more : ∀ event ∈ s.log, event ∈ s'.log := by
    intro event member
    rw [log]
    exact List.mem_append_left _ member
  refine ⟨safe.kind, safe.grounded.mono changes more, ?_, ?_, fun deleted => more _ (safe.deletes deleted)⟩
  · have none_new : (events.filterMap fun
        | .created job sequence sha => if job = j then some (sequence, sha) else none
        | _ => none) = [] := by
      rw [List.filterMap_eq_nil_iff]
      intro event member
      have other := others event member
      cases event with
      | created job sequence sha => exact if_neg other
      | _ => rfl
    rw [State.creations, log, List.filterMap_append, none_new, List.append_nil]
    exact safe.creations
  · intro failed event member
    rw [log, List.mem_append] at member
    rcases member with old | new
    · exact safe.untouched failed event old
    · exact others event new

theorem Changes.of_eq (counter : s'.refs.counter = s.refs.counter)
    (checkpoints : s'.refs.checkpoints = s.refs.checkpoints) : Changes start s s' :=
  .inl ⟨counter, checkpoints⟩

theorem era_append (log : List Event) (event : Event) :
    era (log ++ [event]) = match event with
      | .created _ sequence _ => era log ++ [sequence]
      | .deleted _ => []
      | .recorded _ | .forgot _ => era log := by
  simp only [era, List.foldl_append, List.foldl_cons, List.foldl_nil]

theorem Safe.goto (safe : Safe threadId start s) (found : s.jobs[i]? = some job) {s₁ : State}
    (jobs : s₁.jobs = s.jobs) (events : List Event) (log : s₁.log = s.log ++ events)
    (mine : ∀ event ∈ events, event.job = i) (changes : Changes start s s₁) {phase : Phase}
    (own : JobSafe threadId start s₁ i { job with phase })
    (cached : ∀ process value, s₁.caches process = some value → value.Reads threadId)
    (counter : ∀ sha, s₁.refs.counter = some sha → Seen start s₁.log sha)
    (grows : (era s₁.log).Pairwise (· < ·))
    (bound : ∀ number ∈ era s₁.log, ∃ sha sequence, s₁.refs.counter = some sha ∧
      sha.sequence? threadId = some sequence ∧ number ≤ sequence)
    (published : ∀ sequence sha, .created i sequence sha ∈ events →
      job.input.isCreate = true ∧ sha = job.input.commit threadId sequence) :
    Safe threadId start (s₁.goto i phase) := by
  have jobs_cases : ∀ (j : Nat) (job' : Job), (s₁.goto i phase).jobs[j]? = some job' →
      (j ≠ i ∧ s.jobs[j]? = some job') ∨ (j = i ∧ job' = { job with phase }) := by
    intro j job' found'
    rcases jobs_goto found' with ⟨other, old⟩ | ⟨same, job₀, found₀, rfl⟩
    · exact .inl ⟨other, jobs ▸ old⟩
    · rw [jobs, found] at found₀
      cases found₀
      exact .inr ⟨same, rfl⟩
  have input_cases : ∀ (j : Nat) (job' : Job), (s₁.goto i phase).jobs[j]? = some job' →
      ∃ job₀ : Job, s.jobs[j]? = some job₀ ∧ job₀.input = job'.input := by
    intro j job' found'
    rcases jobs_cases j job' found' with ⟨-, old⟩ | ⟨rfl, rfl⟩
    · exact ⟨job', old, rfl⟩
    · exact ⟨job, found, rfl⟩
  have moved : ∀ (j : Nat) (job₀ : Job), s.jobs[j]? = some job₀ →
      ∃ job' : Job, (s₁.goto i phase).jobs[j]? = some job' ∧ job'.input = job₀.input := by
    intro j job₀ found₀
    refine ⟨if i = j then { job₀ with phase } else job₀, ?_, ?_⟩
    · rw [State.goto, jobs, List.getElem?_modify, found₀]
      rfl
    · split <;> rfl
  refine ⟨?_, cached, counter, grows, bound, ?_, ?_, ?_, ?_⟩
  · intro j job' found'
    rcases jobs_cases j job' found' with ⟨other, old⟩ | ⟨rfl, rfl⟩
    · refine (safe.jobs j job' old).frame changes events log fun event member => ?_
      rw [mine event member]
      exact other.symm
    · exact own.frame (.of_eq rfl rfl) [] (by simp [State.goto]) (by simp)
  · intro event member
    rw [show (s₁.goto i phase).jobs.length = s.jobs.length by simp [State.goto, jobs]]
    rw [show (s₁.goto i phase).log = s.log ++ events from log, List.mem_append] at member
    rcases member with old | new
    · exact safe.owner event old
    · rw [mine event new]
      exact (List.getElem?_eq_some_iff.mp found).1
  · intro j sequence sha member
    rw [show (s₁.goto i phase).log = s.log ++ events from log, List.mem_append] at member
    rcases member with old | new
    · obtain ⟨job₀, found₀, is_create, is⟩ := safe.published j sequence sha old
      obtain ⟨job', found', same⟩ := moved j job₀ found₀
      exact ⟨job', found', by rw [same]; exact is_create, by rw [same]; exact is⟩
    · obtain rfl : j = i := mine _ new
      obtain ⟨is_create, is⟩ := published sequence sha new
      obtain ⟨job', found', same⟩ := moved j job found
      exact ⟨job', found', by rw [same]; exact is_create, by rw [same]; exact is⟩
  · intro job' member is_create sequence
    obtain ⟨j, found'⟩ := List.mem_iff_getElem?.mp member
    obtain ⟨job₀, found₀, same⟩ := input_cases j job' found'
    rw [← same] at is_create ⊢
    exact safe.unseen job₀ (List.mem_of_getElem? found₀) is_create sequence
  · intro j k job₁ job₂ found₁ found₂ is_create same
    obtain ⟨job₁', old₁, input₁⟩ := input_cases j job₁ found₁
    obtain ⟨job₂', old₂, input₂⟩ := input_cases k job₂ found₂
    rw [← input₁] at is_create same
    rw [← input₂] at same
    exact safe.sources j k job₁' job₂' old₁ old₂ is_create same

theorem Counter.Current.reads {value : Counter} (current : value.Current threadId s.refs) :
    value.Reads threadId := fun sha is => (current sha is).2

theorem Safe.reads_of_cached (safe : Safe threadId start s) {caches : Nat → Option Counter}
    (cached : Cached threadId s caches) (process : Nat) (value : Counter)
    (found : caches process = some value) : value.Reads threadId := by
  rcases cached process value found with old | current
  · exact safe.cached process value old
  · exact current.reads

theorem Safe.quiet (safe : Safe threadId start s) (found : s.jobs[i]? = some job)
    (unfinished : ∀ sequence sha, job.phase ≠ .created sequence sha)
    {caches : Nat → Option Counter} {phase : Phase} (cached : Cached threadId s caches)
    (follows : phase.Follows threadId s caches job)
    (same : phase = .failed ∨ phase.isCreate = job.phase.isCreate)
    (clean : phase = .failed → ∀ event ∈ s.log, event.job ≠ i) :
    Safe threadId start ({ s with caches }.goto i phase) := by
  have own := safe.jobs i job found
  have none_created : s.creations i = [] := by
    rw [own.creations]
    cases at_phase : job.phase with
    | created sequence sha => exact absurd at_phase (unfinished sequence sha)
    | _ => rfl
  have reads := safe.reads_of_cached cached
  have jobs : ({ s with caches } : State).jobs = s.jobs := rfl
  refine safe.goto found jobs [] (by simp) (by simp) (.of_eq rfl rfl) ?_ reads safe.counter
    safe.grows safe.bound (by simp)
  refine ⟨?_, ?_, ?_, clean, ?_⟩
  · rcases same with failed | same
    · exact .inl failed
    · rcases own.kind with failed | kind
      · rw [failed] at same
        refine .inl ?_
        cases phase with
        | failed => rfl
        | _ => cases same
      · exact .inr (same.trans kind)
  · cases phase with
    | record n previous =>
      rcases follows with known | at_record
      · exact reads job.process previous known
      · have grounded := own.grounded
        rw [at_record] at grounded
        exact grounded
    | transact n previous =>
      rcases follows with known | at_record
      · exact reads job.process previous known
      · have grounded := own.grounded
        rw [at_record] at grounded
        exact grounded
    | listRefs current => exact fun sha is => safe.counter sha (follows sha is).1
    | delete current listed =>
      obtain ⟨at_list, rfl⟩ := follows
      have grounded := own.grounded
      rw [at_list] at grounded
      exact ⟨grounded, fun _ _ member => member⟩
    | _ => trivial
  · rw [show ({ s with caches } : State).creations i = s.creations i from rfl, none_created]
    cases phase with
    | created => exact absurd follows id
    | _ => rfl
  · intro deleted
    apply own.deletes
    cases phase with
    | listBytes n => exact absurd follows id
    | listLive n listed => rw [show job.phase = _ from follows]; rfl
    | dropBytes n stale =>
      obtain ⟨listed, at_live⟩ := follows
      rw [at_live]
      rfl
    | deleted n =>
      rcases follows with at_bytes | ⟨listed, at_live⟩
      · rw [at_bytes]
        rfl
      · rw [at_live]
        rfl
    | _ => cases deleted

/-! ### Steps that change refs -/

theorem sequence?_commit {input : Input} (is_create : input.isCreate = true) (sequence : Nat) :
    (input.commit threadId sequence).sequence? threadId = some sequence := by
  cases input with
  | create tree label createdAt bytes => simp [Input.commit, Commit.sequence?]
  | delete => cases is_create

theorem source_of_commit {input input' : Input} (is_create : input.isCreate = true)
    (is_create' : input'.isCreate = true) {sequence sequence' : Nat}
    (same : input.commit threadId sequence = input'.commit threadId sequence') :
    input.source = input'.source := by
  cases input with
  | delete => cases is_create
  | create =>
    cases input' with
    | delete => cases is_create'
    | create =>
      simp only [Input.commit, Commit.mk.injEq, Option.some.injEq, Metadata.mk.injEq] at same
      simp [Input.source, same]

theorem Safe.fresh (safe : Safe threadId start s) (found : s.jobs[i]? = some job)
    (is_create : job.input.isCreate = true) (none_created : s.creations i = []) (sequence : Nat) :
    ¬Seen start s.log (job.input.commit threadId sequence) := by
  rintro (first | ⟨j, sequence', created⟩)
  · exact safe.unseen job (List.mem_of_getElem? found) is_create sequence first
  · obtain ⟨job', found', is_create', same⟩ := safe.published j sequence' _ created
    have same_job := safe.sources i j job job' found found' is_create
      (source_of_commit is_create is_create' same)
    subst same_job
    have member : (sequence', job.input.commit threadId sequence) ∈ s.creations i :=
      List.mem_filterMap.mpr ⟨_, created, if_pos rfl⟩
    rw [none_created] at member
    cases member

theorem create_eq_some {refs refs' : Refs} {sequence : Nat} {sha : Commit} {old : Option Commit}
    (commits : refs.create sequence sha old = some refs') :
    sequence ∉ refs.checkpoints.map Prod.fst ∧ refs.counter = old ∧
      refs' = { refs with
        checkpoints := refs.checkpoints ++ [(sequence, sha)]
        counter := some sha } := by
  unfold Refs.create at commits
  split at commits
  · cases commits
  next free =>
    rw [not_or, not_not] at free
    cases commits
    exact ⟨free.1, free.2, rfl⟩

theorem delete_eq_some {refs refs' : Refs} {listed : List (Nat × Commit)} {old : Option Commit}
    (commits : refs.delete listed old = some refs') :
    refs.counter = old ∧
      refs' = { refs with
        checkpoints := refs.checkpoints.filter (· ∉ listed)
        counter := none } := by
  unfold Refs.delete at commits
  split at commits
  next matches' =>
    cases commits
    exact ⟨matches'.2, rfl⟩
  · cases commits

theorem forget_eq_some {refs refs' : Refs} {stale : List (Commit × BytesCommit)}
    (commits : refs.forget stale = some refs') :
    refs'.counter = refs.counter ∧ refs'.checkpoints = refs.checkpoints := by
  unfold Refs.forget at commits
  split at commits
  · cases commits
    exact ⟨rfl, rfl⟩
  · cases commits

theorem creations_write {refs : Refs} {event : Event} :
    (s.write refs event).creations i = s.creations i ++ match event with
      | .created job sequence sha => if job = i then [(sequence, sha)] else []
      | _ => [] := by
  cases event with
  | created job sequence sha =>
    by_cases mine : job = i
    · simp [State.creations, State.write, mine]
    · simp [State.creations, State.write, mine]
  | _ => simp [State.creations, State.write]

theorem JobSafe.isCreate (own : JobSafe threadId start s i job) {kind : Bool}
    (at_phase : job.phase.isCreate = some kind) : job.input.isCreate = kind := by
  rcases own.kind with failed | is_kind
  · rw [failed] at at_phase
    cases at_phase
  · rw [at_phase] at is_kind
    exact (Option.some.inj is_kind).symm

theorem Safe.bytes (safe : Safe threadId start s) (found : s.jobs[i]? = some job) {refs : Refs}
    (same : refs.counter = s.refs.counter ∧ refs.checkpoints = s.refs.checkpoints) {event : Event}
    (is_event : event = .recorded i ∨ event = .forgot i) {caches : Nat → Option Counter}
    (cached : Cached threadId s caches) {phase : Phase}
    (kind : phase.isCreate = job.phase.isCreate) (unfailed : phase ≠ .failed)
    (grounded : phase.Grounded threadId start s) (creation : phase.creation = [])
    (creation' : job.phase.creation = [])
    (deletes : phase.hasDeleted = true → job.phase.hasDeleted = true) :
    Safe threadId start ({ s.write refs event with caches }.goto i phase) := by
  have own := safe.jobs i job found
  have same_era : era (s.log ++ [event]) = era s.log := by
    rcases is_event with rfl | rfl <;> exact era_append ..
  have more : ∀ event' ∈ s.log, event' ∈ s.log ++ [event] :=
    fun _ => List.mem_append_left _
  have changes : Changes start s { s.write refs event with caches } := .of_eq same.1 same.2
  have jobs : ({ s.write refs event with caches } : State).jobs = s.jobs := rfl
  refine safe.goto found jobs [event] rfl ?_ changes ?_ (safe.reads_of_cached cached) ?_ ?_ ?_ ?_
  · rcases is_event with rfl | rfl <;> simp [Event.job]
  · refine ⟨.inr ?_, grounded.mono changes more, ?_, fun failed => absurd failed unfailed, ?_⟩
    · rcases own.kind with failed | is_kind
      · rw [failed] at kind
        cases phase with
        | failed => exact absurd rfl unfailed
        | _ => cases kind
      · exact kind.trans is_kind
    · rw [show ({ s.write refs event with caches } : State).creations i =
        (s.write refs event).creations i from rfl, creations_write, own.creations, creation,
        creation']
      rcases is_event with rfl | rfl <;> rfl
    · intro deleted
      exact more _ (own.deletes (deletes deleted))
  · intro sha is
    exact (safe.counter sha (same.1 ▸ is)).mono more
  · rw [show ({ s.write refs event with caches } : State).log = s.log ++ [event] from rfl, same_era]
    exact safe.grows
  · rw [show ({ s.write refs event with caches } : State).log = s.log ++ [event] from rfl, same_era,
      show ({ s.write refs event with caches } : State).refs.counter = s.refs.counter from same.1]
    exact safe.bound
  · intro sequence sha member
    rw [List.mem_singleton] at member
    rcases is_event with rfl | rfl <;> cases member

theorem Safe.create (safe : Safe threadId start s) (found : s.jobs[i]? = some job) {n : Nat}
    {previous : Counter} (at_transact : job.phase = .transact n previous) {refs : Refs}
    (commits : s.refs.create (previous.sequence + 1)
      (job.input.commit threadId (previous.sequence + 1)) previous.sha = some refs) :
    Safe threadId start
      (((s.write refs (.created i (previous.sequence + 1)
        (job.input.commit threadId (previous.sequence + 1)))).remember job.process
          { sha := some (job.input.commit threadId (previous.sequence + 1))
            sequence := previous.sequence + 1 }).goto i
        (.created (previous.sequence + 1) (job.input.commit threadId (previous.sequence + 1)))) := by
  have own := safe.jobs i job found
  have is_create : job.input.isCreate = true := own.isCreate (by rw [at_transact]; rfl)
  have none_created : s.creations i = [] := by rw [own.creations, at_transact]; rfl
  obtain ⟨-, is_old, rfl⟩ := create_eq_some commits
  have fresh := safe.fresh found is_create none_created (previous.sequence + 1)
  have reads : previous.Reads threadId := by
    have grounded := own.grounded
    rw [at_transact] at grounded
    exact grounded
  have named := @sequence?_commit threadId job.input is_create (previous.sequence + 1)
  generalize is_sha : job.input.commit threadId (previous.sequence + 1) = sha at *
  -- the numbers of this era are at most the one that the counter had
  have less : ∀ number ∈ era s.log, number < previous.sequence + 1 := by
    intro number member
    obtain ⟨old, sequence, counter, is_sequence, le⟩ := safe.bound number member
    have same := reads old (is_old ▸ counter)
    rw [is_sequence, Option.some.injEq] at same
    omega
  have jobs : ((s.write { s.refs with
      checkpoints := s.refs.checkpoints ++ [(previous.sequence + 1, sha)]
      counter := some sha } (.created i (previous.sequence + 1) sha)).remember job.process
        { sha := some sha, sequence := previous.sequence + 1 }).jobs = s.jobs := rfl
  refine safe.goto found jobs [.created i (previous.sequence + 1) sha] rfl (by simp [Event.job])
    (.inr (.inl ⟨sha, rfl, fresh⟩)) ?_ ?_ ?_ ?_ ?_ ?_
  · have one_created : (s.write { s.refs with
        checkpoints := s.refs.checkpoints ++ [(previous.sequence + 1, sha)]
        counter := some sha } (.created i (previous.sequence + 1) sha)).creations i =
          [(previous.sequence + 1, sha)] := by
      rw [creations_write, none_created]
      simp
    exact ⟨.inr (by rw [is_create]; rfl), trivial, one_created, by simp, by simp [Phase.hasDeleted]⟩
  · intro process value cached
    simp only [State.remember] at cached
    split at cached
    · cases cached
      rintro sha' ⟨⟩
      exact named
    · exact safe.cached process value cached
  · rintro sha' ⟨⟩
    exact .inr ⟨i, previous.sequence + 1, List.mem_append_right _ (List.mem_singleton.mpr rfl)⟩
  · simp only [State.remember, State.write, era_append]
    exact List.pairwise_append.mpr ⟨safe.grows, List.pairwise_singleton .., fun number member last
      is_last => by rw [List.mem_singleton.mp is_last]; exact less number member⟩
  · simp only [State.remember, State.write, era_append]
    intro number member
    refine ⟨sha, previous.sequence + 1, rfl, named, ?_⟩
    rw [List.mem_append, List.mem_singleton] at member
    rcases member with old | rfl
    · have below := less number old
      omega
    · omega
  · intro sequence sha' member
    rw [List.mem_singleton, Event.created.injEq] at member
    obtain ⟨-, rfl, rfl⟩ := member
    exact ⟨is_create, is_sha.symm⟩

theorem Safe.delete (safe : Safe threadId start s) (found : s.jobs[i]? = some job)
    {current : Counter} {listed : List (Nat × Commit)}
    (at_delete : job.phase = .delete current listed) {refs : Refs}
    (commits : s.refs.delete listed current.sha = some refs) {caches : Nat → Option Counter}
    (cached : Cached threadId s caches) {phase : Phase}
    (ends : phase = .deleted listed.length ∨ phase = .listBytes listed.length) :
    refs.checkpoints = [] ∧
      Safe threadId start ({ s.write refs (.deleted i) with caches }.goto i phase) := by
  have own := safe.jobs i job found
  have is_delete : job.input.isCreate = false := own.isCreate (by rw [at_delete]; rfl)
  have grounded := own.grounded
  rw [at_delete] at grounded
  obtain ⟨is_old, rfl⟩ := delete_eq_some commits
  have emptied : s.refs.checkpoints.filter (· ∉ listed) = [] := by
    rw [List.filter_eq_nil_iff]
    intro ref member
    simpa using grounded.2 is_old ref member
  refine ⟨emptied, ?_⟩
  have jobs : ({ s.write { s.refs with
      checkpoints := s.refs.checkpoints.filter (· ∉ listed)
      counter := none } (.deleted i) with caches } : State).jobs = s.jobs := rfl
  refine safe.goto found jobs [.deleted i] rfl (by simp [Event.job])
    (.inr (.inr ⟨rfl, emptied⟩)) ?_ (safe.reads_of_cached cached) (by simp [State.write]) ?_ ?_ (by simp)
  · have member : Event.deleted i ∈ s.log ++ [.deleted i] := by simp
    have none_created : s.creations i = [] := by rw [own.creations, at_delete]; rfl
    have still_none : (s.write { s.refs with
        checkpoints := s.refs.checkpoints.filter (· ∉ listed)
        counter := none } (.deleted i)).creations i = [] := by
      rw [creations_write, none_created]
      rfl
    rcases ends with rfl | rfl
    · exact ⟨.inr (by rw [is_delete]; rfl), trivial, still_none, by simp, fun _ => member⟩
    · exact ⟨.inr (by rw [is_delete]; rfl), trivial, still_none, by simp, fun _ => member⟩
  · simp only [State.write, era_append]
    exact List.Pairwise.nil
  · simp only [State.write, era_append]
    simp

/-! ### Runs -/

/-- A create has another tree, label or time than the creates before it, and a call that has
written a ref does not fail. -/
def Meets (threadId : String) (start : Refs) (s : State) (s' : State) : Action → Prop
  | .create _ tree label createdAt bytes =>
    (∀ job ∈ s.jobs, job.input.source ≠ some (tree, label, createdAt)) ∧
    ∀ sequence, start.counter ≠
      some ((Input.create tree label createdAt bytes).commit threadId sequence)
  | .run i _ => (∃ event ∈ s.log, event.job = i) →
    ∀ job, s'.jobs[i]? = some job → job.phase ≠ .failed
  | .delete .. | .evict _ => True

/-- Any refs, no calls yet, and caches with values that were read once. -/
structure Begins (threadId : String) (first : State) : Prop where
  idle : first.jobs = []
  unchanged : first.log = []
  cached : ∀ process value, first.caches process = some value → value.Reads threadId

inductive Run (threadId : String) (first : State) : State → Prop where
  | first : Run threadId first first
  | step {s s' : State} {action : Action} (before : Run threadId first s)
      (steps : s.step threadId action = some s') (meets : Meets threadId first.refs s s' action) :
      Run threadId first s'

theorem Begins.safe {first : State} (begins : Begins threadId first) :
    Safe threadId first.refs first := by
  obtain ⟨idle, unchanged, cached⟩ := begins
  refine ⟨?_, cached, fun sha => .inl, ?_, ?_, ?_, ?_, ?_, ?_⟩
  · simp [idle]
  · simp [unchanged, era]
  · simp [unchanged, era]
  · simp [unchanged]
  · simp [unchanged]
  · simp [idle]
  · simp [idle]

theorem Safe.begin (safe : Safe threadId start s) {job : Job}
    (at_first : job.phase = .get 0 ∧ job.input.isCreate = true ∨
      job.phase = .show .delete ∧ job.input.isCreate = false)
    (unseen : job.input.isCreate = true → ∀ sequence,
      start.counter ≠ some (job.input.commit threadId sequence))
    (distinct : ∀ job' ∈ s.jobs, job.input.isCreate = true → job'.input.source ≠ job.input.source) :
    Safe threadId start { s with jobs := s.jobs ++ [job] } := by
  have jobs_cases : ∀ (i : Nat) (job' : Job), (s.jobs ++ [job])[i]? = some job' →
      s.jobs[i]? = some job' ∨ (i = s.jobs.length ∧ job' = job) := by
    intro i job' found
    rw [List.getElem?_append] at found
    split at found
    · exact .inl found
    next past =>
      rw [List.getElem?_singleton] at found
      split at found
      next same =>
        cases found
        exact .inr ⟨by omega, rfl⟩
      · cases found
  have new_source : ∀ job' ∈ s.jobs, job.input.isCreate = true ∨ job'.input.isCreate = true →
      job'.input.source ≠ job.input.source := by
    intro job' member is_create same
    rcases is_create with is_create | is_create
    · exact distinct job' member is_create same
    · -- only creates have a source
      refine distinct job' member ?_ same
      cases input : job.input with
      | create => rfl
      | delete =>
        rw [input] at same
        cases input' : job'.input with
        | create =>
          rw [input'] at same
          cases same
        | delete =>
          rw [input'] at is_create
          cases is_create
  refine ⟨?_, safe.cached, safe.counter, safe.grows, safe.bound, ?_, ?_, ?_, ?_⟩
  · intro i job' found
    rcases jobs_cases i job' found with old | ⟨rfl, rfl⟩
    · exact (safe.jobs i job' old).frame (.of_eq rfl rfl) [] (by simp) (by simp)
    · have none_created : ({ s with jobs := s.jobs ++ [job'] } : State).creations s.jobs.length = [] := by
        rw [State.creations, List.filterMap_eq_nil_iff]
        intro event member
        have below := safe.owner event member
        cases event with
        | created i sequence sha =>
          rw [Event.job] at below
          exact if_neg (by omega)
        | _ => rfl
      rcases at_first with ⟨at_first, kind⟩ | ⟨at_first, kind⟩
      · exact ⟨.inr (by rw [at_first, kind]; rfl), by rw [at_first]; trivial,
          by rw [at_first]; exact none_created, by simp [at_first],
          by simp [at_first, Phase.hasDeleted]⟩
      · exact ⟨.inr (by rw [at_first, kind]; rfl), by rw [at_first]; trivial,
          by rw [at_first]; exact none_created, by simp [at_first],
          by simp [at_first, Phase.hasDeleted]⟩
  · intro event member
    have below := safe.owner event member
    simp only [List.length_append, List.length_singleton]
    omega
  · intro i sequence sha member
    obtain ⟨job', found, rest⟩ := safe.published i sequence sha member
    refine ⟨job', ?_, rest⟩
    rw [List.getElem?_append_left (List.getElem?_eq_some_iff.mp found).1]
    exact found
  · intro job' member is_create sequence
    rw [List.mem_append, List.mem_singleton] at member
    rcases member with old | rfl
    · exact safe.unseen job' old is_create sequence
    · exact unseen is_create sequence
  · intro i j job₁ job₂ found₁ found₂ is_create same
    rcases jobs_cases i job₁ found₁ with old₁ | ⟨rfl, rfl⟩ <;>
      rcases jobs_cases j job₂ found₂ with old₂ | ⟨rfl, rfl⟩
    · exact safe.sources i j job₁ job₂ old₁ old₂ is_create same
    · exact absurd same (new_source job₁ (List.mem_of_getElem? old₁) (.inr is_create))
    · exact absurd same.symm (new_source job₂ (List.mem_of_getElem? old₂) (.inl is_create))
    · rfl

theorem Safe.advance (safe : Safe threadId start s) (found : s.jobs[i]? = some job)
    {git : Outcome} (runs : s.advance threadId i job git = some s')
    (meets : Meets threadId start s s' (.run i git)) : Safe threadId start s' := by
  obtain ⟨unfinished, -⟩ := unfinished runs
  cases advances git runs with
  | quiet caches phase cached follows same =>
    refine safe.quiet found unfinished cached follows same fun failed event member mine => ?_
    refine meets ⟨event, member, mine⟩ { job with phase } ?_ failed
    simp [State.goto, found]
  | record n previous bytes at_record =>
    have grounded := (safe.jobs i job found).grounded
    rw [at_record] at grounded
    have kind : (Phase.transact n previous).isCreate = job.phase.isCreate := by rw [at_record]; rfl
    have same : (s.refs.record (job.input.commit threadId (previous.sequence + 1)) bytes).counter =
        s.refs.counter ∧ (s.refs.record (job.input.commit threadId (previous.sequence + 1))
          bytes).checkpoints = s.refs.checkpoints := ⟨rfl, rfl⟩
    exact safe.bytes found same (.inl rfl) cached_refl kind (by simp) grounded rfl
      (by rw [at_record]; rfl) (by simp [Phase.hasDeleted])
  | create n previous refs at_transact commits => exact safe.create found at_transact commits
  | delete current listed refs caches phase at_delete commits cached ends =>
    exact (safe.delete found at_delete commits cached ends).2
  | forget n stale refs caches at_drop commits cached =>
    have kind : (Phase.deleted n).isCreate = job.phase.isCreate := by rw [at_drop]; rfl
    exact safe.bytes found (forget_eq_some commits) (.inr rfl) cached kind (by simp) trivial rfl
      (by rw [at_drop]; rfl) (by simp [at_drop, Phase.hasDeleted])

theorem Safe.step (safe : Safe threadId start s) {action : Action}
    (steps : s.step threadId action = some s') (meets : Meets threadId start s s' action) :
    Safe threadId start s' := by
  cases action with
  | create process tree label createdAt bytes =>
    cases steps
    exact safe.begin (.inl ⟨rfl, rfl⟩) (fun _ => meets.2) fun job' member _ => meets.1 job' member
  | delete process windows =>
    cases steps
    exact safe.begin (.inr ⟨rfl, rfl⟩) (fun is_create => by cases is_create)
      fun _ _ is_create => by cases is_create
  | evict process =>
    cases steps
    refine ⟨fun i job found => ?_, safe.reads_of_cached (cached_forget process), safe.counter,
      safe.grows, safe.bound, safe.owner, safe.published, safe.unseen, safe.sources⟩
    exact (safe.jobs i job found).frame (.of_eq rfl rfl) [] (by simp [State.forget]) (by simp)
  | run i git =>
    obtain ⟨job, found, runs⟩ := Option.bind_eq_some_iff.mp steps
    exact safe.advance found runs meets

theorem Run.safe {first : State} (begins : Begins threadId first) (run : Run threadId first s) :
    Safe threadId first.refs s := by
  induction run with
  | first => exact begins.safe
  | step _ steps meets ih => exact ih.step steps meets

/-- What a step that writes does to the checkpoints. -/
def Event.Effect (event : Event) (s s' : State) : Prop :=
  ∃ job, s.jobs[event.job]? = some job ∧ match event with
    | .created _ sequence sha => job.input.isCreate = true ∧
      sequence ∉ s.refs.checkpoints.map Prod.fst ∧
      s'.refs.checkpoints = s.refs.checkpoints ++ [(sequence, sha)]
    | .deleted _ => job.input.isCreate = false ∧ s'.refs.checkpoints = []
    | .recorded _ | .forgot _ => s'.refs.checkpoints = s.refs.checkpoints

theorem Safe.effect (safe : Safe threadId start s) {action : Action}
    (steps : s.step threadId action = some s') :
    (s'.log = s.log ∧ s'.refs = s.refs) ∨
      ∃ event : Event, s'.log = s.log ++ [event] ∧ event.Effect s s' := by
  cases action with
  | create | delete | evict =>
    cases steps
    exact .inl ⟨rfl, rfl⟩
  | run i git =>
    obtain ⟨job, found, runs⟩ := Option.bind_eq_some_iff.mp steps
    have own := safe.jobs i job found
    cases advances git runs with
    | quiet => exact .inl ⟨rfl, rfl⟩
    | record => exact .inr ⟨_, rfl, job, found, rfl⟩
    | create n previous refs at_transact commits =>
      obtain ⟨free, -, rfl⟩ := create_eq_some commits
      exact .inr ⟨_, rfl, job, found, own.isCreate (by rw [at_transact]; rfl), free, rfl⟩
    | delete current listed refs caches phase at_delete commits cached ends =>
      obtain ⟨emptied, -⟩ := safe.delete found at_delete commits cached ends
      exact .inr ⟨_, rfl, job, found, own.isCreate (by rw [at_delete]; rfl), emptied⟩
    | forget n stale refs caches at_drop commits cached =>
      exact .inr ⟨_, rfl, job, found, (forget_eq_some commits).2⟩

end

def State.runs (threadId : String) (s : State) (actions : List Action) : Option State :=
  actions.foldlM (·.step threadId) s

def answered (job calls : Nat) : List Action := List.replicate calls (.run job .answers)

/-- Two creates take the same snapshot with the same label in the same millisecond. The first is
published, a deletion reads the counter, another deletion commits, and the second create publishes
the same commit again under the same number, after the first deletion has listed the refs. -/
def repeatedCommit : List Action :=
  [.create 0 "tree" "first" "00:00" none] ++ answered 0 4 ++
  [.create 1 "work" "save" "00:01" none, .create 2 "work" "save" "00:01" none] ++
  answered 1 2 ++ answered 2 2 ++ answered 1 1 ++ answered 2 2 ++
  [.delete 3 false] ++ answered 3 1 ++ [.delete 4 false] ++ answered 4 3 ++
  [.create 5 "other" "third" "00:02" none] ++ answered 5 4 ++ answered 3 1 ++
  answered 2 3 ++ answered 2 2 ++ answered 3 1

/-- A deletion on Windows commits, and fails when it looks for the bytes. -/
def failedDeletion : List Action :=
  [.create 0 "tree" "first" "00:00" none] ++ answered 0 4 ++ [.delete 1 true] ++ answered 1 3 ++
  [.run 1 .throws]

/-- The last change, the checkpoints that there are, and where a call stands. -/
structure Ending where
  last : Option Event
  checkpoints : List (Nat × Commit)
  phase : Option Phase
  deriving DecidableEq

def State.ending (s : State) (job : Nat) : Ending where
  last := s.log.getLast?
  checkpoints := s.refs.checkpoints
  phase := s.jobs[job]?.map (·.phase)

/-- `Meets` as a check, where there was no counter at first. -/
def meets (s s' : State) : Action → Bool
  | .create _ tree label createdAt _ =>
    s.jobs.all fun job => job.input.source ≠ some (tree, label, createdAt)
  | .run i _ => !s.log.any (·.job = i) || s'.jobs[i]?.all (·.phase ≠ .failed)
  | .delete .. | .evict _ => true

def State.runsWell (threadId : String) (s : State) : List Action → Option State
  | [] => some s
  | action :: actions => (s.step threadId action).bind fun s' =>
    if meets s s' action then s'.runsWell threadId actions else none

theorem run_of_runsWell {threadId : String} {first s s' : State} {actions : List Action}
    (no_counter : first.refs.counter = none) (before : Run threadId first s)
    (runs : s.runsWell threadId actions = some s') : Run threadId first s' := by
  induction actions generalizing s with
  | nil =>
    cases runs
    exact before
  | cons action actions ih =>
    obtain ⟨next, steps, rest⟩ := Option.bind_eq_some_iff.mp runs
    split at rest
    next well =>
      refine ih (before.step steps ?_) rest
      cases action with
      | create process tree label createdAt bytes =>
        refine ⟨by simpa [meets] using well, ?_⟩
        simp [no_counter]
      | run i git =>
        rintro ⟨event, member, mine⟩ job found
        have touched : s.log.any (·.job = i) = true :=
          List.any_eq_true.mpr ⟨event, member, by simpa using mine⟩
        simpa [meets, touched, found] using well
      | _ => trivial
    next => cases rest

/-- Two creates are under way at once, and the slower one tries again. -/
def sampleActions : List Action :=
  [.create 0 "work" "save" "00:00" none, .create 1 "work" "save" "00:01" none] ++ answered 0 3 ++
  answered 1 3 ++ answered 0 1 ++ answered 1 4

end Ace.Git
