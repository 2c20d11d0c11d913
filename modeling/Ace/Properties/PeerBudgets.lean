import Ace.Relay.Limits

/-!
# Peers stay within their budgets

What any call does to the entry of one key is one of a few changes (`Changes`), and only an entry
without a connection can go. Connections are therefore counted exactly, and the messages that are
let through while an entry exists are paid for from its tokens, which fill with time alone.

## Main result

`ipBudget_fair`
-/

namespace Ace.Relay.IpBudget

open Script

variable {limits : Limits}

/-! ### The invariant -/

/-- The idle keys are those of the entries without a connection. -/
structure Inv (limits : Limits) (b : Budget) : Prop where
  size : b.entries.size ≤ limits.maxIpEntries
  connections : ∀ key e, b.entries.get? key = some e → e.connections ≤ limits.maxConnectionsPerIp
  tokens : ∀ key e, b.entries.get? key = some e → 0 ≤ e.tokens ∧ e.tokens ≤ limits.messageBurst
  idle : ∀ key, key ∈ b.idle ↔ ∃ e, b.entries.get? key = some e ∧ e.connections = 0

theorem inv_start : Inv limits {} := by
  refine ⟨Nat.zero_le _, ?_, ?_, ?_⟩
  · intro key e found
    cases found
  · intro key e found
    cases found
  · intro key
    constructor
    · intro member
      cases member
    · rintro ⟨e, found, _⟩
      cases found

/-! ### What a call changes -/

/-- What a call does to the entry of a key. -/
inductive Changes (limits : Limits) (key : String) (call : Call) (now : ℚ) (answer : Answer) :
    Option Entry → Option Entry → Prop
  | same (entry : Option Entry) (other : call ≠ .release key) (notTaken : call ≠ .take key)
      (notGranted : call = .acquire key → answer = .admitted false) :
      Changes limits key call now answer entry entry
  | lost {e : Entry} (idle : e.connections = 0) (other : call ≠ .release key)
      (notTaken : call ≠ .take key) (notAcquired : call ≠ .acquire key) :
      Changes limits key call now answer (some e) none
  | opened (acquired : call = .acquire key) (granted : answer = .admitted true) :
      Changes limits key call now answer none
        (some { connections := 1, tokens := limits.messageBurst, updated := now, seen := now })
  | joined {e : Entry} (acquired : call = .acquire key) (granted : answer = .admitted true)
      (room : e.connections < limits.maxConnectionsPerIp) :
      Changes limits key call now answer (some e)
        (some { e with connections := e.connections + 1, seen := now })
  | left {e : Entry} {seen : ℚ} (released : call = .release key) (held : 0 < e.connections) :
      Changes limits key call now answer (some e)
        (some { e with connections := e.connections - 1, seen })
  | refused {e : Entry} (taken : call = .take key) (held : 0 < e.connections)
      (empty : refill limits e now < 1)
      (delay : answer =
        .delay ⌈(1 - refill limits e now) * 1000 / (limits.messagesPerSecond : ℚ)⌉) :
      Changes limits key call now answer (some e)
        (some { e with tokens := refill limits e now, updated := now })
  | paid {e : Entry} (taken : call = .take key) (held : 0 < e.connections)
      (enough : 1 ≤ refill limits e now) (free : answer = .delay 0) :
      Changes limits key call now answer (some e)
        (some { e with tokens := refill limits e now - 1, updated := now })

/-- What a step does: the invariant holds on, and every entry changes in one of those ways. -/
structure Steps (limits : Limits) (b b' : Budget) (call : Call) (now : ℚ) (answer : Answer) :
    Prop where
  inv : Inv limits b'
  changes : ∀ key, Changes limits key call now answer (b.entries.get? key) (b'.entries.get? key)

theorem refill_bounds {e : Entry} (tokens : 0 ≤ e.tokens) (now : ℚ) :
    0 ≤ refill limits e now ∧ refill limits e now ≤ limits.messageBurst := by
  have added : 0 ≤ max 0 (now - e.updated) * limits.messagesPerSecond / 1000 := by positivity
  have burst : (0 : ℚ) ≤ limits.messageBurst := by positivity
  exact ⟨le_min burst (by linarith), min_le_left _ _⟩

/-- Some idle entries are given up, the others stay as they are. -/
def Drops (b b' : Budget) : Prop :=
  ∀ key, b'.entries.get? key = b.entries.get? key ∨
    (∃ e, b.entries.get? key = some e ∧ e.connections = 0) ∧ b'.entries.get? key = none

theorem Drops.rfl {b : Budget} : Drops b b := fun _ => .inl (Eq.refl _)

theorem Drops.trans {b b' b'' : Budget} (first : Drops b b') (second : Drops b' b'') :
    Drops b b'' := by
  intro key
  rcases second key with same | ⟨⟨e, found, zero⟩, gone⟩
  · rw [same]
    exact first key
  · right
    rcases first key with same | ⟨_, none_⟩
    · exact ⟨⟨e, same ▸ found, zero⟩, gone⟩
    · rw [none_] at found
      cases found

theorem inv_drop {b : Budget} (inv : Inv limits b) {key : String} (idle : key ∈ b.idle) :
    let b' : Budget := { entries := b.entries.delete key, idle := removeFrom b.idle key }
    Inv limits b' ∧ Drops b b' ∧ b'.entries.size < limits.maxIpEntries := by
  intro b'
  obtain ⟨e, found, zero⟩ := (inv.idle key).mp idle
  have known : (b.entries.get? key).isSome := by
    rw [found]
    exact Eq.refl _
  have fewer : b'.entries.size < limits.maxIpEntries :=
    Nat.lt_of_lt_of_le (b.entries.size_delete_lt known) inv.size
  have kept : ∀ {k entry}, b'.entries.get? k = some entry →
      key ≠ k ∧ b.entries.get? k = some entry := by
    intro k entry still
    change (b.entries.delete key).get? k = some entry at still
    rw [Registry.get?_delete] at still
    split at still
    · cases still
    next differs => exact ⟨differs, still⟩
  refine ⟨⟨Nat.le_of_lt fewer, fun k entry still => inv.connections k entry (kept still).2,
    fun k entry still => inv.tokens k entry (kept still).2, ?_⟩, ?_, fewer⟩
  · intro k
    change k ∈ removeFrom b.idle key ↔ _
    rw [mem_removeFrom, inv.idle]
    constructor
    · rintro ⟨⟨entry, still, none_⟩, differs⟩
      exact ⟨entry, (Registry.get?_delete_ne _ fun same => differs same.symm).trans still, none_⟩
    · rintro ⟨entry, still, none_⟩
      exact ⟨⟨entry, (kept still).2, none_⟩, fun same => (kept still).1 same.symm⟩
  · intro k
    by_cases same : key = k
    · right
      subst same
      exact ⟨⟨e, found, zero⟩, Registry.get?_delete_self _ _⟩
    · left
      exact Registry.get?_delete_ne _ same

theorem makeRoom_spec {b b' : Budget} (inv : Inv limits b) (made : makeRoom limits b = some b') :
    Inv limits b' ∧ Drops b b' ∧ b'.entries.size < limits.maxIpEntries := by
  rw [makeRoom] at made
  split at made
  next full =>
    split at made
    · cases made
    next oldest rest isIdle =>
      cases made
      apply inv_drop inv
      rw [isIdle]
      exact List.mem_cons_self
  next notFull =>
    cases made
    exact ⟨inv, Drops.rfl, Nat.lt_of_not_le notFull⟩

theorem sweepFrom_spec (now : ℚ) (keys : List String) : ∀ {b : Budget}, Inv limits b →
    (∀ key ∈ keys, b.entries.get? key = none ∨ key ∈ b.idle) →
    Inv limits (sweepFrom b now keys) ∧ Drops b (sweepFrom b now keys) := by
  induction keys with
  | nil =>
    intro b inv _
    exact ⟨inv, Drops.rfl⟩
  | cons key keys ih =>
    intro b inv idle
    rw [sweepFrom]
    split
    · exact ⟨inv, Drops.rfl⟩
    next e found =>
      split
      · exact ⟨inv, Drops.rfl⟩
      · have isIdle : key ∈ b.idle := by
          rcases idle key List.mem_cons_self with none_ | isIdle
          · rw [none_] at found
            cases found
          · exact isIdle
        obtain ⟨inv', drops, _⟩ := inv_drop inv isIdle
        have later : ∀ k ∈ keys, (b.entries.delete key).get? k = none ∨
            k ∈ removeFrom b.idle key := by
          intro k member
          by_cases same : key = k
          · left
            rw [Registry.get?_delete, if_pos same]
          · rw [Registry.get?_delete_ne _ same, mem_removeFrom]
            exact (idle k (List.mem_cons_of_mem _ member)).imp_right
              fun known => ⟨known, fun equal => same equal.symm⟩
        obtain ⟨inv'', more⟩ := ih inv' later
        exact ⟨inv'', drops.trans more⟩

theorem sweep_steps {b : Budget} (inv : Inv limits b) (now : ℚ) (answer : Answer) :
    Steps limits b (sweep b now) .sweep now answer := by
  obtain ⟨inv', drops⟩ := sweepFrom_spec now b.idle inv fun key member => .inr member
  refine ⟨inv', fun key => ?_⟩
  rcases drops key with same | ⟨⟨e, found, zero⟩, gone⟩
  · rw [sweep, same]
    exact .same _ nofun nofun nofun
  · rw [found, sweep, gone]
    exact .lost zero nofun nofun nofun

/-! ### Writing an entry -/

theorem inv_set {b : Budget} (inv : Inv limits b) {key : String} {e : Entry} {idle : List String}
    (size : (b.entries.set key e).size ≤ limits.maxIpEntries)
    (bound : e.connections ≤ limits.maxConnectionsPerIp)
    (tokens : 0 ≤ e.tokens ∧ e.tokens ≤ limits.messageBurst)
    (isIdle : key ∈ idle ↔ e.connections = 0)
    (others : ∀ k, k ≠ key → (k ∈ idle ↔ k ∈ b.idle)) :
    Inv limits { entries := b.entries.set key e, idle } := by
  have found : ∀ {k entry}, (b.entries.set key e).get? k = some entry →
      key = k ∧ entry = e ∨ key ≠ k ∧ b.entries.get? k = some entry := by
    intro k entry known
    rw [Registry.get?_set] at known
    split at known
    next same => exact .inl ⟨same, (Option.some.inj known).symm⟩
    next differs => exact .inr ⟨differs, known⟩
  refine ⟨size, fun k entry known => ?_, fun k entry known => ?_, fun k => ?_⟩
  · rcases found known with ⟨_, rfl⟩ | ⟨_, known⟩
    · exact bound
    · exact inv.connections k entry known
  · rcases found known with ⟨_, rfl⟩ | ⟨_, known⟩
    · exact tokens
    · exact inv.tokens k entry known
  · by_cases same : k = key
    · subst same
      rw [isIdle]
      constructor
      · intro zero
        exact ⟨e, Registry.get?_set_self _ _ _, zero⟩
      · rintro ⟨entry, known, zero⟩
        rcases found known with ⟨_, rfl⟩ | ⟨differs, _⟩
        · exact zero
        · exact absurd rfl differs
    · change k ∈ idle ↔ ∃ entry, (b.entries.set key e).get? k = some entry ∧ entry.connections = 0
      rw [others k same, inv.idle, Registry.get?_set_ne _ _ fun equal => same equal.symm]

@[simp] theorem mem_idleNow {idle : List String} {key k : String} :
    k ∈ idleNow idle key ↔ k ∈ idle ∨ k = key := by
  rw [idleNow, List.mem_append, mem_removeFrom, List.mem_singleton]
  by_cases same : k = key
  · simp [same]
  · simp [same]

theorem others_same {b : Budget} {key k : String} {e : Entry} {call : Call} {now : ℚ}
    {answer : Answer} (differs : key ≠ k)
    (about : call = .acquire key ∨ call = .release key ∨ call = .take key) :
    Changes limits k call now answer (b.entries.get? k) ((b.entries.set key e).get? k) := by
  rw [Registry.get?_set_ne _ _ differs]
  rcases about with rfl | rfl | rfl
  · exact .same _ nofun nofun fun same => absurd (Call.acquire.inj same) differs
  · exact .same _ (fun same => absurd (Call.release.inj same) differs) nofun nofun
  · exact .same _ nofun (fun same => absurd (Call.take.inj same) differs) nofun

theorem release_steps {b : Budget} (inv : Inv limits b) {key : String} (now : ℚ)
    (held : 0 < connections b key) (answer : Answer) :
    Steps limits b (release b key now) (.release key) now answer := by
  rw [connections] at held
  split at held
  next e found =>
    have known : (b.entries.get? key).isSome := by
      rw [found]
      exact Eq.refl _
    have bound := inv.connections key e found
    have size : ∀ e', (b.entries.set key e').size ≤ limits.maxIpEntries := by
      intro e'
      rw [b.entries.size_set_known known]
      exact inv.size
    rw [release, found]
    simp only
    split
    next zero =>
      refine ⟨inv_set inv (size _) (by simp only; omega) (inv.tokens key e found) (by simp [zero])
        fun k differs => by simp [differs], fun k => ?_⟩
      by_cases same : key = k
      · subst same
        rw [found, Registry.get?_set_self]
        exact .left (Eq.refl _) held
      · exact others_same same (.inr (.inl (Eq.refl _)))
    next more =>
      refine ⟨inv_set inv (size _) (by simp only; omega) (inv.tokens key e found) ?_
        fun k differs => Iff.rfl, fun k => ?_⟩
      · rw [inv.idle, found]
        simp [more]
        omega
      by_cases same : key = k
      · subst same
        rw [found, Registry.get?_set_self]
        exact .left (Eq.refl _) held
      · exact others_same same (.inr (.inl (Eq.refl _)))
  · cases held

theorem take_steps {b b' : Budget} (inv : Inv limits b) {key : String} {now : ℚ} {delay : ℤ}
    (held : 0 < connections b key) (taken : take limits b key now = some (delay, b')) :
    Steps limits b b' (.take key) now (.delay delay) := by
  rw [connections] at held
  split at held
  next e found =>
    have known : (b.entries.get? key).isSome := by
      rw [found]
      exact Eq.refl _
    have bound := inv.connections key e found
    have size : ∀ e', (b.entries.set key e').size ≤ limits.maxIpEntries := by
      intro e'
      rw [b.entries.size_set_known known]
      exact inv.size
    have notIdle : key ∈ b.idle ↔ e.connections = 0 := by
      rw [inv.idle, found]
      simp
    obtain ⟨low, high⟩ := @refill_bounds limits e (inv.tokens key e found).1 now
    have busy : e.connections ≠ 0 := by omega
    rw [take, found] at taken
    simp only [if_neg busy] at taken
    split at taken
    next empty =>
      cases taken
      refine ⟨inv_set inv (size _) bound ⟨low, high⟩ notIdle fun k _ => Iff.rfl, fun k => ?_⟩
      by_cases same : key = k
      · subst same
        rw [found, Registry.get?_set_self]
        exact .refused (Eq.refl _) held empty (Eq.refl _)
      · exact others_same same (.inr (.inr (Eq.refl _)))
    next enough =>
      cases taken
      have paid : 0 ≤ refill limits e now - 1 ∧
          refill limits e now - 1 ≤ (limits.messageBurst : ℚ) := by
        constructor <;> linarith
      refine ⟨inv_set inv (size _) bound paid notIdle fun k _ => Iff.rfl, fun k => ?_⟩
      by_cases same : key = k
      · subst same
        rw [found, Registry.get?_set_self]
        exact .paid (Eq.refl _) held (not_lt.mp enough) (Eq.refl _)
      · exact others_same same (.inr (.inr (Eq.refl _)))
  · cases held

/-! ### Acquiring -/

theorem admit_steps {b : Budget} (inv : Inv limits b) {key : String} {e : Entry} (now : ℚ)
    (found : b.entries.get? key = some e) :
    Steps limits b (admitPeer limits b key e now).2 (.acquire key) now
      (.admitted (admitPeer limits b key e now).1) := by
  rw [admitPeer]
  split
  next full =>
    refine ⟨inv, fun k => ?_⟩
    exact .same _ nofun nofun fun _ => Eq.refl _
  next room =>
    have known : (b.entries.get? key).isSome := by
      rw [found]
      exact Eq.refl _
    have size : (b.entries.set key { e with connections := e.connections + 1, seen := now }).size
        ≤ limits.maxIpEntries := by
      rw [b.entries.size_set_known known]
      exact inv.size
    refine ⟨inv_set inv size (by simp only; omega) (inv.tokens key e found) (by simp)
      fun k differs => by simp [differs], fun k => ?_⟩
    by_cases same : key = k
    · subst same
      rw [found, Registry.get?_set_self]
      exact .joined (Eq.refl _) (Eq.refl _) (Nat.lt_of_not_le room)
    · exact others_same same (.inl (Eq.refl _))

theorem admit_new_steps {b : Budget} (inv : Inv limits b) {key : String} (now : ℚ)
    (size : b.entries.size < limits.maxIpEntries) (new : b.entries.get? key = none) :
    let e : Entry := { connections := 0, tokens := limits.messageBurst, updated := now, seen := now }
    let admitted := admitPeer limits { b with entries := b.entries.set key e } key e now
    Steps limits b admitted.2 (.acquire key) now (.admitted admitted.1) := by
  intro e admitted
  have positive := limits.connections_pos
  have isAdmitted : admitted =
      (true,
        { entries := (b.entries.set key e).set key { e with connections := 1, seen := now }
          idle := removeFrom b.idle key }) := if_neg (Nat.not_le_of_lt positive)
  rw [isAdmitted]
  have twice : ∀ e', ((b.entries.set key e).set key e').size ≤ limits.maxIpEntries := by
    intro e'
    rw [Registry.size_set_known, b.entries.size_set_new new]
    · exact size
    · rw [Registry.get?_set_self]
      exact Eq.refl _
  have once : (b.entries.set key e).size ≤ limits.maxIpEntries := by
    rw [b.entries.size_set_new new]
    exact size
  have burst : (0 : ℚ) ≤ limits.messageBurst := by positivity
  have first : Inv limits { entries := b.entries.set key e, idle := idleNow b.idle key } :=
    inv_set inv once (Nat.zero_le _) ⟨burst, le_refl _⟩ (by simp [e]) fun k differs => by
      simp [differs]
  have second := @inv_set limits { entries := b.entries.set key e, idle := idleNow b.idle key } first
    key { e with connections := 1, seen := now } (removeFrom b.idle key) (twice _) positive
    ⟨burst, le_refl _⟩ (by simp) fun k differs => by simp [differs]
  refine ⟨second, fun k => ?_⟩
  by_cases same : key = k
  · subst same
    rw [new, Registry.get?_set_self]
    exact .opened (Eq.refl _) (Eq.refl _)
  · rw [Registry.get?_set_ne _ _ same]
    exact others_same same (.inl (Eq.refl _))

theorem Steps.after_drops {b mid b' : Budget} {key : String} {now : ℚ} {answer : Answer}
    (steps : Steps limits mid b' (.acquire key) now answer) (drops : Drops b mid)
    (kept : mid.entries.get? key = b.entries.get? key) :
    Steps limits b b' (.acquire key) now answer := by
  refine ⟨steps.inv, fun k => ?_⟩
  rcases drops k with same | ⟨⟨e, found, zero⟩, gone⟩
  · rw [← same]
    exact steps.changes k
  · have differs : Call.acquire key ≠ .acquire k := by
      intro same
      rw [Call.acquire.inj same, gone, found] at kept
      cases kept
    have change := steps.changes k
    rw [gone] at change
    rw [found]
    generalize b'.entries.get? k = entry at change
    cases change with
    | same => exact .lost zero nofun nofun differs
    | opened acquired => exact absurd acquired differs

theorem acquire_steps {b : Budget} (inv : Inv limits b) (key : String) (now : ℚ) :
    Steps limits b (acquire limits b key now).2 (.acquire key) now
      (.admitted (acquire limits b key now).1) := by
  rw [acquire]
  split
  next e found => exact admit_steps inv now found
  next new =>
    split
    next noRoom =>
      refine ⟨inv, fun k => ?_⟩
      exact .same _ nofun nofun fun _ => Eq.refl _
    next mid made =>
      obtain ⟨inv', drops, size⟩ := makeRoom_spec inv made
      have new' : mid.entries.get? key = none := by
        rcases drops key with same | ⟨_, gone⟩
        · rw [same, new]
        · exact gone
      exact (admit_new_steps inv' now size new').after_drops drops (by rw [new, new'])

/-! ### Any step -/

theorem step_steps {b b' : Budget} (inv : Inv limits b) {call : Call} {now : ℚ} {answer : Answer}
    (allowed : Allowed b call) (stepped : step limits b call now = some (answer, b')) :
    Steps limits b b' call now answer := by
  cases call with
  | acquire key =>
    cases stepped
    exact acquire_steps inv key now
  | release key =>
    cases stepped
    exact release_steps inv now allowed _
  | take key =>
    rw [step, Option.map_eq_some_iff] at stepped
    obtain ⟨⟨delay, after⟩, taken, same⟩ := stepped
    cases same
    exact take_steps inv allowed taken
  | sweep =>
    cases stepped
    exact sweep_steps inv now _

theorem runs_inv {b b' : Budget} {events : List Event} (inv : Inv limits b)
    (runs : Runs limits b events b') : Inv limits b' := by
  induction runs with
  | done => exact inv
  | step allowed steps _ ih => exact ih (step_steps inv allowed steps).inv

theorem take_answers {b : Budget} {key : String} (now : ℚ) (held : 0 < connections b key) :
    ∃ answer b', step limits b (.take key) now = some (answer, b') := by
  rw [connections] at held
  split at held
  next e found =>
    rw [step, take, found]
    simp only
    split
    · exact ⟨_, _, Eq.refl _⟩
    · exact ⟨_, _, Eq.refl _⟩
  · cases held

/-! ### Counting connections -/

def grants (key : String) (event : Event) : Bool :=
  event.call = .acquire key ∧ event.answer = .admitted true

def releases (key : String) (event : Event) : Bool := event.call = .release key

/-- A take of the key that is let through. -/
def passes (key : String) (event : Event) : Bool :=
  event.call = .take key ∧ event.answer = .delay 0

/-- The connections an entry has; one that is missing has none. -/
def held : Option Entry → Nat
  | some e => e.connections
  | none => 0

theorem connections_eq (b : Budget) (key : String) :
    connections b key = held (b.entries.get? key) := by
  unfold connections held
  cases b.entries.get? key with
  | none => rfl
  | some e => rfl

theorem changes_held {key : String} {event : Event} {entry entry' : Option Entry}
    (changes : Changes limits key event.call event.now event.answer entry entry') :
    held entry' + (if releases key event then 1 else 0) =
      held entry + (if grants key event then 1 else 0) := by
  cases changes with
  | same _ other notTaken notGranted =>
    have nothing : grants key event = false := by
      rw [grants, decide_eq_false_iff_not]
      rintro ⟨acquired, granted⟩
      rw [notGranted acquired] at granted
      cases granted
    simp [releases, other, nothing]
  | lost idle other _ notAcquired => simp [held, idle, releases, grants, other, notAcquired]
  | opened acquired granted => simp [held, releases, grants, acquired, granted]
  | joined acquired granted => simp [held, releases, grants, acquired, granted]
  | left released positive =>
    simp only [held, releases, grants, released]
    simp
    omega
  | refused taken => simp [held, releases, grants, taken]
  | paid taken => simp [held, releases, grants, taken]

theorem runs_held {b b' : Budget} {events : List Event} (inv : Inv limits b) (key : String)
    (runs : Runs limits b events b') :
    connections b' key + events.countP (releases key) =
      connections b key + events.countP (grants key) := by
  induction runs with
  | done => rfl
  | step allowed steps _ ih =>
    have stepped := step_steps inv allowed steps
    have later := ih stepped.inv
    have first := changes_held (stepped.changes key)
    rw [← connections_eq, ← connections_eq] at first
    rw [List.countP_cons, List.countP_cons]
    omega

theorem changes_kept {key : String} {call : Call} {now : ℚ} {answer : Answer}
    {entry entry' : Option Entry} (changes : Changes limits key call now answer entry entry')
    (connected : 0 < held entry) : entry'.isSome := by
  cases changes with
  | same =>
    cases entry with
    | none => cases connected
    | some e => rfl
  | lost idle =>
    rw [held, idle] at connected
    cases connected
  | opened | joined | left | refused | paid => rfl

/-! ### Messages in a window -/

/-- What the tokens of an entry still allow, when `passed` messages were let through since `a`:
none yet, or all of them were paid from one burst and what was filled in since. -/
def Paid (limits : Limits) (a : ℚ) (passed : Nat) (later : List Event) (e : Entry) : Prop :=
  passed = 0 ∨
    a ≤ e.updated ∧ (∀ event ∈ later, e.updated ≤ event.now) ∧
      passed + e.tokens ≤ limits.messageBurst + (e.updated - a) * limits.messagesPerSecond / 1000

theorem paid_bound {a T : ℚ} {passed : Nat} {e : Entry} (tokens : 0 ≤ e.tokens)
    (bound : e.updated ≤ a + T)
    (paid : passed + e.tokens ≤
      limits.messageBurst + (e.updated - a) * limits.messagesPerSecond / 1000) :
    (passed : ℚ) ≤ limits.messageBurst + limits.messagesPerSecond * T / 1000 := by
  have rate : (0 : ℚ) ≤ limits.messagesPerSecond := by positivity
  have filled : (e.updated - a) * limits.messagesPerSecond ≤ T * limits.messagesPerSecond :=
    mul_le_mul_of_nonneg_right (by linarith) rate
  linarith

theorem refill_paid {a now : ℚ} {passed : Nat} {e : Entry} (after : e.updated ≤ now)
    (paid : passed + e.tokens ≤
      limits.messageBurst + (e.updated - a) * limits.messagesPerSecond / 1000) :
    passed + refill limits e now ≤
      limits.messageBurst + (now - a) * limits.messagesPerSecond / 1000 := by
  have added : refill limits e now ≤
      e.tokens + max 0 (now - e.updated) * limits.messagesPerSecond / 1000 := min_le_right _ _
  rw [max_eq_right (by linarith)] at added
  have split : (now - a) * (limits.messagesPerSecond : ℚ) =
      (e.updated - a) * limits.messagesPerSecond + (now - e.updated) * limits.messagesPerSecond := by
    ring
  rw [split]
  linarith

theorem changes_paid {key : String} {event : Event} {later : List Event} {a : ℚ} {passed : Nat}
    {e e' : Entry} (tokens : 0 ≤ e.tokens) (inWindow : a ≤ event.now)
    (ordered : ∀ next ∈ later, event.now ≤ next.now)
    (changes : Changes limits key event.call event.now event.answer (some e) (some e'))
    (paid : Paid limits a passed (event :: later) e) :
    Paid limits a (passed + if passes key event then 1 else 0) later e' := by
  have filled : (0 : ℚ) ≤ (event.now - a) * limits.messagesPerSecond :=
    mul_nonneg (by linarith) (by positivity)
  -- whatever else a call does, what was paid for stays paid for
  have kept : ∀ {e'' : Entry}, passes key event = false → e''.updated = e.updated →
      e''.tokens = e.tokens →
      Paid limits a (passed + if passes key event then 1 else 0) later e'' := by
    intro e'' notPassed sameTime sameTokens
    rw [notPassed]
    rcases paid with none_ | ⟨began, before, bound⟩
    · exact .inl none_
    · refine .inr ⟨?_, fun next member => ?_, ?_⟩
      · rw [sameTime]
        exact began
      · rw [sameTime]
        exact before next (List.mem_cons_of_mem _ member)
      · rw [sameTime, sameTokens]
        exact bound
  cases changes with
  | same _ _ notTaken => exact kept (by simp [passes, notTaken]) rfl rfl
  | joined acquired => exact kept (by simp [passes, acquired]) rfl rfl
  | left released => exact kept (by simp [passes, released]) rfl rfl
  | refused taken _ empty delay =>
    have notPassed : passes key event = false := by
      have positive : 0 < (1 - refill limits e event.now) * 1000 / (limits.messagesPerSecond : ℚ) :=
        div_pos (by linarith) (Nat.cast_pos.mpr limits.rate_pos)
      have nonzero := (Int.ceil_pos.mpr positive).ne'
      rw [passes, delay, decide_eq_false_iff_not]
      rintro ⟨_, free⟩
      exact nonzero (Answer.delay.inj free)
    rw [notPassed]
    rcases paid with none_ | ⟨began, before, bound⟩
    · exact .inl none_
    · exact .inr ⟨inWindow, ordered, refill_paid (before event List.mem_cons_self) bound⟩
  | paid taken _ enough free =>
    have passed' : passes key event = true := by simp [passes, taken, free]
    rw [passed']
    refine .inr ⟨inWindow, ordered, ?_⟩
    rcases paid with none_ | ⟨began, before, bound⟩
    · have burst := (@refill_bounds limits e tokens event.now).2
      rw [none_]
      simp only [if_true]
      push_cast
      linarith
    · have more := refill_paid (before event List.mem_cons_self) bound
      simp only [if_true]
      push_cast
      linarith

theorem runs_paid {b b' : Budget} {window : List Event} (inv : Inv limits b) {key : String}
    {a T : ℚ} (length : 0 ≤ T) (runs : Runs limits b window b') (ordered : Ordered window)
    (inWindow : ∀ event ∈ window, a ≤ event.now ∧ event.now ≤ a + T)
    (stays : ∀ first rest mid, window = first ++ rest → Runs limits b first mid →
      (mid.entries.get? key).isSome)
    {passed : Nat} {e : Entry} (found : b.entries.get? key = some e)
    (paid : Paid limits a passed window e) (early : passed = 0 ∨ e.updated ≤ a + T) :
    ((passed + window.countP (passes key) : Nat) : ℚ) ≤
      limits.messageBurst + limits.messagesPerSecond * T / 1000 := by
  induction runs generalizing passed e with
  | done b =>
    have nonneg := (inv.tokens key e found).1
    rw [List.countP_nil, Nat.add_zero]
    rcases paid with none_ | ⟨began, _, bound⟩
    · rw [none_]
      push_cast
      positivity
    · rcases early with none_ | bounded
      · rw [none_]
        push_cast
        positivity
      · exact paid_bound nonneg bounded bound
  | @step b mid b'' event events allowed steps later ih =>
    have stepped := step_steps inv allowed steps
    have once : Runs limits b [event] mid := .step allowed steps (.done mid)
    obtain ⟨e', found'⟩ := Option.isSome_iff_exists.mp
      (stays [event] events mid rfl once)
    have change := stepped.changes key
    rw [found, found'] at change
    rw [Ordered, List.map_cons, List.pairwise_cons] at ordered
    have after : ∀ next ∈ events, event.now ≤ next.now :=
      fun next member => ordered.1 next.now (List.mem_map_of_mem member)
    have here := inWindow event List.mem_cons_self
    have paid' := changes_paid (inv.tokens key e found).1 here.1 after change paid
    have early' : passed + (if passes key event then 1 else 0) = 0 ∨ e'.updated ≤ a + T := by
      cases change with
      | same _ _ notTaken => simpa [passes, notTaken] using early
      | joined acquired => simpa [passes, acquired] using early
      | left released => simpa [passes, released] using early
      | refused | paid => exact .inr here.2
    have bound := ih stepped.inv ordered.2
      (fun next member => inWindow next (List.mem_cons_of_mem _ member))
      (fun first rest m same runs => stays (event :: first) rest m (by rw [same]; rfl)
        (.step allowed steps runs))
      found' paid' early'
    rw [List.countP_cons]
    rw [Nat.add_assoc, Nat.add_comm (if passes key event then 1 else 0)] at bound
    exact bound

/-! ### Waiting -/

/-- While nothing is taken, an entry that was updated last by a refused take still has what that
left, or it has a token. -/
def Waits (tokens now : ℚ) (entry : Option Entry) : Prop :=
  ∀ e, entry = some e → e.tokens = tokens ∧ e.updated = now ∨ 1 ≤ e.tokens

theorem changes_waits {key : String} {event : Event} {tokens now : ℚ} {entry entry' : Option Entry}
    (changes : Changes limits key event.call event.now event.answer entry entry')
    (notTaken : event.call ≠ .take key) (waits : Waits tokens now entry) :
    Waits tokens now entry' := by
  intro e' same
  cases changes with
  | same => exact waits e' same
  | lost => cases same
  | opened =>
    cases same
    right
    exact Nat.one_le_cast.mpr limits.burst_pos
  | @joined e | @left e =>
    cases same
    exact waits e rfl
  | refused taken | paid taken => exact absurd taken notTaken

theorem runs_waits {b b' : Budget} {events : List Event} (inv : Inv limits b) {key : String}
    {tokens now : ℚ} (runs : Runs limits b events b')
    (notTaken : ∀ event ∈ events, event.call ≠ .take key)
    (waits : Waits tokens now (b.entries.get? key)) :
    Waits tokens now (b'.entries.get? key) := by
  induction runs with
  | done => exact waits
  | step allowed steps _ ih =>
    have stepped := step_steps inv allowed steps
    have first := changes_waits (stepped.changes key) (notTaken _ List.mem_cons_self) waits
    exact ih stepped.inv (fun next member => notTaken next (List.mem_cons_of_mem _ member)) first

theorem refill_waits {e : Entry} {tokens now later : ℚ}
    (waits : e.tokens = tokens ∧ e.updated = now ∨ 1 ≤ e.tokens)
    (waited : now + ⌈(1 - tokens) * 1000 / (limits.messagesPerSecond : ℚ)⌉ ≤ later) :
    1 ≤ refill limits e later := by
  have rate : (0 : ℚ) < limits.messagesPerSecond := Nat.cast_pos.mpr limits.rate_pos
  have burst : (1 : ℚ) ≤ limits.messageBurst := by exact_mod_cast limits.burst_pos
  apply le_min burst
  rcases waits with ⟨sameTokens, sameTime⟩ | enough
  · have ceil := Int.le_ceil ((1 - tokens) * 1000 / (limits.messagesPerSecond : ℚ))
    have passed : (1 - tokens) * 1000 / (limits.messagesPerSecond : ℚ) ≤ later - now := by linarith
    rw [div_le_iff₀ rate] at passed
    have positive : (later - now) * (limits.messagesPerSecond : ℚ) ≤
        max 0 (later - now) * limits.messagesPerSecond :=
      mul_le_mul_of_nonneg_right (le_max_right _ _) rate.le
    rw [sameTokens, sameTime]
    linarith
  · have added : 0 ≤ max 0 (later - e.updated) * limits.messagesPerSecond / 1000 := by positivity
    linarith

theorem take_waited {b : Budget} (inv : Inv limits b) {key : String} {tokens now later : ℚ}
    (held : 0 < connections b key) (waits : Waits tokens now (b.entries.get? key))
    (waited : now + ⌈(1 - tokens) * 1000 / (limits.messagesPerSecond : ℚ)⌉ ≤ later) :
    ∃ b', step limits b (.take key) later = some (.delay 0, b') := by
  obtain ⟨answer, b', answered⟩ := @take_answers limits b key later held
  have allowed : Allowed b (.take key) := held
  have change := (step_steps inv allowed answered).changes key
  rw [connections_eq] at held
  generalize b.entries.get? key = entry at change held waits
  generalize b'.entries.get? key = entry' at change
  cases change with
  | same _ _ notTaken => exact absurd rfl notTaken
  | lost idle _ notTaken => exact absurd rfl notTaken
  | opened | joined | left => contradiction
  | @refused e _ _ empty =>
    have enough := refill_waits (waits e rfl) waited
    linarith
  | paid _ _ _ free =>
    rw [free] at answered
    exact ⟨b', answered⟩

/-! ### Fair budgets -/

/-- In any run: entries and connections are bounded, a key holds as many connections as it was
granted since its entry was made and did not release, an entry with a connection stays, and while an
entry stays, the takes let through in a window of `T` milliseconds are at most a burst and what `T`
fills in; once the delay of a refused take has passed, with no take in between, a take is let
through. -/
theorem ipBudget_fair (limits : Limits) (key : String) :
    (∀ events b, Runs limits {} events b →
      b.entries.size ≤ limits.maxIpEntries ∧ connections b key ≤ limits.maxConnectionsPerIp) ∧
    (∀ before mid after b, Runs limits {} before mid → mid.entries.get? key = none →
      Runs limits mid after b →
      connections b key + after.countP (releases key) = after.countP (grants key)) ∧
    (∀ events b call now answer b', Runs limits {} events b → Allowed b call →
      step limits b call now = some (answer, b') →
      0 < connections b key → (b'.entries.get? key).isSome) ∧
    (∀ before mid window b (a T : ℚ), 0 ≤ T → Runs limits {} before mid →
      Runs limits mid window b → Ordered window →
      (∀ event ∈ window, a ≤ event.now ∧ event.now ≤ a + T) →
      (∀ first rest m, window = first ++ rest → Runs limits mid first m →
        (m.entries.get? key).isSome) →
      (window.countP (passes key) : ℚ) ≤
        limits.messageBurst + limits.messagesPerSecond * T / 1000) ∧
    ∀ before mid now delay m waiting b later, Runs limits {} before mid → Allowed mid (.take key) →
      step limits mid (.take key) now = some (.delay delay, m) → delay ≠ 0 →
      Runs limits m waiting b → (∀ event ∈ waiting, event.call ≠ .take key) →
      Allowed b (.take key) → now + delay ≤ later →
      ∃ b', step limits b (.take key) later = some (.delay 0, b') := by
  have reached : ∀ {events b}, Runs limits {} events b → Inv limits b := runs_inv inv_start
  refine ⟨?_, ?_, ?_, ?_, ?_⟩
  · intro events b runs
    have inv := reached runs
    refine ⟨inv.size, ?_⟩
    rw [connections]
    split
    next e found => exact inv.connections key e found
    · exact Nat.zero_le _
  · intro before mid after b runs missing more
    have counted := runs_held (reached runs) key more
    have nothing : connections mid key = 0 := by
      rw [connections_eq, missing, held]
    rw [nothing, Nat.zero_add] at counted
    exact counted
  · intro events b call now answer b' runs allowed stepped connected
    rw [connections_eq] at connected
    exact changes_kept ((step_steps (reached runs) allowed stepped).changes key) connected
  · intro before mid window b a T length runs more ordered inWindow stays
    obtain ⟨e, found⟩ := Option.isSome_iff_exists.mp (stays [] window mid rfl (.done mid))
    have bound := runs_paid (reached runs) length more ordered inWindow stays found
      (.inl rfl) (.inl rfl)
    rw [Nat.zero_add] at bound
    exact bound
  · intro before mid now delay m waiting b later runs allowed refused nonzero more notTaken again
      waited
    have stepped := step_steps (reached runs) allowed refused
    have change := stepped.changes key
    have start : ∃ tokens, (delay : ℚ) = ⌈(1 - tokens) * 1000 / (limits.messagesPerSecond : ℚ)⌉ ∧
        Waits tokens now (m.entries.get? key) := by
      generalize mid.entries.get? key = entry at change
      generalize m.entries.get? key = entry' at change
      cases change with
      | same _ _ notTaken => exact absurd rfl notTaken
      | lost _ _ notTaken => exact absurd rfl notTaken
      | opened | joined | left => contradiction
      | @refused e _ _ _ isDelay =>
        refine ⟨refill limits e now, by rw [Answer.delay.inj isDelay], fun e' same => ?_⟩
        cases same
        exact .inl ⟨rfl, rfl⟩
      | paid _ _ _ free => exact absurd (Answer.delay.inj free) nonzero
    obtain ⟨tokens, isDelay, waits⟩ := start
    rw [isDelay] at waited
    exact take_waited (runs_inv stepped.inv more) again
      (runs_waits stepped.inv more notTaken waits) waited

end Ace.Relay.IpBudget
