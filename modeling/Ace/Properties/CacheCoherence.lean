import Ace.Daemon.ThreadCache

/-!
# Coherence of the thread cache

The store writes, reads and ends its transactions, and others use the connection in between. A
cached thread is tied to the revision of its row; the committed layer holds what is `Kept`, the
pending layer what is `Seen` by the open transaction.

## Main result

`reads_of_reachable`
-/

namespace Ace.Daemon

open Script Script.Versions

/-! ### Bounded caches -/

namespace BoundedCache

variable {V : Type} {cache : BoundedCache V} {key k : String} {slot : Slot V}

theorem delete_entries (found : (cache.delete key).entries.get? k = some slot) :
    cache.entries.get? k = some slot := by
  unfold delete at found
  split at found
  next => exact found
  next =>
    rw [Registry.get?_delete] at found
    split at found
    · cases found
    · exact found

theorem get_value : (cache.get key).1 = (cache.entries.get? key).map (·.value) := by
  unfold get
  split
  next absent => simp [absent]
  next slot here => simp [here]

theorem get_entries (found : (cache.get key).2.entries.get? k = some slot) :
    cache.entries.get? k = some slot := by
  unfold get at found
  split at found
  next => exact found
  next here =>
    rw [Registry.get?_set, Registry.get?_delete] at found
    split at found
    next same => rw [← same, here, found]
    next => exact found

theorem evict_entries (fuel : Nat) (found : (evict fuel cache).entries.get? k = some slot) :
    cache.entries.get? k = some slot := by
  induction fuel generalizing cache with
  | zero => exact found
  | succ fuel ih =>
    unfold evict at found
    split at found
    · split at found
      next => exact found
      next => exact delete_entries (ih found)
    · exact found

theorem set_entries {value : V} {bytes : Nat}
    (found : (cache.set key value bytes).entries.get? k = some slot) :
    k = key ∧ slot.value = value ∨ cache.entries.get? k = some slot := by
  simp only [set] at found
  split at found
  · exact .inr (delete_entries found)
  · have kept := evict_entries _ found
    rw [Registry.get?_set] at kept
    split at kept
    next same =>
      cases kept
      exact .inl ⟨same.symm, rfl⟩
    next => exact .inr (delete_entries kept)

end BoundedCache

/-! ### The connection and its cache -/

structure World (Thread : Type) where
  db : ThreadTable
  cache : ThreadCache Thread

section

variable {Thread ε : Type} (decodeThreadRow : ThreadRow → Except ε Thread)

/-- What the store, its cache and others do on the connection. A transaction of the store is one
that the cache was told about. -/
inductive Step : World Thread → World Thread → Prop where
  /-- Anyone inserts or updates a row. -/
  | write (w : World Thread) (row : ThreadRow) (revision : Nat) (fresh : w.db.now.high < revision) :
      Step w { w with db := w.db.write row.id row revision }
  | delete (w : World Thread) (id : String) : Step w { w with db := w.db.delete id }
  /-- The store's writer tells the cache what it just wrote. -/
  | remember (w : World Thread) (row : ThreadRow) (revision : Nat) (thread : Thread)
      (written : Dictionary Cell) (wrote : w.db.now.rows row.id = some (row, revision))
      (decodes : decodeThreadRow (row.withRevision revision) = .ok thread) :
      Step w { w with cache := w.cache.remember row.id revision thread written }
  | rememberCreated (w : World Thread) (row : ThreadRow) (revision : Nat) (thread : Thread)
      (written : Dictionary Cell) (wrote : w.db.now.rows row.id = some (row, revision))
      (decodes : decodeThreadRow (row.withRevision revision) = .ok thread) :
      Step w { w with cache := w.cache.rememberCreated row.id revision thread written }
  /-- The store begins its transaction, with nothing open on the connection. -/
  | begin_ (w : World Thread) (idle : w.db.saved = []) :
      Step w { db := w.db.save, cache := w.cache.begin_ }
  /-- Others begin a transaction, or anyone opens a savepoint. -/
  | save (w : World Thread) : Step w { w with db := w.db.save }
  | release (w : World Thread) (inner : 1 < w.db.saved.length) :
      Step w { w with db := w.db.release }
  /-- A savepoint is rolled back, and the rows read since are discarded. -/
  | rollbackTo (w : World Thread) (n : Nat) (inner : n + 1 < w.db.saved.length) :
      Step w { db := w.db.rollbackTo n, cache := w.cache.discard }
  /-- The store's transaction commits. -/
  | commit (w : World Thread) (own : w.cache.pending.isSome = true) :
      Step w { db := w.db.commit, cache := w.cache.commit.end_ }
  | commitOther (w : World Thread) (other : w.cache.pending = none) :
      Step w { w with db := w.db.commit }
  /-- A transaction ends any other way. -/
  | rollback (w : World Thread) : Step w { db := w.db.rollback, cache := w.cache.end_ }
  | read (w : World Thread) (id : String) :
      Step w { w with cache := (w.cache.read decodeThreadRow w.db id).2 }
  | copy (w : World Thread) (id : String) :
      Step w { w with cache := (w.cache.copy decodeThreadRow w.db id).2 }
  | checkout (w : World Thread) (id : String) :
      Step w { w with cache := (w.cache.checkout decodeThreadRow w.db id).2 }
  /-- A row is decoded that a statement just returned with its revision. -/
  | decode (w : World Thread) (row : ThreadRow) (revision : Nat)
      (wrote : w.db.now.rows row.id = some (row, revision)) :
      Step w { w with cache := (w.cache.decode decodeThreadRow w.db (row.withRevision revision)
        (some (.num revision))).2 }

/-- Some committed rows, each under its id and a revision that was given out. -/
structure Opened (w : World Thread) : Prop where
  plain : w.db.saved = []
  bounded : w.db.now.Bounded
  ids : ∀ id row revision, w.db.now.rows id = some (row, revision) → row.id = id
  entries : w.cache.entries.entries = .empty
  pending : w.cache.pending = none

/-- The states that a connection comes to. -/
def Reachable (w : World Thread) : Prop :=
  ∃ opened, Opened opened ∧ Relation.ReflTransGen (Step decodeThreadRow) opened w

/-! ### Coherence -/

/-- What an entry claims about a row: under its revision, it decodes to the cached thread. -/
def Claims (names : Nat → (ThreadRow → Prop) → Prop) (entry : Entry Thread) : Prop :=
  ∃ revision : Nat, entry.revision = revision ∧
    names revision fun row => decodeThreadRow (row.withRevision revision) = .ok entry.thread

/-- Both layers claim what later writes cannot take back. -/
structure Holds (db : ThreadTable) (cache : ThreadCache Thread) : Prop where
  entries : ∀ id slot, cache.entries.entries.get? id = some slot →
    Claims decodeThreadRow (db.Kept id) slot.value
  pending : ∀ pending, cache.pending = some pending → ∀ id entry, pending.get? id = some entry →
    Claims decodeThreadRow (db.Seen id) entry

structure Coherent (w : World Thread) : Prop where
  valid : w.db.Valid
  ids : ∀ view ∈ w.db.views, ∀ id row revision, view.rows id = some (row, revision) → row.id = id
  holds : Holds decodeThreadRow w.db w.cache

variable {decodeThreadRow} {db : ThreadTable} {cache : ThreadCache Thread} {id : String}

theorem Claims.mono {names names' : Nat → (ThreadRow → Prop) → Prop} {entry : Entry Thread}
    (claims : Claims decodeThreadRow names entry)
    (weaker : ∀ revision P, names revision P → names' revision P) :
    Claims decodeThreadRow names' entry := by
  obtain ⟨revision, is_revision, named⟩ := claims
  exact ⟨revision, is_revision, weaker revision _ named⟩

theorem Holds.of_db {db' : ThreadTable} (holds : Holds decodeThreadRow db cache)
    (kept : ∀ id revision P, db.Kept id revision P → db'.Kept id revision P)
    (seen : ∀ id revision P, db.Seen id revision P → db'.Seen id revision P) :
    Holds decodeThreadRow db' cache where
  entries id slot here := (holds.entries id slot here).mono (kept id)
  pending pending is_pending id entry here :=
    (holds.pending pending is_pending id entry here).mono (seen id)

theorem Holds.getEntry (holds : Holds decodeThreadRow db cache) :
    Holds decodeThreadRow db (cache.getEntry id).2 where
  entries k slot found := holds.entries k slot (BoundedCache.get_entries found)
  pending := holds.pending

theorem Holds.store {entry : Entry Thread} (holds : Holds decodeThreadRow db cache)
    (claims : Claims decodeThreadRow (db.Kept id) entry) :
    Holds decodeThreadRow db (cache.store id entry) where
  entries k slot found := by
    rcases BoundedCache.set_entries found with ⟨rfl, value⟩ | known
    · rw [value]
      exact claims
    · exact holds.entries k slot known
  pending := holds.pending

theorem Holds.addPending {entry : Entry Thread} (holds : Holds decodeThreadRow db cache)
    (claims : Claims decodeThreadRow (db.Seen id) entry) :
    Holds decodeThreadRow db (cache.addPending id entry) := by
  unfold ThreadCache.addPending
  split
  next => exact holds
  next pending is_pending =>
    split
    · refine ⟨holds.entries, ?_⟩
      intro pending' is_pending' k entry' found
      cases is_pending'
      rw [Registry.get?_set] at found
      split at found
      next same =>
        cases found
        rw [← same]
        exact claims
      next => exact holds.pending pending is_pending k entry' found
    · exact holds

theorem Holds.end_ (holds : Holds decodeThreadRow db cache) :
    Holds decodeThreadRow db cache.end_ where
  entries := holds.entries
  pending _ impossible := by cases impossible

theorem Holds.without_pending (holds : Holds decodeThreadRow db cache)
    {pending : Option (Registry (Entry Thread))}
    (bare : ∀ entries, pending = some entries → entries = .empty) :
    Holds decodeThreadRow db { cache with pending } where
  entries := holds.entries
  pending entries is_entries k entry found := by
    rw [bare entries is_entries] at found
    cases found

theorem Holds.commit (holds : Holds decodeThreadRow db cache) (valid : db.Valid) :
    Holds decodeThreadRow db.commit cache.commit := by
  have kept : ∀ id revision P, db.Kept id revision P → db.commit.Kept id revision P :=
    fun id revision P named => (named.seen valid).commit
  -- The entries are promoted one after another.
  have promote : ∀ (entries : List (String × Entry Thread)) (cache : ThreadCache Thread),
      (∀ id entry, (id, entry) ∈ entries → Claims decodeThreadRow (db.commit.Kept id) entry) →
      Holds decodeThreadRow db.commit { cache with pending := none } →
      Holds decodeThreadRow db.commit { entries.foldl (fun cache named =>
        cache.store named.1 named.2) cache with pending := none } := by
    intro entries
    induction entries with
    | nil => exact fun _ _ holds => holds
    | cons first rest ih =>
      intro cache claims holds
      obtain ⟨id, entry⟩ := first
      refine ih _ (fun id entry member => claims id entry (List.mem_cons_of_mem _ member)) ?_
      exact holds.store (claims id entry (List.mem_cons_self ..))
  apply promote
  · intro id entry member
    cases is_pending : cache.pending with
    | none => simp [is_pending, Registry.empty] at member
    | some pending =>
      simp only [is_pending, Option.getD_some] at member
      have here := (pending.mem_entries_iff id entry).mp member
      exact (holds.pending pending is_pending id entry here).mono fun _ _ named => named.commit
  · refine ⟨fun id slot here => (holds.entries id slot here).mono (kept id), ?_⟩
    intro _ impossible
    cases impossible

/-! ### Reads -/

theorem getEntry_fst : (cache.getEntry id).1 = (cache.entries.entries.get? id).map (·.value) :=
  BoundedCache.get_value

theorem hit_exact {entry : Option (Entry Thread)} {row : ThreadRow} {revision : Nat} {thread : Thread}
    (claims : ∀ found, entry = some found →
      Claims decodeThreadRow (fun revision P => db.Names id revision P) found)
    (here : db.now.rows id = some (row, revision))
    (found : ThreadCache.hit entry (revision : ℚ) = some thread) :
    decodeThreadRow (row.withRevision revision) = .ok thread := by
  obtain ⟨known, is_known, rfl⟩ := Option.map_eq_some_iff.mp found
  obtain ⟨is_entry, same⟩ := Option.filter_eq_some_iff.mp is_known
  obtain ⟨revision', is_revision, names⟩ := claims known is_entry
  have equal : revision' = revision := by
    have cast : (revision' : ℚ) = revision := is_revision.symm.trans (of_decide_eq_true same)
    exact_mod_cast cast
  subst equal
  exact names db.now (List.mem_cons_self ..) row here

theorem Holds.entry_names (holds : Holds decodeThreadRow db cache) (found : Entry Thread)
    (is_entry : (cache.getEntry id).1 = some found) :
    Claims decodeThreadRow (fun revision P => db.Names id revision P) found := by
  rw [getEntry_fst] at is_entry
  obtain ⟨slot, here, rfl⟩ := Option.map_eq_some_iff.mp is_entry
  exact (holds.entries id slot here).mono fun _ _ named => named.2

theorem Holds.pending_names (holds : Holds decodeThreadRow db cache) (found : Entry Thread)
    (is_entry : cache.getPending id = some found) :
    Claims decodeThreadRow (fun revision P => db.Names id revision P) found := by
  obtain ⟨pending, is_pending, here⟩ := Option.bind_eq_some_iff.mp is_entry
  exact (holds.pending pending is_pending id found here).mono fun _ _ named => named.2

theorem decodeRow_exact (valid : db.Valid) (holds : Holds decodeThreadRow db cache)
    {row : ThreadRow} {revision : Nat} (here : db.now.rows row.id = some (row, revision)) :
    let result := ThreadCache.decodeRow decodeThreadRow (!db.isTransaction)
      (row.withRevision revision) (some (.num revision)) cache
    result.1 = decodeThreadRow (row.withRevision revision) ∧ Holds decodeThreadRow db result.2 := by
  intro result
  have same_id : (row.withRevision revision).id = row.id := rfl
  simp only [result, ThreadCache.decodeRow]
  split
  next => exact ⟨rfl, holds⟩
  next known is_known =>
    have equal : known = (revision : ℚ) := by
      simp only [ThreadCache.knownRevision] at is_known
      split at is_known
      · exact (Option.some.inj is_known).symm
      · cases is_known
    subst equal
    rw [same_id]
    split
    next thread found => exact ⟨(hit_exact holds.entry_names here found).symm, holds.getEntry⟩
    next =>
      split
      next thread found =>
        exact ⟨(hit_exact (holds.getEntry).pending_names here found).symm, holds.getEntry⟩
      next =>
        split
        next fault failed => exact ⟨failed.symm, holds.getEntry⟩
        next thread decoded =>
          refine ⟨decoded.symm, ?_⟩
          have seen : db.Seen row.id revision fun row =>
              decodeThreadRow (row.withRevision revision) = .ok thread := valid.seen here decoded
          split
          next committed =>
            refine holds.getEntry.store ⟨revision, rfl, seen.kept ?_⟩
            simpa [Connection.isTransaction] using committed
          next => exact holds.getEntry.addPending ⟨revision, rfl, seen⟩

def decoded (decodeThreadRow : ThreadRow → Except ε Thread) (db : ThreadTable) (id : String) :
    Except ε (Option Thread) :=
  match sourceRow db id with
  | none => .ok none
  | some row => (decodeThreadRow row).map some

theorem decodeSource_exact (valid : db.Valid)
    (ids : ∀ id row revision, db.now.rows id = some (row, revision) → row.id = id)
    (holds : Holds decodeThreadRow db cache) :
    (ThreadCache.decodeSource decodeThreadRow db id cache).1 = decoded decodeThreadRow db id ∧
      Holds decodeThreadRow db (ThreadCache.decodeSource decodeThreadRow db id cache).2 := by
  unfold ThreadCache.decodeSource decoded sourceRow
  cases here : db.now.rows id with
  | none => exact ⟨rfl, holds⟩
  | some entry =>
    obtain ⟨row, revision⟩ := entry
    obtain rfl := ids id row revision here
    have exact_ := decodeRow_exact valid holds here
    have read : (row.withRevision revision).columns.get? "row_revision" = some (.num revision) := by
      simp [ThreadRow.withRevision]
    simp only [Option.map_some, read]
    exact ⟨by rw [exact_.1], exact_.2⟩

theorem lookup_exact (valid : db.Valid)
    (ids : ∀ id row revision, db.now.rows id = some (row, revision) → row.id = id)
    (holds : Holds decodeThreadRow db cache) :
    (ThreadCache.lookup decodeThreadRow db id cache).1 = decoded decodeThreadRow db id ∧
      Holds decodeThreadRow db (ThreadCache.lookup decodeThreadRow db id cache).2 := by
  unfold ThreadCache.lookup
  split
  next => exact decodeSource_exact valid ids holds
  next revision is_revision =>
    obtain ⟨⟨row, number⟩, here, rfl⟩ := Option.map_eq_some_iff.mp is_revision
    have row_decoded : decoded decodeThreadRow db id =
        (decodeThreadRow (row.withRevision number)).map some := by
      simp [decoded, sourceRow, here]
    simp only
    split
    next thread found =>
      refine ⟨?_, holds.getEntry⟩
      rw [row_decoded, hit_exact holds.entry_names here found]
      rfl
    next =>
      split
      next thread found =>
        refine ⟨?_, holds.getEntry⟩
        rw [row_decoded, hit_exact (holds.getEntry).pending_names here found]
        rfl
      next => exact decodeSource_exact valid ids holds.getEntry

/-! ### Steps -/

theorem Opened.coherent {w : World Thread} (opened : Opened w) : Coherent decodeThreadRow w where
  valid := by
    refine ⟨fun view member => ?_, ?_⟩
    · simp only [Connection.views, opened.plain, List.mem_singleton] at member
      rw [member]
      exact opened.bounded
    · simp [Connection.views, opened.plain]
  ids view member := by
    simp only [Connection.views, opened.plain, List.mem_singleton] at member
    rw [member]
    exact opened.ids
  holds := by
    refine ⟨fun id slot here => ?_, fun pending is_pending => ?_⟩
    · rw [opened.entries] at here
      cases here
    · rw [opened.pending] at is_pending
      cases is_pending

theorem Coherent.sublist {w w' : World Thread} (coherent : Coherent decodeThreadRow w)
    (fewer : List.Sublist w'.db.views w.db.views) (holds : Holds decodeThreadRow w'.db w'.cache) :
    Coherent decodeThreadRow w' where
  valid := coherent.valid.sublist fewer
  ids view member := coherent.ids view (fewer.subset member)
  holds := holds

theorem Coherent.save {w : World Thread} (coherent : Coherent decodeThreadRow w) :
    Coherent decodeThreadRow { w with db := w.db.save } where
  valid := coherent.valid.save
  ids view member := by
    rcases List.mem_cons.mp member with rfl | saved
    · exact coherent.ids w.db.now (List.mem_cons_self ..)
    · exact coherent.ids view saved
  holds := coherent.holds.of_db (fun _ _ _ kept => kept.save) fun _ _ _ seen => ⟨seen.1, seen.2.save⟩

theorem Coherent.of_cache {w : World Thread} (coherent : Coherent decodeThreadRow w)
    {cache : ThreadCache Thread} (holds : Holds decodeThreadRow w.db cache) :
    Coherent decodeThreadRow { w with cache } where
  valid := coherent.valid
  ids := coherent.ids
  holds := holds

theorem Coherent.remembers {w : World Thread} (coherent : Coherent decodeThreadRow w)
    {row : ThreadRow} {revision : Nat} {thread : Thread} (weights : Dictionary Nat)
    (wrote : w.db.now.rows row.id = some (row, revision))
    (decodes : decodeThreadRow (row.withRevision revision) = .ok thread)
    {cache : ThreadCache Thread} (holds : Holds decodeThreadRow w.db cache) :
    Holds decodeThreadRow w.db (cache.keep row.id revision thread weights) :=
  holds.addPending ⟨revision, rfl, coherent.valid.seen wrote decodes⟩

theorem Step.coherent {w w' : World Thread} (step : Step decodeThreadRow w w')
    (coherent : Coherent decodeThreadRow w) : Coherent decodeThreadRow w' := by
  have now_ids := coherent.ids w.db.now (List.mem_cons_self ..)
  cases step with
  | write row revision fresh =>
    refine ⟨coherent.valid.write fresh, ?_, ?_⟩
    · intro view member id row' revision' here
      rcases List.mem_cons.mp member with rfl | saved
      · by_cases same : id = row.id
        · subst same
          simp only [Connection.write, View.write_rows, Function.update_self, Option.some.injEq,
            Prod.mk.injEq] at here
          rw [← here.1]
        · simp only [Connection.write, View.write_rows, Function.update_of_ne same] at here
          exact now_ids id row' revision' here
      · exact coherent.ids view (List.mem_cons_of_mem _ saved) id row' revision' here
    · exact coherent.holds.of_db (fun _ _ _ kept => kept.write coherent.valid fresh)
        fun _ _ _ seen => seen.write fresh
  | delete id =>
    refine ⟨coherent.valid.delete id, ?_, ?_⟩
    · intro view member id' row revision here
      rcases List.mem_cons.mp member with rfl | saved
      · by_cases same : id' = id
        · subst same
          simp [Connection.delete] at here
        · simp only [Connection.delete, View.delete_rows, Function.update_of_ne same] at here
          exact now_ids id' row revision here
      · exact coherent.ids view (List.mem_cons_of_mem _ saved) id' row revision here
    · exact coherent.holds.of_db (fun _ _ _ kept => kept.delete id) fun _ _ _ seen => seen.delete id
  | remember row revision thread written wrote decodes =>
    apply coherent.of_cache
    unfold ThreadCache.remember
    -- The entry that is there already only gives the weights.
    cases known : w.cache.getPending row.id with
    | some entry => exact coherent.remembers _ wrote decodes coherent.holds
    | none =>
      simp only
      split
      next => exact coherent.holds.getEntry
      next => exact coherent.remembers _ wrote decodes coherent.holds.getEntry
  | rememberCreated row revision thread written wrote decodes =>
    exact coherent.of_cache (coherent.remembers _ wrote decodes coherent.holds)
  | begin_ idle =>
    apply coherent.save.of_cache
    apply coherent.save.holds.without_pending
    rintro entries ⟨⟩
    rfl
  | save => exact coherent.save
  | release inner =>
    refine coherent.sublist (Connection.release_views w.db) ?_
    refine coherent.holds.of_db (fun _ _ _ kept => ?_) fun _ _ _ seen => ?_
    · exact ⟨by rw [Connection.release_committed inner]; exact kept.1,
        kept.2.sublist (Connection.release_views w.db)⟩
    · exact ⟨seen.1, seen.2.sublist (Connection.release_views w.db)⟩
  | rollbackTo n inner =>
    refine coherent.sublist (Connection.rollbackTo_views w.db n) ?_
    -- Revisions of the open transaction may be given out again: nothing of it is left.
    refine ⟨fun id slot here => (coherent.holds.entries id slot here).mono fun _ _ kept => ?_, ?_⟩
    · exact ⟨by rw [Connection.rollbackTo_committed inner]; exact kept.1,
        kept.2.sublist (Connection.rollbackTo_views w.db n)⟩
    · intro pending is_pending id entry found
      obtain ⟨_, -, rfl⟩ := Option.map_eq_some_iff.mp is_pending
      cases found
  | commit own =>
    refine coherent.sublist (Connection.commit_views w.db) ?_
    exact (coherent.holds.commit coherent.valid).end_
  | commitOther other =>
    refine coherent.sublist (Connection.commit_views w.db) ?_
    refine ⟨fun id slot here => (coherent.holds.entries id slot here).mono fun _ _ kept => ?_, ?_⟩
    · exact (kept.seen coherent.valid).commit
    · intro pending is_pending
      rw [other] at is_pending
      cases is_pending
  | rollback =>
    refine coherent.sublist (Connection.rollback_views w.db) ?_
    refine ⟨fun id slot here => (coherent.holds.entries id slot here).mono fun _ _ kept => ?_, ?_⟩
    · exact kept.rollback
    · intro _ impossible
      cases impossible
  | read id => exact coherent.of_cache (lookup_exact coherent.valid now_ids coherent.holds).2
  | copy id => exact coherent.of_cache (lookup_exact coherent.valid now_ids coherent.holds).2
  | checkout id => exact coherent.of_cache (lookup_exact coherent.valid now_ids coherent.holds).2
  | decode row revision wrote =>
    exact coherent.of_cache (decodeRow_exact coherent.valid coherent.holds wrote).2

theorem Reachable.coherent {w : World Thread} (reachable : Reachable decodeThreadRow w) :
    Coherent decodeThreadRow w := by
  obtain ⟨start, opened, run⟩ := reachable
  induction run with
  | refl => exact opened.coherent
  | tail _ step ih => exact step.coherent ih

/-- **Coherence.** Every read returns the decoding of the row as it stands on the connection,
committed or not. -/
theorem reads_of_reachable {w : World Thread} (reachable : Reachable decodeThreadRow w) :
    (∀ id, (w.cache.read decodeThreadRow w.db id).1 = decoded decodeThreadRow w.db id) ∧
    (∀ id, (w.cache.copy decodeThreadRow w.db id).1 = decoded decodeThreadRow w.db id) ∧
    (∀ id, (w.cache.checkout decodeThreadRow w.db id).1 =
      (decoded decodeThreadRow w.db id).map (·.map fun thread => (thread, thread))) ∧
    ∀ row revision, w.db.now.rows row.id = some (row, revision) →
      (w.cache.decode decodeThreadRow w.db (row.withRevision revision) (some (.num revision))).1 =
        decodeThreadRow (row.withRevision revision) := by
  have coherent := reachable.coherent
  have now_ids := coherent.ids w.db.now (List.mem_cons_self ..)
  have looked := fun id => (@lookup_exact _ _ _ _ _ id coherent.valid now_ids coherent.holds).1
  refine ⟨looked, looked, fun id => ?_, fun row revision wrote => ?_⟩
  · rw [← looked id]
    rfl
  · exact (decodeRow_exact coherent.valid coherent.holds wrote).1

end

/-! ### A sample -/

def sampleDecode (row : ThreadRow) : Except Unit (Option Cell) := .ok (row.columns.get? "title")

def sampleRow (title : String) : ThreadRow where
  id := "thread"
  columns := Dictionary.empty.put "title" (.text title)

def sampleWorld : World (Option Cell) where
  db := { now := { rows := fun _ => none, high := 0 } }
  cache := { entries := { maxEntries := 2, maxBytes := 1000 } }

/-- A row is created and read, a savepoint takes it back, and its revision goes to another. -/
def sampleReissued : World (Option Cell) :=
  let started : World (Option Cell) :=
    { db := sampleWorld.db.save, cache := sampleWorld.cache.begin_ }
  let nested := { started with db := started.db.save }
  let written := { nested with db := nested.db.write "thread" (sampleRow "first") 1 }
  let columns := (sampleRow "first").columns
  let created := written.cache.rememberCreated "thread" 1 (some (.text "first")) columns
  let remembered := { written with cache := created }
  let undone : World (Option Cell) :=
    { db := remembered.db.rollbackTo 0, cache := remembered.cache.discard }
  { undone with db := undone.db.write "thread" (sampleRow "second") 1 }

theorem reachable_sampleReissued : Reachable sampleDecode sampleReissued := by
  refine ⟨sampleWorld, ⟨rfl, ?_, ?_, rfl, rfl⟩, ?_⟩
  · intro k row revision impossible
    cases impossible
  · intro k row revision impossible
    cases impossible
  · refine Relation.ReflTransGen.tail ?_ (.write _ (sampleRow "second") 1 ?_)
    · refine Relation.ReflTransGen.tail ?_ (.rollbackTo _ 0 ?_)
      · refine Relation.ReflTransGen.tail ?_
          (.rememberCreated _ (sampleRow "first") 1 (some (Cell.text "first")) _ ?_ ?_)
        · refine Relation.ReflTransGen.tail ?_ (.write _ (sampleRow "first") 1 ?_)
          · refine Relation.ReflTransGen.tail ?_ (.save _)
            exact .single (.begin_ sampleWorld rfl)
          · decide
        · rfl
        · rfl
      · decide
    · decide

/-- The row that took the revision is read, not the one that was remembered under it. -/
theorem reads_of_sampleReissued :
    (sampleReissued.cache.read sampleDecode sampleReissued.db "thread").1 =
      .ok (some (some (.text "second"))) := by
  rw [(reads_of_reachable reachable_sampleReissued).1 "thread"]
  rfl

end Ace.Daemon
