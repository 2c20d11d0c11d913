import Ace.Script.Registry
import Ace.Script.Schema
import Ace.Script.Versions
import Mathlib.Algebra.BigOperators.Group.List.Basic
import Mathlib.Algebra.Order.Ring.Rat

/-!
# The thread cache

Decoded threads under the revision of their row. What was read outside a transaction is kept in
an LRU with two budgets; what the store's own transaction reads or writes waits in `pending`
until it commits.
-/

namespace Ace.Daemon

open Script Script.Versions

/-! ### Bounded caches -/

structure Slot (V : Type) where
  value : V
  bytes : Nat

/-- LRU with both entry and caller-supplied byte budgets, the oldest entry first. -/
structure BoundedCache (V : Type) where
  entries : Registry (Slot V) := .empty
  bytes : Nat := 0
  maxEntries : Nat
  maxBytes : Nat

namespace BoundedCache

variable {V : Type}

def delete (cache : BoundedCache V) (key : String) : BoundedCache V :=
  match cache.entries.get? key with
  | none => cache
  | some slot => { cache with
      entries := cache.entries.delete key
      bytes := cache.bytes - slot.bytes }

/-- The value, which is now the newest. -/
def get (cache : BoundedCache V) (key : String) : Option V × BoundedCache V :=
  match cache.entries.get? key with
  | none => (none, cache)
  | some slot => (some slot.value,
      { cache with entries := (cache.entries.delete key).set key slot })

/-- Evict the oldest entries until the budgets hold. -/
def evict : Nat → BoundedCache V → BoundedCache V
  | 0, cache => cache
  | fuel + 1, cache =>
    if cache.maxEntries < cache.entries.size ∨ cache.maxBytes < cache.bytes then
      match cache.entries.entries with
      | [] => cache
      | (oldest, _) :: _ => evict fuel (cache.delete oldest)
    else cache

def set (cache : BoundedCache V) (key : String) (value : V) (bytes : Nat) : BoundedCache V :=
  let cache := cache.delete key
  if cache.maxBytes < bytes then cache
  else
    let cache := { cache with
      entries := cache.entries.set key { value, bytes }
      bytes := cache.bytes + bytes }
    evict cache.entries.size cache

end BoundedCache

/-! ### Rows -/

/-- An `SQLOutputValue`. -/
inductive Cell where
  | null
  | num (q : ℚ)
  | big (z : ℤ)
  | text (s : String)
  | blob (bytes : List UInt8)
  deriving DecidableEq

/-- A row of `threads` as a statement returns it. -/
structure ThreadRow where
  id : String
  columns : Dictionary Cell
  deriving DecidableEq

/-- The row as it is read together with its revision. -/
def ThreadRow.withRevision (row : ThreadRow) (revision : Nat) : ThreadRow :=
  { row with columns := row.columns.put "row_revision" (.num revision) }

def Cell.weight : Cell → Nat
  | .text s => utf16Length s * 4
  | .blob bytes => bytes.length
  | _ => 8

/-- The columns of `more` over those of `weights`. -/
def spreadWeights (weights more : Dictionary Nat) : Dictionary Nat :=
  more.entries.foldl (fun weights (column, weight) => weights.put column weight) weights

/-- Decoded objects run a few times their stored text; the budget only needs to scale with it. -/
def weigh (columns : Dictionary Cell) : Dictionary Nat :=
  columns.entries.foldl (fun weights (column, value) => weights.put column value.weight) .empty

/-- The weights of a whole row. -/
def ThreadRow.weigh (row : ThreadRow) : Dictionary Nat :=
  Daemon.weigh (row.columns.put "id" (.text row.id))

def total (weights : Dictionary Nat) : Nat := weights.values.sum

/-! ### The cache -/

structure Entry (Thread : Type) where
  revision : ℚ
  thread : Thread
  /-- Weight of each stored column the thread was read from; `bytes` is their sum. -/
  weights : Dictionary Nat
  bytes : Nat

structure ThreadCache (Thread : Type) where
  entries : BoundedCache (Entry Thread)
  /-- Reads of uncommitted rows in the store's open write transaction. -/
  pending : Option (Registry (Entry Thread)) := none

/-- The table of threads on the store's connection. -/
abbrev ThreadTable := Connection String ThreadRow

/-- The row's current revision on this connection, committed or not. -/
def sourceRevision (db : ThreadTable) (id : String) : Option ℚ :=
  (db.now.rows id).map fun (_, revision) => (revision : ℚ)

/-- The row with its revision as `row_revision`, read by one statement. -/
def sourceRow (db : ThreadTable) (id : String) : Option ThreadRow :=
  (db.now.rows id).map fun (row, revision) => row.withRevision revision

namespace ThreadCache

section

variable {Thread : Type}

/-- The store began its own write transaction; nothing else is open on the connection. -/
def begin_ (cache : ThreadCache Thread) : ThreadCache Thread :=
  { cache with pending := some .empty }

/-- A savepoint in it rolled back: rows read since may be undone and their revisions reused. -/
def discard (cache : ThreadCache Thread) : ThreadCache Thread :=
  { cache with pending := cache.pending.map fun _ => .empty }

def store (cache : ThreadCache Thread) (id : String) (entry : Entry Thread) : ThreadCache Thread :=
  { cache with entries := cache.entries.set id entry entry.bytes }

/-- It committed: what it read is committed now. -/
def commit (cache : ThreadCache Thread) : ThreadCache Thread :=
  let pending := (cache.pending.getD .empty).entries
  { pending.foldl (fun cache (id, entry) => cache.store id entry) cache with pending := none }

/-- It ended any other way. A no-op after `commit`. -/
def end_ (cache : ThreadCache Thread) : ThreadCache Thread := { cache with pending := none }

/-- One transaction touches a few threads; a huge one just stops adding. -/
def addPending (cache : ThreadCache Thread) (id : String) (entry : Entry Thread) :
    ThreadCache Thread :=
  match cache.pending with
  | none => cache
  | some pending =>
    if pending.size < 64 then { cache with pending := some (pending.set id entry) } else cache

/-- The entry of an id in the open transaction. -/
def getPending (cache : ThreadCache Thread) (id : String) : Option (Entry Thread) :=
  cache.pending.bind (·.get? id)

/-- The committed entry of an id, which is now the newest. -/
def getEntry (cache : ThreadCache Thread) (id : String) :
    Option (Entry Thread) × ThreadCache Thread :=
  let (entry, entries) := cache.entries.get id
  (entry, { cache with entries })

def keep (cache : ThreadCache Thread) (id : String) (revision : ℚ) (thread : Thread)
    (weights : Dictionary Nat) : ThreadCache Thread :=
  cache.addPending id { revision, thread, weights, bytes := total weights }

/-- The store's own writer just wrote `written` to this thread's row, which now has `revision`
and decodes to `thread`. -/
def remember (cache : ThreadCache Thread) (id : String) (revision : ℚ) (thread : Thread)
    (written : Dictionary Cell) : ThreadCache Thread :=
  let (before, cache) := match cache.getPending id with
    | some entry => (some entry, cache)
    | none => cache.getEntry id
  match before with
  | none => cache
  | some before => cache.keep id revision thread (spreadWeights before.weights (weigh written))

/-- As `remember`, for a thread the writer just created. -/
def rememberCreated (cache : ThreadCache Thread) (id : String) (revision : ℚ) (thread : Thread)
    (row : Dictionary Cell) : ThreadCache Thread := cache.keep id revision thread (weigh row)

end

section

/- `decodeThreadRow` may throw. -/
variable {Thread ε : Type} (decodeThreadRow : ThreadRow → Except ε Thread)

/-- A revision that names a row. -/
def knownRevision : Option Cell → Option ℚ
  | some (.num q) => if 0 < q then some q else none
  | _ => none

/-- What a cached layer has under a revision. -/
def hit (entry : Option (Entry Thread)) (revision : ℚ) : Option Thread :=
  (entry.filter (·.revision = revision)).map (·.thread)

def decodeRow (committed : Bool) (row : ThreadRow) (revision : Option Cell)
    (cache : ThreadCache Thread) : Except ε Thread × ThreadCache Thread :=
  match knownRevision revision with
  | none => (decodeThreadRow row, cache)
  | some known =>
    let (entry, cache) := cache.getEntry row.id
    match hit entry known with
    | some thread => (.ok thread, cache)
    | none =>
      match hit (cache.getPending row.id) known with
      | some thread => (.ok thread, cache)
      | none =>
        match decodeThreadRow row with
        | .error fault => (.error fault, cache)
        | .ok thread =>
          let weights := row.weigh
          let entry := { revision := known, thread, weights, bytes := total weights }
          (.ok thread, if committed then cache.store row.id entry
            else cache.addPending row.id entry)

/-- Decode the row of an id, which was read together with its revision. -/
def decodeSource (db : ThreadTable) (id : String) (cache : ThreadCache Thread) :
    Except ε (Option Thread) × ThreadCache Thread :=
  match sourceRow db id with
  | none => (.ok none, cache)
  | some row =>
    let (result, cache) :=
      decodeRow decodeThreadRow (!db.isTransaction) row (row.columns.get? "row_revision") cache
    (result.map some, cache)

def lookup (db : ThreadTable) (id : String) (cache : ThreadCache Thread) :
    Except ε (Option Thread) × ThreadCache Thread :=
  match sourceRevision db id with
  | none => decodeSource decodeThreadRow db id cache
  | some revision =>
    let (entry, cache) := cache.getEntry id
    match hit entry revision with
    | some thread => (.ok (some thread), cache)
    | none =>
      match hit (cache.getPending id) revision with
      | some thread => (.ok (some thread), cache)
      | none => decodeSource decodeThreadRow db id cache

/-- Shared and deeply frozen. -/
def read (db : ThreadTable) (id : String) (cache : ThreadCache Thread) :=
  lookup decodeThreadRow db id cache

/-- The caller's own copy, a structured clone. -/
def copy (db : ThreadTable) (id : String) (cache : ThreadCache Thread) :=
  lookup decodeThreadRow db id cache

/-- The shared thread and the caller's own copy of it, from one lookup. -/
def checkout (db : ThreadTable) (id : String) (cache : ThreadCache Thread) :
    Except ε (Option (Thread × Thread)) × ThreadCache Thread :=
  let (result, cache) := lookup decodeThreadRow db id cache
  (result.map (·.map fun base => (base, base)), cache)

/-- Decode a row read together with its revision, reusing the cached copy for that revision. -/
def decode (db : ThreadTable) (row : ThreadRow) (revision : Option Cell)
    (cache : ThreadCache Thread) :=
  decodeRow decodeThreadRow (!db.isTransaction) row revision cache

end

end ThreadCache

end Ace.Daemon
