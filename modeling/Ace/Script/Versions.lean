import Mathlib.Logic.Function.Basic
import Mathlib.Data.Nat.Basic
import Mathlib.Order.Nat
import Mathlib.Tactic.Common

/-!
# Row revisions under transactions

Every write gives its row a revision above all that the connection has seen. A rollback takes
the rows and the high-water mark back, so a revision may be given out again unless it was
committed. What a revision names can be relied on as long as no later write can take it:
`Kept` is a fact about a committed revision, `Seen` one about a revision of the open
transaction.
-/

namespace Script.Versions

universe u v

/-- The rows with their revisions, and the highest revision given out. -/
@[ext]
structure View (κ : Type u) (ρ : Type v) where
  rows : κ → Option (ρ × Nat)
  high : Nat

/-- What a connection sees. In a transaction also what it saw at each open savepoint, the
latest first, and last what it saw when the transaction began. -/
structure Connection (κ : Type u) (ρ : Type v) where
  now : View κ ρ
  saved : List (View κ ρ) := []

variable {κ : Type u} {ρ : Type v}

namespace View

section

variable [DecidableEq κ]

def write (view : View κ ρ) (k : κ) (row : ρ) (revision : Nat) : View κ ρ where
  rows := Function.update view.rows k (some (row, revision))
  high := revision

def delete (view : View κ ρ) (k : κ) : View κ ρ where
  rows := Function.update view.rows k none
  high := view.high

@[simp] theorem write_rows (view : View κ ρ) (k : κ) (row : ρ) (revision : Nat) :
    (view.write k row revision).rows = Function.update view.rows k (some (row, revision)) := rfl

@[simp] theorem write_high (view : View κ ρ) (k : κ) (row : ρ) (revision : Nat) :
    (view.write k row revision).high = revision := rfl

@[simp] theorem delete_rows (view : View κ ρ) (k : κ) :
    (view.delete k).rows = Function.update view.rows k none := rfl

@[simp] theorem delete_high (view : View κ ρ) (k : κ) : (view.delete k).high = view.high := rfl

end

/-- No row has a revision that was not given out. -/
def Bounded (view : View κ ρ) : Prop :=
  ∀ k row revision, view.rows k = some (row, revision) → revision ≤ view.high

/-- `newer` came from `older` by writes, each under a revision above all before it. -/
structure Extends (older newer : View κ ρ) : Prop where
  high : older.high ≤ newer.high
  old : ∀ k row revision, newer.rows k = some (row, revision) → revision ≤ older.high →
    older.rows k = some (row, revision)

theorem Extends.refl (view : View κ ρ) : Extends view view := ⟨le_refl _, fun _ _ _ here _ => here⟩

section

variable [DecidableEq κ] {older newer : View κ ρ}

theorem Extends.write (extends_ : Extends older newer) {k : κ} {row : ρ} {revision : Nat}
    (fresh : newer.high < revision) : Extends older (newer.write k row revision) where
  high := extends_.high.trans fresh.le
  old k' row' revision' here low := by
    by_cases same : k' = k
    · subst same
      simp only [write_rows, Function.update_self, Option.some.injEq, Prod.mk.injEq] at here
      have bound := extends_.high
      omega
    · rw [write_rows, Function.update_of_ne same] at here
      exact extends_.old k' row' revision' here low

theorem Extends.delete (extends_ : Extends older newer) (k : κ) : Extends older (newer.delete k) where
  high := extends_.high
  old k' row' revision' here low := by
    by_cases same : k' = k
    · subst same
      simp at here
    · rw [delete_rows, Function.update_of_ne same] at here
      exact extends_.old k' row' revision' here low

theorem Bounded.write {view : View κ ρ} (bounded : view.Bounded) {k : κ} {row : ρ} {revision : Nat}
    (fresh : view.high < revision) : (view.write k row revision).Bounded := by
  intro k' row' revision' here
  by_cases same : k' = k
  · subst same
    simp only [write_rows, write_high, Function.update_self, Option.some.injEq,
      Prod.mk.injEq] at here ⊢
    omega
  · rw [write_rows, Function.update_of_ne same] at here
    exact (bounded k' row' revision' here).trans fresh.le

theorem Bounded.delete {view : View κ ρ} (bounded : view.Bounded) (k : κ) :
    (view.delete k).Bounded := by
  intro k' row' revision' here
  by_cases same : k' = k
  · subst same
    simp at here
  · rw [delete_rows, Function.update_of_ne same] at here
    exact bounded k' row' revision' here

end

end View

namespace Connection

/-- Everything the connection may show again. -/
def views (c : Connection κ ρ) : List (View κ ρ) := c.now :: c.saved

/-- What was committed last. -/
def committed (c : Connection κ ρ) : View κ ρ := c.saved.getLast?.getD c.now

def isTransaction (c : Connection κ ρ) : Bool := !c.saved.isEmpty

/-! ### Operations -/

section

variable [DecidableEq κ]

def write (c : Connection κ ρ) (k : κ) (row : ρ) (revision : Nat) : Connection κ ρ :=
  { c with now := c.now.write k row revision }

def delete (c : Connection κ ρ) (k : κ) : Connection κ ρ := { c with now := c.now.delete k }

end

/-- `BEGIN`, or `SAVEPOINT` inside a transaction. -/
def save (c : Connection κ ρ) : Connection κ ρ := { c with saved := c.now :: c.saved }

/-- `RELEASE` of the latest savepoint, or `COMMIT` where there is none. -/
def release (c : Connection κ ρ) : Connection κ ρ := { c with saved := c.saved.tail }

def commit (c : Connection κ ρ) : Connection κ ρ := { c with saved := [] }

/-- `ROLLBACK TO` the `n`-th open savepoint from the latest, which is then released;
`ROLLBACK` where it is the beginning. -/
def rollbackTo (c : Connection κ ρ) (n : Nat) : Connection κ ρ :=
  match c.saved.drop n with
  | [] => c
  | view :: saved => { now := view, saved }

def rollback (c : Connection κ ρ) : Connection κ ρ := { now := c.committed, saved := [] }

/-! ### Validity -/

structure Valid (c : Connection κ ρ) : Prop where
  bounded : ∀ view ∈ c.views, view.Bounded
  ordered : c.views.Pairwise fun newer older => View.Extends older newer

theorem committed_mem (c : Connection κ ρ) : c.committed ∈ c.views := by
  unfold committed views
  cases last : c.saved.getLast? with
  | none => simp
  | some view => exact List.mem_cons_of_mem _ (List.mem_of_getLast? last)

theorem Valid.now_extends {c : Connection κ ρ} (valid : c.Valid) {view : View κ ρ}
    (member : view ∈ c.views) : View.Extends view c.now := by
  rcases List.mem_cons.mp member with rfl | saved
  · exact .refl _
  · exact (List.pairwise_cons.mp valid.ordered).1 view saved

theorem Valid.committed_high {c : Connection κ ρ} (valid : c.Valid) :
    c.committed.high ≤ c.now.high := (valid.now_extends c.committed_mem).high

section

variable [DecidableEq κ] {c : Connection κ ρ}

theorem Valid.write (valid : c.Valid) {k : κ} {row : ρ} {revision : Nat}
    (fresh : c.now.high < revision) : (c.write k row revision).Valid where
  bounded view member := by
    rcases List.mem_cons.mp member with rfl | saved
    · exact (valid.bounded c.now (List.mem_cons_self ..)).write fresh
    · exact valid.bounded view (List.mem_cons_of_mem _ saved)
  ordered := by
    obtain ⟨first, rest⟩ := List.pairwise_cons.mp valid.ordered
    exact List.pairwise_cons.mpr ⟨fun view saved => (first view saved).write fresh, rest⟩

theorem Valid.delete (valid : c.Valid) (k : κ) : (c.delete k).Valid where
  bounded view member := by
    rcases List.mem_cons.mp member with rfl | saved
    · exact (valid.bounded c.now (List.mem_cons_self ..)).delete k
    · exact valid.bounded view (List.mem_cons_of_mem _ saved)
  ordered := by
    obtain ⟨first, rest⟩ := List.pairwise_cons.mp valid.ordered
    exact List.pairwise_cons.mpr ⟨fun view saved => (first view saved).delete k, rest⟩

end

variable {c : Connection κ ρ}

theorem Valid.save (valid : c.Valid) : c.save.Valid where
  bounded view member := by
    rcases List.mem_cons.mp member with rfl | saved
    · exact valid.bounded c.now (List.mem_cons_self ..)
    · exact valid.bounded view saved
  ordered := List.pairwise_cons.mpr ⟨fun _ member => valid.now_extends member, valid.ordered⟩

theorem Valid.sublist (valid : c.Valid) {d : Connection κ ρ} (fewer : List.Sublist d.views c.views) :
    d.Valid where
  bounded view member := valid.bounded view (fewer.subset member)
  ordered := valid.ordered.sublist fewer

theorem release_views (c : Connection κ ρ) : List.Sublist c.release.views c.views :=
  (List.tail_sublist _).cons_cons _

theorem commit_views (c : Connection κ ρ) : List.Sublist c.commit.views c.views :=
  (List.nil_sublist _).cons_cons _

theorem rollbackTo_views (c : Connection κ ρ) (n : Nat) :
    List.Sublist (c.rollbackTo n).views c.views := by
  unfold rollbackTo
  split
  next => exact List.Sublist.refl _
  next view saved here =>
    have dropped : List.Sublist (view :: saved) c.saved := by
      rw [← here]
      exact List.drop_sublist n c.saved
    exact dropped.cons _

theorem rollback_views (c : Connection κ ρ) : List.Sublist c.rollback.views c.views :=
  List.singleton_sublist.mpr c.committed_mem

theorem rollbackTo_committed {n : Nat} (inner : n + 1 < c.saved.length) :
    (c.rollbackTo n).committed = c.committed := by
  unfold rollbackTo
  split
  next => rfl
  next view saved here =>
    have rest : saved = c.saved.drop (n + 1) := by
      have tails := congrArg List.tail here
      simpa [List.tail_drop] using tails.symm
    have last : saved.getLast? = c.saved.getLast? := by
      rw [rest, List.getLast?_drop, if_neg (by omega)]
    have known : c.saved.getLast?.isSome = true := by
      rw [Option.isSome_iff_ne_none, ne_eq, List.getLast?_eq_none_iff]
      exact List.ne_nil_of_length_pos (by omega)
    obtain ⟨base, is_base⟩ := Option.isSome_iff_exists.mp known
    simp [committed, last, is_base]

theorem release_committed (inner : 1 < c.saved.length) : c.release.committed = c.committed := by
  obtain ⟨first, second, rest, here⟩ : ∃ first second rest, c.saved = first :: second :: rest := by
    match saved : c.saved with
    | [] => simp [saved] at inner
    | [_] => simp [saved] at inner
    | first :: second :: rest => exact ⟨first, second, rest, rfl⟩
  simp [committed, release, here]

theorem save_committed : c.save.committed = c.committed := by
  unfold committed Connection.save
  cases saved : c.saved with
  | nil => simp
  | cons view rest => simp

/-! ### What a revision names -/

/-- Wherever the row `k` has the revision, it is as `P` says. -/
def Names (c : Connection κ ρ) (k : κ) (revision : Nat) (P : ρ → Prop) : Prop :=
  ∀ view ∈ c.views, ∀ row, view.rows k = some (row, revision) → P row

/-- A committed revision, which is never given out again. -/
def Kept (c : Connection κ ρ) (k : κ) (revision : Nat) (P : ρ → Prop) : Prop :=
  revision ≤ c.committed.high ∧ c.Names k revision P

/-- A revision that the open transaction does not give out again. -/
def Seen (c : Connection κ ρ) (k : κ) (revision : Nat) (P : ρ → Prop) : Prop :=
  revision ≤ c.now.high ∧ c.Names k revision P

variable {k : κ} {revision : Nat} {P : ρ → Prop}

theorem Names.sublist {d : Connection κ ρ} (names : c.Names k revision P)
    (fewer : List.Sublist d.views c.views) : d.Names k revision P :=
  fun view member => names view (fewer.subset member)

theorem Valid.seen (valid : c.Valid) {row : ρ} (here : c.now.rows k = some (row, revision))
    (holds : P row) : c.Seen k revision P := by
  refine ⟨valid.bounded c.now (List.mem_cons_self ..) k row revision here, ?_⟩
  intro view member row' there
  have bound := valid.bounded view member k row' revision there
  have same := (valid.now_extends member).old k row revision here bound
  rw [there] at same
  cases same
  exact holds

theorem Seen.kept (seen : c.Seen k revision P) (plain : c.saved = []) : c.Kept k revision P := by
  refine ⟨?_, seen.2⟩
  simpa [committed, plain] using seen.1

theorem Kept.seen (kept : c.Kept k revision P) (valid : c.Valid) : c.Seen k revision P :=
  ⟨kept.1.trans valid.committed_high, kept.2⟩

section

variable [DecidableEq κ]

theorem Seen.names_write (seen : c.Seen k revision P) {k' : κ} {row : ρ} {fresh : Nat}
    (above : c.now.high < fresh) : (c.write k' row fresh).Names k revision P := by
  intro view member row' here
  rcases List.mem_cons.mp member with rfl | saved
  · by_cases same : k = k'
    · subst same
      simp only [Connection.write, View.write, Function.update_self, Option.some.injEq,
        Prod.mk.injEq] at here
      have low := seen.1
      omega
    · simp only [Connection.write, View.write, Function.update_of_ne same] at here
      exact seen.2 c.now (List.mem_cons_self ..) row' here
  · exact seen.2 view (List.mem_cons_of_mem _ saved) row' here

theorem Seen.write (seen : c.Seen k revision P) {k' : κ} {row : ρ} {fresh : Nat}
    (above : c.now.high < fresh) : (c.write k' row fresh).Seen k revision P :=
  ⟨seen.1.trans above.le, seen.names_write above⟩

theorem Kept.write (kept : c.Kept k revision P) (valid : c.Valid) {k' : κ} {row : ρ} {fresh : Nat}
    (above : c.now.high < fresh) : (c.write k' row fresh).Kept k revision P := by
  refine ⟨?_, (kept.seen valid).names_write above⟩
  have low := kept.1
  unfold committed at low ⊢
  cases last : c.saved.getLast? with
  | none =>
    simp only [Connection.write, last, Option.getD_none, View.write] at low ⊢
    omega
  | some view =>
    simpa [Connection.write, last] using low

theorem Names.delete (names : c.Names k revision P) (k' : κ) :
    (c.delete k').Names k revision P := by
  intro view member row here
  rcases List.mem_cons.mp member with rfl | saved
  · by_cases same : k = k'
    · subst same
      simp [Connection.delete] at here
    · simp only [Connection.delete, View.delete_rows, Function.update_of_ne same] at here
      exact names c.now (List.mem_cons_self ..) row here
  · exact names view (List.mem_cons_of_mem _ saved) row here

theorem Seen.delete (seen : c.Seen k revision P) (k' : κ) : (c.delete k').Seen k revision P :=
  ⟨seen.1, seen.2.delete k'⟩

theorem Kept.delete (kept : c.Kept k revision P) (k' : κ) : (c.delete k').Kept k revision P := by
  refine ⟨?_, kept.2.delete k'⟩
  have low := kept.1
  unfold committed at low ⊢
  cases last : c.saved.getLast? with
  | none => simpa [Connection.delete, View.delete, last] using low
  | some view => simpa [Connection.delete, last] using low

end

theorem Names.save (names : c.Names k revision P) : c.save.Names k revision P := by
  intro view member
  rcases List.mem_cons.mp member with rfl | saved
  · exact names c.now (List.mem_cons_self ..)
  · exact names view saved

theorem Kept.save (kept : c.Kept k revision P) : c.save.Kept k revision P :=
  ⟨by rw [save_committed]; exact kept.1, kept.2.save⟩

theorem Seen.commit (seen : c.Seen k revision P) : c.commit.Kept k revision P :=
  ⟨by simpa [committed, Connection.commit] using seen.1, seen.2.sublist (commit_views c)⟩

theorem Kept.rollback (kept : c.Kept k revision P) : c.rollback.Kept k revision P :=
  ⟨by simpa [committed, Connection.rollback] using kept.1, kept.2.sublist (rollback_views c)⟩

end Connection

end Script.Versions
