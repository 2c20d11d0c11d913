import Ace.Script.Dictionary

/-!
# Ledgers

A table of rows by key whose rows carry an id of their own, with a history by id of the rows
that a key has lost. `Ledger.Sound` says that ids identify rows, and `Ledger.Holds` reads
the table and its history as one map by id. The two writes of a ledger are `replace`, of a
row by one with the same id, and `open`, of a row with a fresh id under a key whose settled
row moves to the history.

`Later` relates a ledger to what these writes make of it: a closed row is never touched again.
`Mirrors` relates a ledger to a copy of it that is kept by id, up to a relation between
rows.
-/

namespace Script

universe u v

namespace Ledger

variable {α : Type u}

structure Sound (idOf : α → String) (drawn : String → Prop) (settled : α → Prop)
    (rows history : Dictionary α) : Prop where
  row : ∀ key row, rows.get? key = some row → drawn (idOf row) ∧ history.get? (idOf row) = none
  unique : ∀ key key' row row', rows.get? key = some row → rows.get? key' = some row' →
    idOf row = idOf row' → key = key'
  history : ∀ id row, history.get? id = some row → idOf row = id ∧ drawn id ∧ settled row

/-- A ledger has `row` under `id`, in its table or in its history. -/
def Holds (idOf : α → String) (rows history : Dictionary α) (id : String) (row : α) : Prop :=
  history.get? id = some row ∨ ∃ key, rows.get? key = some row ∧ idOf row = id

/-- The history after `key` loses its row. -/
def archive (idOf : α → String) (rows history : Dictionary α) (key : String) : Dictionary α :=
  match rows.get? key with
  | some previous => history.put (idOf previous) previous
  | none => history

/-- No row has `id`. -/
def Fresh (idOf : α → String) (rows history : Dictionary α) (id : String) : Prop :=
  history.get? id = none ∧ ∀ key row, rows.get? key = some row → idOf row ≠ id

section

variable {idOf : α → String} {drawn drawn' : String → Prop} {settled : α → Prop}
  {rows history : Dictionary α}

theorem Sound.mono (sound : Sound idOf drawn settled rows history)
    (le : ∀ id, drawn id → drawn' id) : Sound idOf drawn' settled rows history where
  row key row h := ⟨le _ (sound.row key row h).1, (sound.row key row h).2⟩
  unique := sound.unique
  history id row h := by
    obtain ⟨same, was, done⟩ := sound.history id row h
    exact ⟨same, le _ was, done⟩

theorem Holds.was_drawn (sound : Sound idOf drawn settled rows history) {id : String} {row : α}
    (h : Holds idOf rows history id row) : drawn id := by
  rcases h with archived | ⟨key, known, same⟩
  · exact (sound.history id row archived).2.1
  · exact same ▸ (sound.row key row known).1

theorem Holds.eq (sound : Sound idOf drawn settled rows history) {id : String} {row row' : α}
    (h : Holds idOf rows history id row) (h' : Holds idOf rows history id row') : row = row' := by
  rcases h with archived | ⟨key, known, same⟩ <;> rcases h' with archived' | ⟨key', known', same'⟩
  · exact Option.some.inj (archived.symm.trans archived')
  · have absent := (sound.row key' row' known').2
    rw [same', archived] at absent
    cases absent
  · have absent := (sound.row key row known).2
    rw [same, archived'] at absent
    cases absent
  · have keys := sound.unique key key' row row' known known' (same.trans same'.symm)
    subst keys
    exact Option.some.inj (known.symm.trans known')

theorem fresh_of_not_drawn (sound : Sound idOf drawn settled rows history) {id : String}
    (h : ¬ drawn id) : Fresh idOf rows history id := by
  constructor
  · cases found : history.get? id with
    | none => rfl
    | some row => exact absurd (sound.history id row found).2.1 h
  · rintro key row known rfl
    exact h (sound.row key row known).1

theorem Fresh.not_holds {id : String} {row : α} (fresh : Fresh idOf rows history id)
    (held : Holds idOf rows history id row) : False := by
  rcases held with archived | ⟨key, stored, same⟩
  · rw [fresh.1] at archived
    cases archived
  · exact fresh.2 key row stored same

/-! ### Replacing a row -/

theorem Sound.replace (sound : Sound idOf drawn settled rows history) {key : String}
    {old new : α} (known : rows.get? key = some old) (same : idOf new = idOf old) :
    Sound idOf drawn settled (rows.put key new) history where
  row k row h := by
    rw [Dictionary.get?_put] at h
    split at h
    next =>
      cases h
      rw [same]
      exact sound.row key old known
    next => exact sound.row k row h
  unique k k' row row' h h' eq := by
    rw [Dictionary.get?_put] at h h'
    split at h <;> split at h'
    next first second => exact first.symm.trans second
    next first _ =>
      cases h
      rw [← first]
      exact sound.unique key k' old row' known h' (same.symm.trans eq)
    next _ second =>
      cases h'
      rw [← second]
      exact sound.unique k key row old h known (eq.trans same)
    next => exact sound.unique k k' row row' h h' eq
  history := sound.history

theorem holds_replace (sound : Sound idOf drawn settled rows history) {key : String}
    {old new : α} (known : rows.get? key = some old) (same : idOf new = idOf old) (id : String)
    (row : α) :
    Holds idOf (rows.put key new) history id row ↔
      if id = idOf old then row = new else Holds idOf rows history id row := by
  have inside : Holds idOf (rows.put key new) history (idOf old) new :=
    .inr ⟨key, by simp, same⟩
  split
  next eq =>
    subst eq
    constructor
    · intro h
      exact h.eq (sound.replace known same) inside
    · rintro rfl
      exact inside
  next ne =>
    unfold Holds
    refine or_congr_right ?_
    constructor
    · rintro ⟨k, h, row_id⟩
      rw [Dictionary.get?_put] at h
      split at h
      next =>
        cases h
        exact absurd (row_id.symm.trans same) ne
      next => exact ⟨k, h, row_id⟩
    · rintro ⟨k, h, row_id⟩
      refine ⟨k, ?_, row_id⟩
      rw [Dictionary.get?_put, if_neg, h]
      rintro rfl
      rw [known] at h
      cases h
      exact ne row_id.symm

/-! ### Opening a row -/

theorem get?_archive (key id : String) :
    (archive idOf rows history key).get? id =
      match rows.get? key with
      | some previous => if idOf previous = id then some previous else history.get? id
      | none => history.get? id := by
  unfold archive
  split
  · rw [Dictionary.get?_put]
  · rfl

theorem Sound.open (sound : Sound idOf drawn settled rows history) {key : String} {new : α}
    (fresh : Fresh idOf rows history (idOf new)) (was : drawn (idOf new))
    (free : ∀ row, rows.get? key = some row → settled row) :
    Sound idOf drawn settled (rows.put key new) (archive idOf rows history key) := by
  -- The archived row is the only new entry of the history.
  have archived : ∀ id row, (archive idOf rows history key).get? id = some row →
      (rows.get? key = some row ∧ idOf row = id) ∨ history.get? id = some row := by
    intro id row h
    rw [get?_archive] at h
    split at h
    next previous known =>
      split at h
      next same =>
        cases h
        exact .inl ⟨known, same⟩
      next => exact .inr h
    next => exact .inr h
  constructor
  · intro k row h
    rw [Dictionary.get?_put] at h
    split at h
    next =>
      cases h
      refine ⟨was, ?_⟩
      cases found : (archive idOf rows history key).get? (idOf new) with
      | none => rfl
      | some row =>
        rcases archived _ row found with ⟨known, same⟩ | old
        · exact absurd same (fresh.2 key row known)
        · rw [fresh.1] at old
          cases old
    next ne =>
      refine ⟨(sound.row k row h).1, ?_⟩
      cases found : (archive idOf rows history key).get? (idOf row) with
      | none => rfl
      | some other =>
        rcases archived _ other found with ⟨known, same⟩ | old
        · exact absurd (sound.unique key k other row known h same) ne
        · rw [(sound.row k row h).2] at old
          cases old
  · intro k k' row row' h h' eq
    rw [Dictionary.get?_put] at h h'
    split at h <;> split at h'
    next first second => exact first.symm.trans second
    next =>
      cases h
      exact absurd eq.symm (fresh.2 k' row' h')
    next =>
      cases h'
      exact absurd eq (fresh.2 k row h)
    next => exact sound.unique k k' row row' h h' eq
  · intro id row h
    rcases archived id row h with ⟨known, same⟩ | old
    · exact ⟨same, same ▸ (sound.row key row known).1, free row known⟩
    · exact sound.history id row old

theorem holds_open (sound : Sound idOf drawn settled rows history) {key : String} {new : α}
    (fresh : Fresh idOf rows history (idOf new)) (was : drawn (idOf new))
    (free : ∀ row, rows.get? key = some row → settled row) (id : String) (row : α) :
    Holds idOf (rows.put key new) (archive idOf rows history key) id row ↔
      if id = idOf new then row = new else Holds idOf rows history id row := by
  have sound' := sound.open fresh was free
  have inside : Holds idOf (rows.put key new) (archive idOf rows history key) (idOf new) new :=
    .inr ⟨key, by simp, rfl⟩
  split
  next eq =>
    subst eq
    constructor
    · intro h
      exact h.eq sound' inside
    · rintro rfl
      exact inside
  next ne =>
    constructor
    · rintro (archived | ⟨k, h, row_id⟩)
      · rw [get?_archive] at archived
        split at archived
        next previous known =>
          split at archived
          next same =>
            cases archived
            exact .inr ⟨key, known, same⟩
          next => exact .inl archived
        next => exact .inl archived
      · rw [Dictionary.get?_put] at h
        split at h
        next =>
          cases h
          exact absurd row_id.symm ne
        next => exact .inr ⟨k, h, row_id⟩
    · rintro (old | ⟨k, h, row_id⟩)
      · left
        rw [get?_archive]
        split
        next previous known =>
          rw [if_neg, old]
          rintro rfl
          rw [(sound.row key previous known).2] at old
          cases old
        next => exact old
      · by_cases same : key = k
        · subst same
          left
          rw [get?_archive, h]
          simp [row_id]
        · exact .inr ⟨k, by rw [Dictionary.get?_put, if_neg same]; exact h, row_id⟩

/-! ### Later ledgers -/

/-- A later state of a ledger. Rows move along `later` and the history keeps what it has. Under
a key there is the same row, or one with an id that was not known before: the row it
replaced is in the history. -/
structure Later (idOf : α → String) (later : α → α → Prop)
    (rows history rows' history' : Dictionary α) : Prop where
  holds : ∀ id row, Holds idOf rows history id row →
    ∃ row', Holds idOf rows' history' id row' ∧ later row row'
  archived : ∀ id row, history.get? id = some row → history'.get? id = some row
  key : ∀ key row, rows.get? key = some row → ∃ row', rows'.get? key = some row' ∧
    ((idOf row' = idOf row ∧ later row row') ∨ (Fresh idOf rows history (idOf row') ∧
      ∃ old, history'.get? (idOf row) = some old ∧ later row old))

variable {later : α → α → Prop} {rows' history' rows'' history'' : Dictionary α}

theorem Later.refl (reflexive : ∀ row, later row row) :
    Later idOf later rows history rows history where
  holds _ row held := ⟨row, held, reflexive row⟩
  archived _ _ h := h
  key _ row h := ⟨row, h, .inl ⟨rfl, reflexive row⟩⟩

theorem Later.fresh (forward : Later idOf later rows history rows' history') {id : String}
    (fresh : Fresh idOf rows' history' id) : Fresh idOf rows history id := by
  constructor
  · cases found : history.get? id with
    | none => rfl
    | some row =>
      have kept := forward.archived id row found
      rw [fresh.1] at kept
      cases kept
  · intro key row stored same
    obtain ⟨row', held, _⟩ := forward.holds id row (.inr ⟨key, stored, same⟩)
    exact fresh.not_holds held

theorem Later.trans (transitive : ∀ {a b c}, later a b → later b c → later a c)
    (first : Later idOf later rows history rows' history')
    (second : Later idOf later rows' history' rows'' history'') :
    Later idOf later rows history rows'' history'' where
  holds id row held := by
    obtain ⟨row', held', forward⟩ := first.holds id row held
    obtain ⟨row'', held'', forward'⟩ := second.holds id row' held'
    exact ⟨row'', held'', transitive forward forward'⟩
  archived id row h := second.archived id row (first.archived id row h)
  key key row h := by
    obtain ⟨row', stored', first_case⟩ := first.key key row h
    obtain ⟨row'', stored'', second_case⟩ := second.key key row' stored'
    refine ⟨row'', stored'', ?_⟩
    rcases first_case with ⟨same, forward⟩ | ⟨fresh, old, kept, forward⟩
    · rcases second_case with ⟨same', forward'⟩ | ⟨fresh', old, kept, forward'⟩
      · exact .inl ⟨same'.trans same, transitive forward forward'⟩
      · rw [same] at kept
        exact .inr ⟨first.fresh fresh', old, kept, transitive forward forward'⟩
    · -- the first row is in the history already, and stays there
      have archived := second.archived _ _ kept
      rcases second_case with ⟨same', _⟩ | ⟨fresh', _⟩
      · rw [← same'] at fresh
        exact .inr ⟨fresh, old, archived, forward⟩
      · exact .inr ⟨first.fresh fresh', old, archived, forward⟩

theorem later_replace (reflexive : ∀ row, later row row)
    (sound : Sound idOf drawn settled rows history) {key : String} {old new : α}
    (known : rows.get? key = some old) (same : idOf new = idOf old) (forward : later old new) :
    Later idOf later rows history (rows.put key new) history where
  holds id row held := by
    by_cases is_old : id = idOf old
    · have row_eq : row = old :=
        Holds.eq sound held (.inr ⟨key, known, is_old.symm⟩)
      refine ⟨new, ?_, row_eq ▸ forward⟩
      rw [holds_replace sound known same, if_pos is_old]
    · refine ⟨row, ?_, reflexive row⟩
      rw [holds_replace sound known same, if_neg is_old]
      exact held
  archived _ _ h := h
  key k row h := by
    by_cases here : key = k
    · subst here
      rw [known] at h
      cases h
      exact ⟨new, by simp, .inl ⟨same, forward⟩⟩
    · exact ⟨row, by rw [Dictionary.get?_put, if_neg here]; exact h, .inl ⟨rfl, reflexive row⟩⟩

theorem later_open (reflexive : ∀ row, later row row)
    (sound : Sound idOf drawn settled rows history) {key : String} {new : α}
    (fresh : Fresh idOf rows history (idOf new)) (was : drawn (idOf new))
    (free : ∀ row, rows.get? key = some row → settled row) :
    Later idOf later rows history (rows.put key new) (archive idOf rows history key) where
  holds id row held := by
    refine ⟨row, ?_, reflexive row⟩
    rw [holds_open sound fresh was free, if_neg]
    · exact held
    · rintro rfl
      exact fresh.not_holds held
  archived id row h := by
    rw [get?_archive]
    split
    next previous known =>
      rw [if_neg, h]
      rintro rfl
      rw [(sound.row key previous known).2] at h
      cases h
    next => exact h
  key k row h := by
    by_cases here : key = k
    · subst here
      refine ⟨new, by simp, .inr ⟨fresh, row, ?_, reflexive row⟩⟩
      rw [get?_archive, h]
      simp
    · exact ⟨row, by rw [Dictionary.get?_put, if_neg here]; exact h, .inl ⟨rfl, reflexive row⟩⟩

end

/-! ### Copies of a ledger -/

section

variable {β : Type v}

/-- `copy` has, by id and up to `same`, exactly the rows a ledger holds. -/
def Mirrors (holds : String → α → Prop) (same : β → α → Prop) (copy : Dictionary β) : Prop :=
  ∀ id, (∀ row, holds id row → ∃ c, copy.get? id = some c ∧ same c row) ∧
    ((copy.get? id).isSome → ∃ row, holds id row)

variable {holds holds' : String → α → Prop} {same : β → α → Prop} {copy : Dictionary β}

theorem Mirrors.put (h : Mirrors holds same copy) {id : String} {new : α} {c : β}
    (holds_iff : ∀ id' row, holds' id' row ↔ if id' = id then row = new else holds id' row)
    (is_copy : same c new) : Mirrors holds' same (copy.put id c) := by
  intro id'
  rw [Dictionary.get?_put]
  by_cases eq : id' = id
  · subst eq
    rw [if_pos rfl]
    refine ⟨?_, fun _ => ⟨new, by rw [holds_iff, if_pos rfl]⟩⟩
    intro row held
    rw [holds_iff, if_pos rfl] at held
    exact ⟨c, rfl, held ▸ is_copy⟩
  · rw [if_neg (Ne.symm eq)]
    refine ⟨?_, ?_⟩
    · intro row held
      rw [holds_iff, if_neg eq] at held
      exact (h id').1 row held
    · intro found
      obtain ⟨row, held⟩ := (h id').2 found
      exact ⟨row, by rw [holds_iff, if_neg eq]; exact held⟩

theorem Mirrors.modify (h : Mirrors holds same copy) {id : String} {old new : α} {f : β → β}
    (held : holds id old)
    (holds_iff : ∀ id' row, holds' id' row ↔ if id' = id then row = new else holds id' row)
    (is_copy : ∀ c, copy.get? id = some c → same c old → same (f c) new) :
    Mirrors holds' same (copy.modify id f) := by
  obtain ⟨c, found, is_old⟩ := (h id).1 old held
  have eq : copy.modify id f = copy.put id (f c) := by simp [Dictionary.modify, found]
  rw [eq]
  exact h.put holds_iff (is_copy c found is_old)

theorem Mirrors.replace (h : Mirrors holds same copy) {id : String} {old new : α}
    (held : holds id old)
    (holds_iff : ∀ id' row, holds' id' row ↔ if id' = id then row = new else holds id' row)
    (is_copy : ∀ c, same c old → same c new) : Mirrors holds' same copy := by
  intro id'
  by_cases eq : id' = id
  · subst eq
    obtain ⟨c, found, is_old⟩ := (h id').1 old held
    refine ⟨?_, fun _ => ⟨new, by rw [holds_iff, if_pos rfl]⟩⟩
    intro row held'
    rw [holds_iff, if_pos rfl] at held'
    exact ⟨c, found, held' ▸ is_copy c is_old⟩
  · have unchanged : ∀ row, holds' id' row ↔ holds id' row := by
      intro row
      rw [holds_iff, if_neg eq]
    refine ⟨?_, ?_⟩
    · intro row held'
      exact (h id').1 row ((unchanged row).mp held')
    · intro found
      obtain ⟨row, was⟩ := (h id').2 found
      exact ⟨row, (unchanged row).mpr was⟩

theorem holds_iff_self {idOf : α → String} {drawn : String → Prop} {settled : α → Prop}
    {rows history : Dictionary α} (sound : Sound idOf drawn settled rows history) {id : String}
    {row : α} (held : Holds idOf rows history id row) (id' : String) (row' : α) :
    Holds idOf rows history id' row' ↔
      if id' = id then row' = row else Holds idOf rows history id' row' := by
  split
  next eq =>
    subst eq
    constructor
    · intro held'
      exact held'.eq sound held
    · rintro rfl
      exact held
  next => rfl

end

end Ledger

end Script
