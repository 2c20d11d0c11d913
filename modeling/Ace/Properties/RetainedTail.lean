import Ace.Projection.ItemOrder

/-!
# Live trimming

A client that trims its tail after every delivery holds what a fresh snapshot of the whole
history would hold. Both keep the newest of two lanes (`Script.newest`), so what has to be
shown is that both find the same room for the root lane, although they count over different
windows.
-/

namespace Ace

open Script

/-! ### The loop keeps the newest of each lane -/

theorem length_keepFlags (entries : List TailEntry) (r o : Nat) :
    (keepFlags entries r o).length = entries.length := by
  induction entries generalizing r o with
  | nil => rfl
  | cons entry older ih =>
    unfold keepFlags
    split <;> simp [ih]

theorem kept_of_flags (entries : List TailEntry) (r o : Nat) :
    ((entries.zip (keepFlags entries r o)).filter (·.2)).map Prod.fst =
      newest (·.root) entries r o := by
  induction entries generalizing r o with
  | nil => rfl
  | cons entry older ih =>
    unfold keepFlags newest
    by_cases lane : entry.root = true
    · cases r with
      | zero => simpa [lane] using ih 0 o
      | succ r => simpa [lane] using ih r o
    · cases o with
      | zero => simpa [lane] using ih r 0
      | succ o => simpa [lane] using ih r o

theorem reverse_zip_reverse (entries : List TailEntry) {flags : List Bool}
    (same : flags.length = entries.length) :
    (entries.zip flags.reverse).reverse = entries.reverse.zip flags := by
  rw [← List.zip_unzip (entries.zip flags.reverse).reverse]
  simp [List.unzip_eq_map, List.map_reverse, List.map_fst_zip, List.map_snd_zip, same]

section

variable (entries : List TailEntry) (capacity : Nat)

/-- The entries and flags of a full tail, newest first. -/
def flaggedNewest : List (TailEntry × Bool) :=
  entries.reverse.zip
    (keepFlags entries.reverse (rootRoom entries capacity) (capacity - rootRoom entries capacity))

theorem retainedTail_full (full : capacity < entries.length) :
    retainedTail entries capacity =
      { kept := (((flaggedNewest entries capacity).filter (·.2)).map Prod.fst).reverse
        evicted := (((flaggedNewest entries capacity).filter (!·.2)).map Prod.fst).reverse
        before := ((((flaggedNewest entries capacity).takeWhile (·.2)).reverse.map
            Prod.fst).find? (·.seq.isSome)).bind (·.seq) |>.or
          ((((flaggedNewest entries capacity).find? (!·.2)).map Prod.fst).bind (·.seq) |>.map
            (· + 1)) } := by
  have turned : (entries.zip (keepFlags entries.reverse (rootRoom entries capacity)
      (capacity - rootRoom entries capacity)).reverse).reverse =
        flaggedNewest entries capacity :=
    reverse_zip_reverse entries (by simp [length_keepFlags])
  have forward : entries.zip (keepFlags entries.reverse (rootRoom entries capacity)
      (capacity - rootRoom entries capacity)).reverse =
        (flaggedNewest entries capacity).reverse := by
    rw [← turned, List.reverse_reverse]
  unfold retainedTail
  rw [if_neg (by omega)]
  simp only [forward, List.reverse_reverse, List.filter_reverse, List.map_reverse]

theorem kept_full (full : capacity < entries.length) :
    (retainedTail entries capacity).kept =
      (newest (·.root) entries.reverse (rootRoom entries capacity)
        (capacity - rootRoom entries capacity)).reverse := by
  rw [retainedTail_full entries capacity full]
  simp only [flaggedNewest, kept_of_flags]

theorem kept_all (fits : entries.length ≤ capacity) :
    (retainedTail entries capacity).kept = entries := by
  simp [retainedTail, fits]

end

/-! ### Room for the root lane -/

/-- The root entries among the newest `k`. -/
def rootsWithin (newestFirst : List TailEntry) (k : Nat) : Nat :=
  (newestFirst.take k).countP (·.root)

/-- `rootRoom` over a list that has its newest entry first. -/
def roomFor (newestFirst : List TailEntry) (capacity : Nat) : Nat :=
  max (rootsWithin newestFirst capacity)
    (min (newestFirst.countP (·.root)) (capacity / 2))

theorem rootRoom_eq (entries : List TailEntry) (capacity : Nat) :
    rootRoom entries capacity = roomFor entries.reverse capacity := by
  unfold rootRoom roomFor rootsWithin
  rw [List.countP_reverse, List.take_reverse, List.countP_reverse]

section

variable {k m : Nat}

theorem rootsWithin_le (xs : List TailEntry) (k : Nat) : rootsWithin xs k ≤ k := by
  unfold rootsWithin
  exact (List.countP_le_length ..).trans (List.length_take_le ..)

theorem rootsWithin_le_roots (xs : List TailEntry) (k : Nat) :
    rootsWithin xs k ≤ xs.countP (·.root) :=
  (List.take_sublist k xs).countP_le

theorem rootsWithin_mono (xs : List TailEntry) (le : k ≤ m) :
    rootsWithin xs k ≤ rootsWithin xs m :=
  (List.take_sublist_take_left le).countP_le

theorem rootsWithin_add_le (xs : List TailEntry) (k m : Nat) :
    rootsWithin xs (k + m) ≤ rootsWithin xs k + m := by
  unfold rootsWithin
  rw [List.take_add, List.countP_append]
  have few : ((xs.drop k).take m).countP (·.root) ≤ m :=
    (List.countP_le_length ..).trans (List.length_take_le ..)
  omega

theorem rootsWithin_append (ys xs : List TailEntry) (k : Nat) :
    rootsWithin (ys ++ xs) k = rootsWithin ys k + rootsWithin xs (k - ys.length) := by
  unfold rootsWithin
  rw [List.take_append, List.countP_append]

end

section

variable (xs ys : List TailEntry) {capacity : Nat}

theorem roomFor_le_capacity (capacity : Nat) : roomFor xs capacity ≤ capacity := by
  have few := rootsWithin_le xs capacity
  unfold roomFor
  omega

theorem roomFor_le_roots (capacity : Nat) : roomFor xs capacity ≤ xs.countP (·.root) := by
  have few := rootsWithin_le_roots xs capacity
  unfold roomFor
  omega

/-- The newest entries of a full tail. -/
def trimmed (capacity : Nat) : List TailEntry :=
  newest (·.root) xs (roomFor xs capacity) (capacity - roomFor xs capacity)

theorem others_room (full : capacity < xs.length) :
    capacity - roomFor xs capacity ≤ xs.countP (!·.root) := by
  have split := length_eq_countP_add (·.root) (xs.take capacity)
  have taken : (xs.take capacity).length = capacity := List.length_take_of_le full.le
  have within : (xs.take capacity).countP (!·.root) ≤ xs.countP (!·.root) :=
    (List.take_sublist capacity xs).countP_le
  have roots : (xs.take capacity).countP (·.root) ≤ roomFor xs capacity := by
    unfold roomFor rootsWithin
    omega
  omega

theorem countP_trimmed (full : capacity < xs.length) :
    (trimmed xs capacity).countP (·.root) = roomFor xs capacity ∧
    (trimmed xs capacity).countP (!·.root) = capacity - roomFor xs capacity := by
  obtain ⟨lane, others⟩ := countP_newest (·.root) xs (roomFor xs capacity)
    (capacity - roomFor xs capacity)
  have roots := roomFor_le_roots xs capacity
  have room := others_room xs full
  exact ⟨lane.trans (min_eq_left roots), others.trans (min_eq_left room)⟩

theorem length_trimmed (full : capacity < xs.length) :
    (trimmed xs capacity).length = capacity := by
  obtain ⟨lane, others⟩ := countP_trimmed xs full
  have bound := roomFor_le_capacity xs capacity
  rw [length_eq_countP_add (·.root), lane, others]
  omega

/-- A window of a trimmed tail shows the roots it would show untrimmed, unless the trim took
an entry of the other lane out of it: then all that is left of that lane is in the window. -/
theorem rootsWithin_trimmed (full : capacity < xs.length) {k : Nat} (le : k ≤ capacity) :
    rootsWithin (trimmed xs capacity) k = rootsWithin xs k ∨
      (rootsWithin xs k ≤ rootsWithin (trimmed xs capacity) k ∧
        rootsWithin (trimmed xs capacity) k + (capacity - k) ≤ roomFor xs capacity ∧
        rootsWithin xs capacity < roomFor xs capacity) := by
  have parts : trimmed xs capacity = newest (·.root) (xs.take k) (roomFor xs capacity)
      (capacity - roomFor xs capacity) ++ newest (·.root) (xs.drop k)
        (roomFor xs capacity - (xs.take k).countP (·.root))
        (capacity - roomFor xs capacity - (xs.take k).countP (!·.root)) := by
    unfold trimmed
    rw [← newest_append, List.take_append_drop]
  have taken : (xs.take k).length = k := List.length_take_of_le (by omega)
  have halves := length_eq_countP_add (·.root) (xs.take k)
  have lane : (xs.take k).countP (·.root) ≤ roomFor xs capacity := by
    have mono : rootsWithin xs k ≤ rootsWithin xs capacity := rootsWithin_mono xs le
    unfold roomFor
    unfold rootsWithin at mono ⊢
    omega
  by_cases fits : (xs.take k).countP (!·.root) ≤ capacity - roomFor xs capacity
  · left
    rw [newest_all _ _ lane fits] at parts
    rw [parts, rootsWithin_append, taken, Nat.sub_self]
    simp only [rootsWithin, List.take_zero, List.countP_nil, Nat.add_zero, List.take_take, min_self]
  · right
    obtain ⟨kept_lane, kept_others⟩ := countP_newest (·.root) (xs.take k) (roomFor xs capacity)
      (capacity - roomFor xs capacity)
    rw [min_eq_right lane] at kept_lane
    rw [min_eq_left (by omega)] at kept_others
    have kept_length := length_eq_countP_add (·.root) (newest (·.root) (xs.take k)
      (roomFor xs capacity) (capacity - roomFor xs capacity))
    rw [kept_lane, kept_others] at kept_length
    have short : (newest (·.root) (xs.take k) (roomFor xs capacity)
        (capacity - roomFor xs capacity)).length ≤ k := by omega
    have rest := rootsWithin_le (newest (·.root) (xs.drop k)
        (roomFor xs capacity - (xs.take k).countP (·.root))
        (capacity - roomFor xs capacity - (xs.take k).countP (!·.root)))
      (k - (newest (·.root) (xs.take k) (roomFor xs capacity)
        (capacity - roomFor xs capacity)).length)
    have here : rootsWithin (newest (·.root) (xs.take k) (roomFor xs capacity)
        (capacity - roomFor xs capacity)) k = (xs.take k).countP (·.root) := by
      unfold rootsWithin
      rw [List.take_of_length_le short, kept_lane]
    have wider := rootsWithin_add_le xs k (capacity - k)
    rw [Nat.add_sub_cancel' le] at wider
    rw [parts, rootsWithin_append, here]
    have bound := roomFor_le_capacity xs capacity
    unfold rootsWithin at wider ⊢
    unfold rootsWithin at rest
    omega

theorem roomFor_trimmed (full : capacity < xs.length) :
    roomFor (ys ++ trimmed xs capacity) capacity = roomFor (ys ++ xs) capacity := by
  have kept := (countP_trimmed xs full).1
  have window := rootsWithin_trimmed xs full (k := capacity - ys.length) (by omega)
  have newer := rootsWithin_le_roots ys capacity
  have newer_length : rootsWithin ys capacity ≤ ys.length := by
    unfold rootsWithin
    exact (List.take_sublist ..).countP_le.trans (List.countP_le_length ..)
  have newer_capacity := rootsWithin_le ys capacity
  have mono : rootsWithin xs (capacity - ys.length) ≤ rootsWithin xs capacity :=
    rootsWithin_mono xs (by omega)
  have older := rootsWithin_le (trimmed xs capacity) (capacity - ys.length)
  -- The reserve is reached in the room, or all roots are.
  have reserved : xs.countP (·.root) ≤ roomFor xs capacity ∨
      capacity / 2 ≤ roomFor xs capacity := by
    unfold roomFor
    omega
  have recent : rootsWithin xs capacity < roomFor xs capacity →
      roomFor xs capacity ≤ capacity / 2 := by
    unfold roomFor
    omega
  have roots := roomFor_le_roots xs capacity
  unfold roomFor at kept reserved recent roots window ⊢
  rw [rootsWithin_append, rootsWithin_append, List.countP_append, List.countP_append, kept]
  generalize max (rootsWithin xs capacity) (min (xs.countP (·.root)) (capacity / 2)) = room at *
  rcases window with same | ⟨more, few, wide⟩
  · rw [same]
    rcases reserved with all | full_reserve
    · rw [le_antisymm roots all]
    · rw [min_eq_right (by omega), min_eq_right (by omega)]
  · have within := recent wide
    rcases reserved with all | full_reserve
    · rw [← le_antisymm roots all]
      rw [max_eq_right (by omega), max_eq_right (by omega)]
    · rw [min_eq_right (by omega), min_eq_right (by omega)]
      rw [max_eq_right (by omega), max_eq_right (by omega)]

theorem room_le_kept (full : capacity < xs.length) :
    roomFor (ys ++ xs) capacity - ys.countP (·.root) ≤ roomFor xs capacity ∧
    capacity - roomFor (ys ++ xs) capacity - ys.countP (!·.root) ≤
      capacity - roomFor xs capacity := by
  have newer := rootsWithin_le_roots ys capacity
  have mono : rootsWithin xs (capacity - ys.length) ≤ rootsWithin xs capacity :=
    rootsWithin_mono xs (by omega)
  constructor
  · unfold roomFor
    rw [rootsWithin_append, List.countP_append]
    omega
  · suffices le : roomFor xs capacity ≤ roomFor (ys ++ xs) capacity + ys.countP (!·.root) by omega
    have recent := rootsWithin_le xs capacity
    have halves := length_eq_countP_add (·.root) ys
    -- What the newer entries show of their own lane, and what they hide of the older window.
    have shown : rootsWithin xs capacity ≤ rootsWithin ys capacity +
        rootsWithin xs (capacity - ys.length) + ys.countP (!·.root) := by
      by_cases long : capacity ≤ ys.length
      · have split := length_eq_countP_add (·.root) (ys.take capacity)
        rw [List.length_take_of_le long] at split
        have fewer : (ys.take capacity).countP (!·.root) ≤ ys.countP (!·.root) :=
          (List.take_sublist ..).countP_le
        unfold rootsWithin at recent ⊢
        omega
      · have hidden := rootsWithin_add_le xs (capacity - ys.length) ys.length
        rw [Nat.sub_add_cancel (by omega)] at hidden
        have whole : rootsWithin ys capacity = ys.countP (·.root) := by
          unfold rootsWithin
          rw [List.take_of_length_le (by omega)]
        omega
    unfold roomFor
    rw [rootsWithin_append, List.countP_append]
    omega

theorem trimmed_append (full : capacity < xs.length) :
    trimmed (ys ++ trimmed xs capacity) capacity = trimmed (ys ++ xs) capacity := by
  obtain ⟨lane, others⟩ := room_le_kept xs ys full
  have same := roomFor_trimmed xs ys full
  unfold trimmed at same ⊢
  rw [same, newest_append, newest_append, newest_newest _ _ lane others]

end

/-! ### Trimming step by step -/

theorem kept_eq_trimmed {entries : List TailEntry} {capacity : Nat}
    (full : capacity < entries.length) :
    (retainedTail entries capacity).kept = (trimmed entries.reverse capacity).reverse := by
  rw [kept_full entries capacity full, rootRoom_eq]
  rfl

theorem kept_trim_append (xs ys : List TailEntry) (capacity : Nat) :
    (retainedTail ((retainedTail xs capacity).kept ++ ys) capacity).kept =
      (retainedTail (xs ++ ys) capacity).kept := by
  by_cases full : capacity < xs.length
  · have full_reverse : capacity < xs.reverse.length := by simpa using full
    have kept := kept_eq_trimmed full
    have length : (retainedTail xs capacity).kept.length = capacity := by
      rw [kept, List.length_reverse, length_trimmed _ full_reverse]
    cases ys with
    | nil => rw [List.append_nil, List.append_nil, kept_all _ _ length.le]
    | cons y ys =>
      have full_kept : capacity < ((retainedTail xs capacity).kept ++ y :: ys).length := by
        rw [List.length_append, length, List.length_cons]
        omega
      have full_all : capacity < (xs ++ y :: ys).length := by
        rw [List.length_append]
        omega
      rw [kept_eq_trimmed full_kept, kept_eq_trimmed full_all, List.reverse_append,
        List.reverse_append, kept, List.reverse_reverse, trimmed_append _ _ full_reverse]
  · rw [kept_all xs capacity (by omega)]

/-! ### What a trim keeps -/

theorem length_kept (entries : List TailEntry) (capacity : Nat) :
    (retainedTail entries capacity).kept.length = min capacity entries.length := by
  by_cases full : capacity < entries.length
  · rw [kept_eq_trimmed full, List.length_reverse, length_trimmed _ (by simpa using full)]
    omega
  · rw [kept_all entries capacity (by omega)]
    omega

theorem lanes_kept (entries : List TailEntry) (capacity : Nat) :
    (retainedTail entries capacity).kept.filter (·.root) <:+ entries.filter (·.root) ∧
    (retainedTail entries capacity).kept.filter (!·.root) <:+ entries.filter (!·.root) := by
  by_cases full : capacity < entries.length
  · obtain ⟨lane, others⟩ := filter_newest (·.root) entries.reverse
      (roomFor entries.reverse capacity) (capacity - roomFor entries.reverse capacity)
    rw [kept_eq_trimmed full]
    unfold trimmed
    rw [List.filter_reverse, List.filter_reverse, lane, others, List.filter_reverse,
      List.filter_reverse, List.take_reverse, List.take_reverse, List.reverse_reverse,
      List.reverse_reverse]
    exact ⟨List.drop_suffix .., List.drop_suffix ..⟩
  · rw [kept_all entries capacity (by omega)]
    exact ⟨List.suffix_rfl, List.suffix_rfl⟩

theorem roots_kept (entries : List TailEntry) (capacity : Nat) :
    min (entries.countP (·.root)) (capacity / 2) ≤
      (retainedTail entries capacity).kept.countP (·.root) := by
  by_cases full : capacity < entries.length
  · rw [kept_eq_trimmed full, List.countP_reverse,
      (countP_trimmed entries.reverse (by simpa using full)).1]
    unfold roomFor
    rw [List.countP_reverse]
    exact le_max_right ..
  · rw [kept_all entries capacity (by omega)]
    exact min_le_left ..

/-- Later entries have later creation sequences, as far as these are known. -/
def InCreationOrder (entries : List TailEntry) : Prop :=
  entries.Pairwise fun a b => ∀ s ∈ a.seq, ∀ t ∈ b.seq, s < t

instance (entries : List TailEntry) : Decidable (InCreationOrder entries) :=
  inferInstanceAs (Decidable (entries.Pairwise _))

theorem fst_flaggedNewest (entries : List TailEntry) (capacity : Nat) :
    (flaggedNewest entries capacity).map Prod.fst = entries.reverse := by
  unfold flaggedNewest
  rw [List.map_fst_zip]
  rw [length_keepFlags]

/-- What the cursor is computed from: entries with their flags, newest first. -/
def cursorOf (flagged : List (TailEntry × Bool)) : Option Nat :=
  (((flagged.takeWhile (·.2)).reverse.map Prod.fst).find? (·.seq.isSome)).bind (·.seq) |>.or
    (((flagged.find? (!·.2)).map Prod.fst).bind (·.seq) |>.map (· + 1))

theorem evicted_before {flagged : List (TailEntry × Bool)}
    (order : (flagged.map Prod.fst).Pairwise fun a b => ∀ t ∈ b.seq, ∀ s ∈ a.seq, t < s)
    {before : Nat} (cursor : cursorOf flagged = some before) {entry : TailEntry}
    (evicted : (entry, false) ∈ flagged) {seq : Nat} (known : entry.seq = some seq) :
    seq < before := by
  have some_evicted : (flagged.find? (!·.2)).isSome = true := by
    rw [List.find?_isSome]
    exact ⟨_, evicted, rfl⟩
  obtain ⟨⟨newest, flag⟩, found⟩ := Option.isSome_iff_exists.mp some_evicted
  obtain ⟨unkept, newer, older, rfl, kept⟩ := List.find?_eq_some_iff_append.mp found
  simp only [Bool.not_eq_true'] at unkept
  subst unkept
  have before_newest : (newer ++ (newest, false) :: older).takeWhile (·.2) = newer := by
    rw [List.takeWhile_append_of_pos]
    · simp
    · intro pair member
      simpa using kept pair member
  unfold cursorOf at cursor
  rw [before_newest, found] at cursor
  rw [List.map_append, List.map_cons, List.pairwise_append, List.pairwise_cons] at order
  obtain ⟨-, ⟨newest_first, -⟩, across⟩ := order
  -- The entry is the newest evicted one, or older.
  have not_newer : (entry, false) ∉ newer := by
    intro member
    simpa using kept _ member
  have here : entry ∈ newest :: older.map Prod.fst := by
    rcases List.mem_append.mp evicted with first | later
    · exact absurd first not_newer
    · have there : entry ∈ ((newest, false) :: older).map Prod.fst := List.mem_map.mpr ⟨_, later, rfl⟩
      simpa using there
  cases boundary : (newer.reverse.map Prod.fst).find? (·.seq.isSome) with
  | some bound =>
    have member : bound ∈ newer.map Prod.fst := by
      simpa using List.mem_of_find?_eq_some boundary
    have is_known : bound.seq.isSome = true := by simpa using List.find?_some boundary
    obtain ⟨at_, bound_seq⟩ := Option.isSome_iff_exists.mp is_known
    simp only [boundary, Option.bind_some, bound_seq, Option.some_or, Option.some.injEq] at cursor
    subst cursor
    exact across bound member entry here seq known at_ bound_seq
  | none =>
    simp only [boundary, Option.bind_none, Option.none_or, Option.map_some, Option.bind_some,
      Option.map_eq_some_iff] at cursor
    obtain ⟨last, newest_seq, rfl⟩ := cursor
    rcases List.mem_cons.mp here with rfl | later
    · rw [known] at newest_seq
      cases newest_seq
      exact Nat.lt_succ_self seq
    · exact Nat.lt_succ_of_lt (newest_first entry later seq known last newest_seq)

theorem kept_from_before {entries : List TailEntry} (ordered : InCreationOrder entries)
    {capacity before : Nat} (cursor : (retainedTail entries capacity).before = some before)
    {entry : TailEntry} (member : entry ∈ entries) {seq : Nat} (known : entry.seq = some seq)
    (after : before ≤ seq) : entry ∈ (retainedTail entries capacity).kept := by
  by_cases full : capacity < entries.length
  · rw [retainedTail_full entries capacity full] at cursor ⊢
    have order : ((flaggedNewest entries capacity).map Prod.fst).Pairwise
        fun a b => ∀ t ∈ b.seq, ∀ s ∈ a.seq, t < s := by
      rw [fst_flaggedNewest, List.pairwise_reverse]
      exact ordered.imp fun h t ht s hs => h t ht s hs
    have there : entry ∈ (flaggedNewest entries capacity).map Prod.fst := by
      rw [fst_flaggedNewest]
      exact List.mem_reverse.mpr member
    obtain ⟨⟨_, flag⟩, flagged, rfl⟩ := List.mem_map.mp there
    cases flag with
    | false => exact absurd (evicted_before order cursor flagged known) (by omega)
    | true =>
      simp only [List.mem_reverse, List.mem_map, List.mem_filter]
      exact ⟨_, ⟨flagged, rfl⟩, rfl⟩
  · rw [kept_all entries capacity (by omega)]
    exact member

/-- **Live trimming.** Trimming after every delivery keeps what trimming once keeps; the tail
is full, each lane in it is a newest run, the root lane has its reserve, and nothing at or
after the cursor is missing. -/
theorem live_trimming (capacity : Nat) (xs ys : List TailEntry)
    (ordered : InCreationOrder (xs ++ ys)) :
    (retainedTail ((retainedTail xs capacity).kept ++ ys) capacity).kept =
        (retainedTail (xs ++ ys) capacity).kept ∧
    (retainedTail xs capacity).kept.length = min capacity xs.length ∧
    (retainedTail xs capacity).kept.filter (·.root) <:+ xs.filter (·.root) ∧
    (retainedTail xs capacity).kept.filter (!·.root) <:+ xs.filter (!·.root) ∧
    min (xs.countP (·.root)) (capacity / 2) ≤
      (retainedTail xs capacity).kept.countP (·.root) ∧
    ∀ before, (retainedTail xs capacity).before = some before →
      ∀ entry ∈ xs, ∀ seq, entry.seq = some seq → before ≤ seq →
        entry ∈ (retainedTail xs capacity).kept := by
  have in_order : InCreationOrder xs := ordered.sublist (List.sublist_append_left ..)
  obtain ⟨lane, others⟩ := lanes_kept xs capacity
  refine ⟨kept_trim_append xs ys capacity, length_kept xs capacity, lane, others,
    roots_kept xs capacity, ?_⟩
  intro before cursor entry member seq known after
  exact kept_from_before in_order cursor member known after

/-- Three entries in a tail of two: the root keeps its half. -/
theorem live_trimming_sample :
    (retainedTail ((retainedTail [⟨"a", some 1, true⟩, ⟨"b", some 2, false⟩,
        ⟨"c", some 3, false⟩] 2).kept ++ [⟨"d", some 4, false⟩]) 2).kept =
      [⟨"a", some 1, true⟩, ⟨"d", some 4, false⟩] := by
  rw [(live_trimming 2 _ _ (by decide)).1]
  decide

end Ace
