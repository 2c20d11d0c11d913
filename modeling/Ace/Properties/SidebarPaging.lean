import Ace.Properties.SidebarPages
import Ace.Script.Keyset

/-!
# Reading the sidebar page by page

A client follows `window.before` until it is null. The paged entries are in strict order, so
that what is after a cursor is what is after the entry it names, and each page takes the next
entries of one list.

## Main result

`sidebar_paging`
-/

namespace Ace.Sidebar

open Script

/-- The pages that a client reads from a cursor on. -/
inductive Follows (entries : List ThreadListEntry) (options : SidebarOptions) :
    Option ThreadListCursor → List SidebarPage → Prop where
  | last {before : Option ThreadListCursor}
      (ended : (sidebarPage entries options before).before = none) :
      Follows entries options before [sidebarPage entries options before]
  | more {before : Option ThreadListCursor} {cursor : ThreadListCursor} {pages : List SidebarPage}
      (goes : (sidebarPage entries options before).before = some cursor)
      (rest : Follows entries options (some cursor) pages) :
      Follows entries options before (sidebarPage entries options before :: pages)

/-- Newer, or of the same time with a smaller id. -/
def StrictlyBefore (archived : Bool) (a b : ThreadListEntry) : Prop :=
  listedAt archived b < listedAt archived a ∨
    (listedAt archived a = listedAt archived b ∧ codeUnits a.id < codeUnits b.id)

instance (archived : Bool) : DecidableRel (StrictlyBefore archived) := fun _ _ =>
  inferInstanceAs (Decidable (_ ∨ _))

instance (archived : Bool) : Std.Asymm (StrictlyBefore archived) where
  asymm a b := by
    rintro (earlier | ⟨time, first⟩) (later | ⟨time', second⟩)
    · omega
    · omega
    · omega
    · exact lt_asymm first second

variable {entries : List ThreadListEntry} {options : SidebarOptions}

theorem Follows.unique {before : Option ThreadListCursor} {pages pages' : List SidebarPage}
    (first : Follows entries options before pages) (second : Follows entries options before pages') :
    pages' = pages := by
  induction first generalizing pages' with
  | last ended =>
    cases second with
    | last _ => rfl
    | more goes _ => simp [ended] at goes
  | more goes _ ih =>
    cases second with
    | last ended => simp [ended] at goes
    | more goes' rest =>
      rw [goes, Option.some.injEq] at goes'
      subst goes'
      rw [ih rest]

/-! ### One list -/

/-- The entries that are paged, in the order of the sidebar. -/
abbrev allPaged (entries : List ThreadListEntry) (options : SidebarOptions) :
    List ThreadListEntry :=
  restBy codeUnits (paged options.archived) entries options none

theorem mem_allPaged {entry : ThreadListEntry} : entry ∈ allPaged entries options ↔
    entry ∈ entries ∧ shown options entry = true ∧ paged options.archived entry = true := by
  simp [allPaged, restBy, afterBy]

theorem restBy_eq (nodup : (entries.map (·.id)).Nodup) (before : Option ThreadListCursor) :
    restBy codeUnits (paged options.archived) entries options before =
      (allPaged entries options).filter (isAfter options.archived before) := by
  have everything : ∀ l : List ThreadListEntry, l.filter (isAfter options.archived none) = l :=
    fun l => List.filter_eq_self.mpr fun _ _ => rfl
  rw [← filter_after nodup, allPaged, ← filter_after nodup, everything]

theorem isAfter_cursorOf (archived : Bool) (x y : ThreadListEntry) :
    isAfter archived (some (cursorOf archived x)) y = decide (StrictlyBefore archived x y) := by
  rw [Bool.eq_iff_iff, decide_eq_true_iff]
  simp only [isAfter, cursorOf, StrictlyBefore, Bool.or_eq_true, Bool.and_eq_true]
  exact or_congr decide_eq_true_iff
    (and_congr (decide_eq_true_iff.trans eq_comm) decide_eq_true_iff)

theorem allPaged_sorted (nodup : (entries.map (·.id)).Nodup) :
    (allPaged entries options).Pairwise (StrictlyBefore options.archived) := by
  have weakly : (allPaged entries options).Pairwise (listedBy codeUnits options.archived) :=
    List.pairwise_insertionSort _ _
  have distinct : (allPaged entries options).Pairwise fun a b => a ≠ b := by
    refine (List.perm_insertionSort _ _).nodup_iff.mpr ?_
    exact (List.Nodup.of_map _ nodup).filter _
  refine (weakly.and distinct).imp_of_mem ?_
  rintro a b inA inB ⟨earlier | ⟨time, first⟩, different⟩
  · exact .inl earlier
  · refine .inr ⟨time, lt_of_le_of_ne first fun same => different ?_⟩
    -- The same id is the same entry.
    exact List.inj_on_of_nodup_map nodup (mem_allPaged.mp inA).1 (mem_allPaged.mp inB).1
      (codeUnits_injective same)

/-! ### One page -/

def pagedEntries (archived : Bool) (page : SidebarPage) : List ThreadListEntry :=
  page.threads.filter (paged archived)

theorem pagedEntries_sidebarPage (nodup : (entries.map (·.id)).Nodup)
    (before : Option ThreadListCursor) :
    pagedEntries options.archived (sidebarPage entries options before) =
      (restBy codeUnits (paged options.archived) entries options before).take options.limit := by
  rw [sidebarPage_eq nodup, pagedEntries, pageBy, List.filter_append]
  have live : (if before.isSome then [] else
      liveBy codeUnits (paged options.archived) entries options).filter
        (paged options.archived) = [] := by
    rw [List.filter_eq_nil_iff]
    intro entry member
    split at member
    · exact absurd member List.not_mem_nil
    · simp only [liveBy, List.mem_insertionSort, List.mem_filter, Bool.and_eq_true,
        Bool.not_eq_true'] at member
      simp [member.2.2]
  rw [live, List.nil_append, List.filter_eq_self]
  intro entry member
  have inRest := List.mem_of_mem_take member
  simp only [restBy, List.mem_insertionSort, List.mem_filter, Bool.and_eq_true] at inRest
  exact inRest.2.1.2

theorem total_sidebarPage (nodup : (entries.map (·.id)).Nodup)
    (before : Option ThreadListCursor) :
    (sidebarPage entries options before).total = (allPaged entries options).length := by
  rw [sidebarPage_eq nodup]
  simp [pageBy, allPaged, restBy, afterBy]

theorem before_sidebarPage (nodup : (entries.map (·.id)).Nodup)
    (before : Option ThreadListCursor) :
    (sidebarPage entries options before).before =
      let rest := restBy codeUnits (paged options.archived) entries options before
      if options.limit < rest.length then
        (rest.take options.limit).getLast?.map (cursorOf options.archived) else none := by
  rw [sidebarPage_eq nodup]
  rfl

/-! ### All pages -/

theorem exists_pages (nodup : (entries.map (·.id)).Nodup) (positive : 1 ≤ options.limit) (n : Nat) :
    ∀ (before : Option ThreadListCursor) (rest : List ThreadListEntry),
    rest = restBy codeUnits (paged options.archived) entries options before →
    rest <:+ allPaged entries options → rest.length ≤ n →
    ∃ pages, Follows entries options before pages ∧
      pages.flatMap (pagedEntries options.archived) = rest ∧
      ∀ page ∈ pages, page.total = (allPaged entries options).length := by
  induction n with
  | zero =>
    intro before rest isRest _ short
    have none : (sidebarPage entries options before).before = none := by
      rw [before_sidebarPage nodup, ← isRest]
      exact if_neg (by omega)
    refine ⟨_, .last none, ?_, fun page member => ?_⟩
    · rw [List.flatMap_singleton, pagedEntries_sidebarPage nodup, ← isRest]
      exact List.take_of_length_le (by omega)
    · rw [List.mem_singleton.mp member]
      exact total_sidebarPage nodup before
  | succ n ih =>
    intro before rest isRest suffix short
    have window := @before_sidebarPage _ options nodup before
    rw [← isRest] at window
    by_cases more : options.limit < rest.length
    · -- The next page starts after the last entry of this one.
      obtain ⟨front, x, page, whole⟩ := Keyset.exists_last positive more
      simp only [if_pos more, page, List.getLast?_append, List.getLast?_singleton, Option.some_or,
        Option.map_some] at window
      obtain ⟨earlier, list⟩ := suffix
      have split : allPaged entries options = (earlier ++ front) ++ x :: rest.drop options.limit := by
        rw [← list, List.append_assoc, ← whole]
      have sorted := @allPaged_sorted _ options nodup
      rw [split] at sorted
      have after : rest.drop options.limit = restBy codeUnits (paged options.archived) entries
          options (some (cursorOf options.archived x)) := by
        rw [restBy_eq nodup, split]
        rw [List.filter_congr fun y _ => isAfter_cursorOf options.archived x y]
        exact (Keyset.filter_after sorted).symm
      have tail : rest.drop options.limit <:+ allPaged entries options :=
        ⟨earlier ++ front ++ [x], by rw [split]; simp⟩
      obtain ⟨pages, follows, concat, totals⟩ := ih _ _ after tail (by
        rw [List.length_drop]
        omega)
      refine ⟨_, .more window follows, ?_, fun p member => ?_⟩
      · rw [List.flatMap_cons, concat, pagedEntries_sidebarPage nodup, ← isRest]
        exact List.take_append_drop _ _
      · rcases List.mem_cons.mp member with rfl | later
        · exact total_sidebarPage nodup before
        · exact totals p later
    · rw [if_neg more] at window
      refine ⟨_, .last window, ?_, fun page member => ?_⟩
      · rw [List.flatMap_singleton, pagedEntries_sidebarPage nodup, ← isRest]
        exact List.take_of_length_le (by omega)
      · rw [List.mem_singleton.mp member]
        exact total_sidebarPage nodup before

def isPaged (options : SidebarOptions) (entry : ThreadListEntry) : Bool :=
  sidebarVisible entry options.archived && ofProject options entry.workspaceId &&
    paged options.archived entry

theorem shown_eq (entry : ThreadListEntry) : shown options entry =
    (sidebarVisible entry options.archived && ofProject options entry.workspaceId) := by
  rw [shown]

/-- **Sidebar paging loses and repeats nothing.** Following `before` ends after the pages of
one list: the first has every visible, matching entry that is not paged, their paged entries
are those of the thread list, each once, newest first and by id at one time, and every page
tells how many they are. -/
theorem sidebar_paging (nodup : (entries.map (·.id)).Nodup) (positive : 1 ≤ options.limit) :
    ∃ first later, Follows entries options none (first :: later) ∧
      (∀ pages, Follows entries options none pages → pages = first :: later) ∧
      (∀ entry ∈ entries, sidebarVisible entry options.archived = true →
        ofProject options entry.workspaceId = true → paged options.archived entry = false →
        entry ∈ first.threads) ∧
      ((first :: later).flatMap (pagedEntries options.archived)).Perm
        (entries.filter (isPaged options)) ∧
      ((first :: later).flatMap (pagedEntries options.archived)).Pairwise
        (StrictlyBefore options.archived) ∧
      ∀ page ∈ first :: later, page.total = (entries.filter (isPaged options)).length := by
  obtain ⟨pages, follows, concat, totals⟩ := exists_pages nodup positive _ none _ rfl
    (List.suffix_refl _) (Nat.le_refl _)
  have perm : (allPaged entries options).Perm (entries.filter (isPaged options)) := by
    refine (List.perm_insertionSort _ _).trans (List.Perm.of_eq (List.filter_congr fun entry _ => ?_))
    simp [shown_eq, isPaged, afterBy]
  have start : ∃ later, pages = sidebarPage entries options none :: later := by
    cases follows with
    | last _ => exact ⟨[], rfl⟩
    | more _ rest => exact ⟨_, rfl⟩
  obtain ⟨later, rfl⟩ := start
  refine ⟨_, later, follows, fun _ other => follows.unique other, ?_, ?_, ?_, ?_⟩
  · intro entry inside visible matching unpaged
    rw [sidebarPage_eq nodup]
    refine List.mem_append_left _ ?_
    simp [liveBy, inside, shown_eq, visible, matching, unpaged]
  · rw [concat]
    exact perm
  · rw [concat]
    exact allPaged_sorted nodup
  · intro page member
    rw [totals page member, perm.length_eq]

/-- Two settled threads of one time are read on two pages. -/
theorem sidebar_paging_sample :
    ∃ first later, Follows [{ settledSample with id := "b" }, { settledSample with id := "a" }]
        { limit := 1 } none (first :: later) ∧
      ((first :: later).flatMap (pagedEntries false)).Perm
        ([{ settledSample with id := "b" }, { settledSample with id := "a" }].filter
          (isPaged { limit := 1 })) := by
  obtain ⟨first, later, follows, _, _, perm, _⟩ := @sidebar_paging
    [{ settledSample with id := "b" }, { settledSample with id := "a" }]
    { limit := 1 } (by decide) (by decide)
  exact ⟨first, later, follows, perm⟩

end Ace.Sidebar
