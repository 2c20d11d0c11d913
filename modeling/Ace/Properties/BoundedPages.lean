import Ace.Daemon.BoundedItemPage
import Ace.Script.Keyset

/-!
# Bounded pages are complete

A page takes the newest items before its cursor, and always one at least: an item that alone
exceeds the store's page is taken too, by itself or behind the older items that fit beside it. The
cursor that a page gives is that of its oldest item.

## Main result

`boundedItemPages_complete`
-/

namespace Ace.BoundedItemPage

open Script

structure Entry where
  item : Value
  seq : Int
  deriving DecidableEq

/-- What of a thread was created before a cursor. -/
def earlier (history : List Entry) (before : Int) : List Entry :=
  history.filter fun entry => decide (entry.seq < before)

/-- The cursor of a part of a history: that of its oldest item, null when nothing is older. -/
def cursorOf (older entries : List Entry) : Option Int :=
  if older = [] then none else entries.head?.map (·.seq)

/-- A source that reads a history. It returns the newest items before a cursor, one at least if
there is one, and refuses exactly when the newest alone does not fit. -/
structure ItemPageSource.Reads (source : ItemPageSource) (history : List Entry)
    (fits : Value → Int → Prop) : Prop where
  newestBefore : ∀ before, source.newestBefore before =
    (earlier history before).getLast?.map fun entry => (entry.item, entry.seq)
  hasItemBefore : ∀ before, source.hasItemBefore before = !(earlier history before).isEmpty
  refuses : ∀ before limit budget, 1 ≤ limit → (source.page before limit budget = none ↔
    ∃ entry, (earlier history before).getLast? = some entry ∧ ¬fits entry.item budget)
  pages : ∀ before limit budget page, 1 ≤ limit → source.page before limit budget = some page →
    ∃ older entries, earlier history before = older ++ entries ∧ entries.length ≤ limit ∧
      (entries = [] → older = []) ∧ page.items = entries.map (·.item) ∧
      page.itemsBefore = cursorOf older entries

variable {numberText : ℚ → List Char}

/-- How a page shows an item: whole, or not whole and then listed as omitted. -/
inductive Shown (numberText : ℚ → List Char) (entry : Entry) :
    Option Value → Option OmittedItem → Prop where
  | whole : Shown numberText entry (some entry.item) none
  | withoutRaw : Shown numberText entry (some (withoutRaw entry.item))
      (some (summary entry.item entry.seq (entry.item.jsonBytes numberText) .raw))
  | clipped {room : Int} {clipped : Value}
      (cut : clippedFor numberText entry.item room = some clipped) :
      Shown numberText entry (some clipped)
        (some (summary entry.item entry.seq (entry.item.jsonBytes numberText) .text))
  | summary : Shown numberText entry none
      (some (summary entry.item entry.seq (entry.item.jsonBytes numberText) .item))

/-- The items and omissions that show the entries of a history, in order. -/
def Depicts (numberText : ℚ → List Char) (entries : List Entry) (items : List Value)
    (omitted : List OmittedItem) : Prop :=
  ∃ shown : List (Option Value × Option OmittedItem),
    List.Forall₂ (fun entry one => Shown numberText entry one.1 one.2) entries shown ∧
    items = shown.filterMap Prod.fst ∧ omitted = shown.filterMap Prod.snd

theorem Depicts.append {older newer : List Entry} {items items' : List Value}
    {omitted omitted' : List OmittedItem} (first : Depicts numberText older items omitted)
    (second : Depicts numberText newer items' omitted') :
    Depicts numberText (older ++ newer) (items ++ items') (omitted ++ omitted') := by
  obtain ⟨shown, each, rfl, rfl⟩ := first
  obtain ⟨shown', each', rfl, rfl⟩ := second
  exact ⟨shown ++ shown', List.rel_append each each', by simp, by simp⟩

theorem depicts_nil : Depicts numberText [] [] [] := ⟨[], .nil, rfl, rfl⟩

theorem depicts_whole (entries : List Entry) :
    Depicts numberText entries (entries.map (·.item)) [] := by
  induction entries with
  | nil => exact depicts_nil
  | cons entry rest ih =>
    have one : Depicts numberText [entry] [entry.item] [] :=
      ⟨[(some entry.item, none)], .cons .whole .nil, rfl, rfl⟩
    exact one.append ih

theorem depicts_oversized (entry : Entry) (room : Int) :
    Depicts numberText [entry] (shownFor numberText entry.item room).toList
      [summary entry.item entry.seq (entry.item.jsonBytes numberText)
        (droppedFor numberText entry.item room)] := by
  refine ⟨[(shownFor numberText entry.item room, some _)], .cons ?_ .nil, ?_, rfl⟩
  · simp only [droppedFor]
    cases cut : clippedFor numberText entry.item room with
    | some clipped =>
      simp only [shownFor, cut, Option.some_or, Option.isSome_some, if_true]
      exact .clipped cut
    | none =>
      simp only [shownFor, cut, Option.none_or, Option.isSome_none]
      split
      · exact .withoutRaw
      · exact .summary
  · cases shownFor numberText entry.item room <;> rfl

/-! ### Cursors -/

variable {history : List Entry}

theorem earlier_earlier {before seq : Int} (sooner : seq ≤ before) :
    earlier (earlier history before) seq = earlier history seq := by
  rw [earlier, earlier, List.filter_filter]
  apply List.filter_congr
  intro entry _
  by_cases first : entry.seq < seq
  · simp [first, Int.lt_of_lt_of_le first sooner]
  · simp [first]

instance : Std.Asymm fun a b : Entry => b.seq < a.seq where
  asymm _ _ := Int.lt_asymm

theorem earlier_of_split (sorted : history.Pairwise fun a b => a.seq < b.seq) {before : Int}
    {older rest : List Entry} {entry : Entry}
    (split : earlier history before = older ++ entry :: rest) :
    earlier history entry.seq = older := by
  have member : entry ∈ earlier history before := by
    rw [split]
    simp
  have sooner : entry.seq ≤ before :=
    Int.le_of_lt (of_decide_eq_true (List.mem_filter.mp member).2)
  have part : (older ++ entry :: rest).Pairwise fun a b => a.seq < b.seq :=
    split ▸ sorted.filter _
  -- The older items are those after this one in the reversed list.
  have reversed : (rest.reverse ++ entry :: older.reverse).Pairwise
      fun a b : Entry => b.seq < a.seq := by
    have turned := List.pairwise_reverse.mpr part
    simpa using turned
  have after := Keyset.filter_after reversed
  have turned : (earlier (older ++ entry :: rest) entry.seq).reverse = older.reverse := by
    rw [earlier, ← List.filter_reverse]
    simpa using after
  rw [← earlier_earlier sooner, split]
  exact List.reverse_injective turned

/-! ### One page -/

variable {source : ItemPageSource} {fits : Value → Int → Prop}

/-- What a page is of the history before its cursor. -/
structure Paged (numberText : ℚ → List Char) (history : List Entry) (before : Int) (limit : Nat)
    (parts : Parts) (older entries : List Entry) : Prop where
  split : earlier history before = older ++ entries
  most : entries.length ≤ limit
  depicts : Depicts numberText entries parts.items parts.omitted
  ends : parts.itemsBefore = none ↔ older = []
  goesOn : ∀ cursor, parts.itemsBefore = some cursor → earlier history cursor = older

variable (sorted : history.Pairwise fun a b => a.seq < b.seq) (reads : source.Reads history fits)

include reads in
theorem paged_stop (before : Int) (limit : Nat) :
    Paged numberText history before limit (stop source before) (earlier history before) [] where
  split := (List.append_nil _).symm
  most := Nat.zero_le _
  depicts := depicts_nil
  ends := by simp [stop, reads.hasItemBefore]
  goesOn := by
    intro cursor found
    simp only [stop] at found
    split at found
    · cases found
      rfl
    · cases found

include sorted in
theorem paged_page {before : Int} {limit : Nat} {page : StorePage} {older entries : List Entry}
    (split : earlier history before = older ++ entries) (most : entries.length ≤ limit)
    (some_ : entries = [] → older = []) (items : page.items = entries.map (·.item))
    (cursor : page.itemsBefore = cursorOf older entries) :
    Paged numberText history before limit
      { items := page.items, itemSeqs := page.itemSeqs.getD .empty, omitted := []
        itemsBefore := page.itemsBefore } older entries where
  split := split
  most := most
  depicts := items ▸ depicts_whole entries
  ends := by
    rw [cursor, cursorOf]
    split
    next none_ => simp [none_]
    next more =>
      cases entries with
      | nil => exact absurd (some_ rfl) more
      | cons entry rest => simp [more]
  goesOn := by
    intro start found
    rw [cursor, cursorOf] at found
    split at found
    · cases found
    · cases entries with
      | nil => cases found
      | cons entry rest =>
        cases found
        exact earlier_of_split sorted split

variable (numberText) in
include sorted reads in
theorem fill_beside {full budget : Int} (before : Int) {limit : Nat} (some_ : 1 ≤ limit)
    (spent : budget < full) : ∃ parts older entries,
      fill numberText source full limit before budget = some parts ∧
      Paged numberText history before limit parts older entries := by
  unfold fill
  split
  · exact ⟨_, _, _, rfl, paged_stop reads before limit⟩
  · split
    next page found =>
      obtain ⟨older, entries, split, most, least, items, cursor⟩ :=
        reads.pages before limit budget page some_ found
      exact ⟨_, older, entries, rfl, paged_page sorted split most least items cursor⟩
    next => exact ⟨_, _, _, rfl, paged_stop reads before limit⟩

variable (numberText) in
theorem markerBytes_pos (item : Value) (seq : Int) : 0 < markerBytes numberText item seq := by
  rw [markerBytes]
  omega

theorem entryBytes_nonneg (value : Value) (id : String) : 0 ≤ entryBytes numberText value id := by
  rw [entryBytes]
  omega

include sorted in
theorem Paged.oversized {before : Int} {limit : Nat} {rest : Parts}
    {front older entries : List Entry} {entry : Entry}
    (split : earlier history before = front ++ [entry])
    (page : Paged numberText history entry.seq limit rest older entries) (room : Int)
    (itemSeqs : Dictionary Int) :
    Paged numberText history before (limit + 1)
      { items := rest.items ++ (shownFor numberText entry.item room).toList
        itemSeqs
        omitted := rest.omitted ++ [summary entry.item entry.seq
          (entry.item.jsonBytes numberText) (droppedFor numberText entry.item room)]
        itemsBefore := rest.itemsBefore } older (entries ++ [entry]) where
  split := by
    rw [← List.append_assoc, ← page.split, earlier_of_split sorted split, split]
  most := by simpa using page.most
  depicts := page.depicts.append (depicts_oversized entry room)
  ends := page.ends
  goesOn := page.goesOn

variable (numberText) in
include sorted reads in
theorem fill_full (full before : Int) {limit : Nat} (some_ : 1 ≤ limit) : ∃ parts older entries,
      fill numberText source full limit before full = some parts ∧
      Paged numberText history before limit parts older entries ∧ (entries = [] → older = []) := by
  unfold fill
  rw [if_neg (by omega)]
  split
  next page found =>
    obtain ⟨older, entries, split, most, least, items, cursor⟩ :=
      reads.pages before limit full page some_ found
    exact ⟨_, older, entries, rfl, paged_page sorted split most least items cursor, least⟩
  next refused =>
    rw [if_neg (Int.lt_irrefl full)]
    obtain ⟨entry, newest, -⟩ := (reads.refuses before limit full some_).mp refused
    obtain ⟨front, split⟩ := List.getLast?_eq_some_iff.mp newest
    rw [reads.newestBefore, newest]
    simp only [Option.map_some, Option.bind_some]
    set room := full - envelope - markerBytes numberText entry.item entry.seq
    set used := ((shownFor numberText entry.item room).map fun shown =>
      entryBytes numberText shown (Item.id entry.item)).getD 0 +
        markerBytes numberText entry.item entry.seq
    -- The summary alone spends some of the page, so what is beside it does not recur.
    have spent : full - used < full := by
      have marker := markerBytes_pos numberText entry.item entry.seq
      have shown : 0 ≤ ((shownFor numberText entry.item room).map fun shown =>
          entryBytes numberText shown (Item.id entry.item)).getD 0 := by
        cases shownFor numberText entry.item room with
        | none => simp
        | some shown => exact entryBytes_nonneg shown _
      omega
    obtain ⟨count, rfl⟩ : ∃ count, limit = count + 1 := ⟨limit - 1, by omega⟩
    cases count with
    | zero =>
      exact ⟨_, _, _, rfl, (paged_stop reads entry.seq 0).oversized sorted split room _, by simp⟩
    | succ count =>
      obtain ⟨rest, older, entries, filled, page⟩ :=
        fill_beside numberText sorted reads entry.seq
          (Nat.succ_le_succ (Nat.zero_le count)) spent
      simp only [filled, Option.map_some]
      exact ⟨_, _, _, rfl, page.oversized sorted split room _, by simp⟩

/-! ### All pages -/

/-- The pages that a reader gets who follows `itemsBefore` from a cursor on. -/
inductive Follows (numberText : ℚ → List Char) (source : ItemPageSource) (threadId : String)
    (limit : Nat) (byteLimit : Int) : Int → List Page → Prop where
  | last {before : Int} {page : Page}
      (read : boundedItemPage numberText source threadId before limit byteLimit = some page)
      (ended : page.itemsBefore = none) :
      Follows numberText source threadId limit byteLimit before [page]
  | more {before cursor : Int} {page : Page} {pages : List Page}
      (read : boundedItemPage numberText source threadId before limit byteLimit = some page)
      (goes : page.itemsBefore = some cursor)
      (rest : Follows numberText source threadId limit byteLimit cursor pages) :
      Follows numberText source threadId limit byteLimit before (page :: pages)

variable {threadId : String} {limit : Nat} {byteLimit : Int}

theorem Follows.unique {before : Int} {pages other : List Page}
    (first : Follows numberText source threadId limit byteLimit before pages)
    (second : Follows numberText source threadId limit byteLimit before other) :
    other = pages := by
  induction first generalizing other with
  | last read ended =>
    cases second with
    | last read' _ => rw [Option.some.inj (read'.symm.trans read)]
    | more read' goes _ =>
      cases read'.symm.trans read
      cases ended.symm.trans goes
  | more read goes _ ih =>
    cases second with
    | last read' ended =>
      cases read'.symm.trans read
      cases ended.symm.trans goes
    | more read' goes' rest' =>
      cases read'.symm.trans read
      cases goes'.symm.trans goes
      rw [ih rest']

def Page.omissions (page : Page) : List OmittedItem := page.omitted.getD []

variable (numberText) in
include sorted reads in
theorem boundedItemPage_paged (threadId : String) (byteLimit : Int) (some_ : 1 ≤ limit)
    (before : Int) : ∃ page older entries,
    boundedItemPage numberText source threadId before limit byteLimit = some page ∧
    earlier history before = older ++ entries ∧ entries.length ≤ limit ∧
    (entries = [] → older = []) ∧ Depicts numberText entries page.items page.omissions ∧
    (page.itemsBefore = none ↔ older = []) ∧
    ∀ cursor, page.itemsBefore = some cursor → earlier history cursor = older := by
  obtain ⟨parts, older, entries, filled, page, least⟩ :=
    fill_full numberText sorted reads byteLimit before some_
  rw [boundedItemPage, filled, Option.map_some]
  refine ⟨_, older, entries, rfl, page.split, page.most, least, ?_, page.ends, page.goesOn⟩
  have omissions : (if parts.omitted.isEmpty then none else some parts.omitted).getD [] =
      parts.omitted := by
    cases parts.omitted <;> rfl
  simp only [Page.omissions, omissions]
  exact page.depicts

include sorted reads in
/-- Reading back page by page ends, and shows every earlier item once and in order: whole, without
its raw payloads, with its text clipped, or by its entry in `omitted`. The parts that the pages
show are at most `limit` long and make up the history. -/
theorem boundedItemPages_complete (some_ : 1 ≤ limit) (before : Int) :
    ∃ pages, Follows numberText source threadId limit byteLimit before pages ∧
      (∀ other, Follows numberText source threadId limit byteLimit before other → other = pages) ∧
      Depicts numberText (earlier history before) (pages.reverse.flatMap (·.items))
        (pages.reverse.flatMap Page.omissions) ∧
      ∃ slices, earlier history before = slices.reverse.flatten ∧
        List.Forall₂ (fun slice page => slice.length ≤ limit ∧
          Depicts numberText slice page.items page.omissions) slices pages := by
  generalize size : (earlier history before).length = count
  induction count using Nat.strong_induction_on generalizing before with
  | _ count ih =>
    obtain ⟨page, older, entries, read, split, most, least, depicts, ends, goesOn⟩ :=
      boundedItemPage_paged numberText sorted reads threadId byteLimit some_ before
    match next : page.itemsBefore with
    | none =>
      have none_ := ends.mp next
      rw [none_, List.nil_append] at split
      have follows : Follows numberText source threadId limit byteLimit before [page] :=
        .last read next
      refine ⟨[page], follows, fun other => follows.unique, ?_, [entries], ?_, ?_⟩
      · rw [split]
        simpa using depicts
      · rw [split]
        simp
      · exact .cons ⟨most, depicts⟩ .nil
    | some cursor =>
      have more : older ≠ [] := fun none_ => by simp [ends.mpr none_] at next
      have below := goesOn cursor next
      have fewer : (earlier history cursor).length < count := by
        have some_ : entries ≠ [] := fun none_ => more (least none_)
        have positive := List.length_pos_iff.mpr some_
        rw [below, ← size, split, List.length_append]
        omega
      obtain ⟨pages, rest, -, shown, slices, whole, each⟩ := ih _ fewer cursor rfl
      have follows : Follows numberText source threadId limit byteLimit before (page :: pages) :=
        .more read next rest
      rw [below] at shown whole
      refine ⟨page :: pages, follows, fun other => follows.unique, ?_, entries :: slices, ?_, ?_⟩
      · rw [split]
        simpa using shown.append depicts
      · rw [split, List.reverse_cons, List.flatten_append, ← whole]
        simp
      · exact .cons ⟨most, depicts⟩ each

/-! ### A thread -/

/-- A store that returns one item at a time. -/
def singly (history : List Entry) (fits : Value → Int → Bool) : ItemPageSource where
  page before _ byteLimit :=
    match (earlier history before).getLast? with
    | none => some { items := [], itemSeqs := none, itemsBefore := none }
    | some entry =>
      if fits entry.item byteLimit then
        some
          { items := [entry.item]
            itemSeqs := none
            itemsBefore := cursorOf (earlier history before).dropLast [entry] }
      else none
  newestBefore before := (earlier history before).getLast?.map fun entry => (entry.item, entry.seq)
  hasItemBefore before := !(earlier history before).isEmpty

theorem singly_reads (history : List Entry) (fits : Value → Int → Bool) :
    (singly history fits).Reads history (fun item budget => fits item budget) where
  newestBefore _ := rfl
  hasItemBefore _ := rfl
  refuses := by
    intro before limit budget _
    simp only [singly]
    cases (earlier history before).getLast? with
    | none => simp
    | some entry => simp
  pages := by
    intro before limit budget page some_ read
    simp only [singly] at read
    split at read
    next none_ =>
      cases read
      rw [List.getLast?_eq_none_iff] at none_
      exact ⟨[], [], none_, Nat.zero_le _, fun _ => rfl, rfl, rfl⟩
    next entry newest =>
      split at read
      · cases read
        obtain ⟨front, split⟩ := List.getLast?_eq_some_iff.mp newest
        refine ⟨front, [entry], split, some_, nofun, rfl, ?_⟩
        simp only [split, List.dropLast_concat]
      · cases read

def message (id text : String) (seq : Int) : Entry :=
  ⟨.obj [("id", .str id), ("type", .str "message"), ("text", .str text)], seq⟩

def sampleHistory : List Entry := [message "a" "one" 1, message "b" "two" 4, message "c" "three" 9]

/-- The second of three items fits no page. -/
theorem boundedItemPages_sample : ∃ pages,
    Follows (fun _ => ['0']) (singly sampleHistory fun item _ => item.field "id" != .str "b") "t" 2
      700 100 pages ∧
    Depicts (fun _ => ['0']) (earlier sampleHistory 100) (pages.reverse.flatMap (·.items))
      (pages.reverse.flatMap Page.omissions) := by
  have sorted : sampleHistory.Pairwise fun a b => a.seq < b.seq := by decide
  obtain ⟨pages, follows, -, shown, -⟩ := boundedItemPages_complete sorted
    (singly_reads sampleHistory fun item _ => item.field "id" != .str "b") (Nat.le_succ 1) 100
  exact ⟨pages, follows, shown⟩

end Ace.BoundedItemPage
