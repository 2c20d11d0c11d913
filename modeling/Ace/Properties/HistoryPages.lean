import Ace.Projection.Window
import Mathlib.Data.List.Sort

/-!
# Pages of history merge by creation sequence

A page keeps the view's values and cursors and adds its own items. Where they are placed
depends on what the view knows: an item whose sequence neither the page nor the view holds is
taken to be newer than the whole page. A page's sequences are not kept in the view, so this is
wrong of the items of an earlier page when a later page holds newer ones.

## Main result

`merges_iff`: two pages merge as they should exactly when every fresh item is older than the
items without a known sequence, also those that the other page brings, and the pages agree on
the items they share.
-/

namespace Ace.Window

open Script

/-! ### Merging two sorted lists -/

section

variable (seq : String → Int)

/-- The merge without looking for repeats. -/
def plainMerge (older newer : List String) : List String :=
  List.merge older newer fun a b => decide (seq a ≤ seq b)

theorem mergeFrom_eq (fuel : Nat) : ∀ older newer last, older.length + newer.length ≤ fuel →
    (older ++ newer).Nodup → (∀ id ∈ last, id ∉ older ++ newer) →
    mergeFrom seq fuel older newer last = plainMerge seq older newer := by
  induction fuel with
  | zero =>
    intro older newer last enough _ _
    have none : older = [] ∧ newer = [] := by
      constructor <;> apply List.eq_nil_of_length_eq_zero <;> omega
    rw [none.1, none.2]
    simp [mergeFrom, plainMerge]
  | succ fuel ih =>
    intro older newer last enough distinct apart
    have pushed : ∀ id ∈ older ++ newer, ∀ rest, push id last rest = id :: rest := by
      intro id member rest
      rw [push, if_neg]
      rintro rfl
      exact apart id rfl member
    cases older with
    | nil =>
      cases newer with
      | nil => simp [mergeFrom, plainMerge]
      | cons b newer =>
        rw [List.nil_append] at distinct pushed
        rw [mergeFrom, pushed b List.mem_cons_self, ih [] newer (some b)]
        · simp [plainMerge]
        · simp only [List.length_nil, List.length_cons] at enough ⊢
          omega
        · exact distinct.of_cons
        · rintro id ⟨⟩
          exact (List.nodup_cons.mp distinct).1
    | cons a older =>
      have first := List.nodup_cons.mp (List.cons_append ▸ distinct)
      cases newer with
      | nil =>
        rw [mergeFrom, pushed a List.mem_cons_self, ih older [] (some a)]
        · simp [plainMerge]
        · simp only [List.length_nil, List.length_cons] at enough ⊢
          omega
        · exact first.2
        · rintro id ⟨⟩
          exact first.1
      | cons b newer =>
        have second := List.nodup_cons.mp (List.nodup_middle.mp distinct)
        have differ : a ≠ b := by
          rintro rfl
          exact first.1 (List.mem_append_right _ List.mem_cons_self)
        rw [mergeFrom, plainMerge, List.merge]
        simp only [decide_eq_true_eq]
        split
        · rw [if_neg (fun both => differ both.2), pushed a List.mem_cons_self, ih]
          · rfl
          · simp only [List.length_cons] at enough ⊢
            omega
          · exact first.2
          · rintro id ⟨⟩
            exact first.1
        · rw [pushed b (by simp), ih]
          · rfl
          · simp only [List.length_cons] at enough ⊢
            omega
          · exact second.2
          · rintro id ⟨⟩
            exact second.1

theorem mergeBySeq_eq {older newer : List String} (distinct : (older ++ newer).Nodup) :
    mergeBySeq older newer seq = plainMerge seq older newer :=
  mergeFrom_eq seq _ older newer none (Nat.le_refl _) distinct nofun

theorem plainMerge_perm (older newer : List String) :
    (plainMerge seq older newer).Perm (older ++ newer) := List.merge_perm_append _

theorem plainMerge_sorted {older newer : List String}
    (olderSorted : older.Pairwise fun a b => seq a ≤ seq b)
    (newerSorted : newer.Pairwise fun a b => seq a ≤ seq b) :
    (plainMerge seq older newer).Pairwise fun a b => seq a ≤ seq b := by
  have merged : (plainMerge seq older newer).Pairwise
      fun a b => decide (seq a ≤ seq b) = true := by
    apply List.pairwise_merge
    · intro a b c ab bc
      simp only [decide_eq_true_eq] at ab bc ⊢
      omega
    · intro a b
      simp only [Bool.or_eq_true, decide_eq_true_eq]
      omega
    · exact olderSorted.imp decide_eq_true
    · exact newerSorted.imp decide_eq_true
  exact merged.imp of_decide_eq_true

theorem plainMerge_congr {seq seq' : String → Int} (older : List String) : ∀ newer,
    (∀ a ∈ older, ∀ b ∈ newer, seq a ≤ seq b ↔ seq' a ≤ seq' b) →
    plainMerge seq older newer = plainMerge seq' older newer := by
  induction older with
  | nil =>
    intro newer _
    simp [plainMerge]
  | cons a older ih =>
    intro newer
    induction newer with
    | nil =>
      intro _
      simp [plainMerge]
    | cons b newer ihNewer =>
      intro alike
      have head := alike a List.mem_cons_self b List.mem_cons_self
      have one := ih (b :: newer) fun x inOlder => alike x (List.mem_cons_of_mem a inOlder)
      have two := ihNewer fun x inOlder y inNewer =>
        alike x inOlder y (List.mem_cons_of_mem b inNewer)
      rw [plainMerge] at one two ⊢
      rw [plainMerge] at one two
      rw [plainMerge, List.merge, List.merge, one, two]
      simp only [head]

theorem rel_of_le {R : String → String → Prop} {a b : String} (older : List String) :
    ∀ newer, older.Pairwise (fun x y => seq x ≤ seq y) → a ∈ older → b ∈ newer → seq a ≤ seq b →
    (plainMerge seq older newer).Pairwise R → R a b := by
  induction older with
  | nil => exact fun _ _ inOlder => absurd inOlder List.not_mem_nil
  | cons x older ih =>
    intro newer sorted inOlder
    induction newer with
    | nil => exact fun inNewer => absurd inNewer List.not_mem_nil
    | cons y newer ihNewer =>
      intro inNewer before ordered
      rw [plainMerge, List.merge] at ordered
      simp only [decide_eq_true_eq] at ordered
      split at ordered
      · rcases List.mem_cons.mp inOlder with rfl | later
        · apply List.rel_of_pairwise_cons ordered
          rw [List.mem_merge]
          exact Or.inr inNewer
        · exact ih (y :: newer) (List.pairwise_cons.mp sorted).2 later inNewer before
            (List.pairwise_cons.mp ordered).2
      · next behind =>
        rcases List.mem_cons.mp inNewer with rfl | later
        · -- the head of the older list is placed no later than `a`
          have head : seq x ≤ seq a := by
            rcases List.mem_cons.mp inOlder with rfl | deeper
            · exact le_refl _
            · exact (List.pairwise_cons.mp sorted).1 a deeper
          exact absurd (le_trans head before) behind
        · exact ihNewer later before (List.pairwise_cons.mp ordered).2

end

/-! ### Views and pages of one thread -/

variable (σ : String → Nat)

def Sorted (ids : List String) : Prop := ids.Pairwise fun a b => σ a < σ b

/-- The recorded sequences are those in which the items were created. -/
def Truthful (itemSeqs : Option (Dictionary Nat)) : Prop :=
  ∀ id n, itemSeqs.bind (·.get? id) = some n → n = σ id

/-- The items of a thread are created one at a time, at a sequence that a number holds
exactly. -/
structure Creation (thread : List String) : Prop where
  distinct : ∀ a ∈ thread, ∀ b ∈ thread, σ a = σ b → a = b
  safe : ∀ id ∈ thread, (σ id : Int) ≤ MAX_SAFE_INTEGER

structure GoodView (thread : List String) (view : HistoryView) : Prop where
  held : ∀ id ∈ view.itemOrder, id ∈ thread
  sorted : Sorted σ view.itemOrder
  truthful : Truthful σ view.itemSeqs

/-- A page of the thread: oldest first and with the sequence of each of its items. -/
structure GoodPage (thread : List String) (view : HistoryView) (page : ItemsPage) : Prop where
  held : ∀ id ∈ page.ids, id ∈ thread
  thread : page.threadId = view.threadId
  sorted : Sorted σ page.ids
  truthful : Truthful σ page.itemSeqs
  cursors : ∀ id ∈ page.ids, (page.itemSeqs.bind (·.get? id)).isSome

structure SameView (v w : HistoryView) : Prop where
  seq : v.seq = w.seq
  threadId : v.threadId = w.threadId
  items : ∀ id, v.items.get? id = w.items.get? id
  itemOrder : v.itemOrder = w.itemOrder
  itemSeqs : v.itemSeqs = w.itemSeqs
  itemsBefore : v.itemsBefore = w.itemsBefore

/-- What a page is to do to a view. -/
structure Merged (view : HistoryView) (page : ItemsPage) (after : HistoryView) : Prop where
  nodup : after.itemOrder.Nodup
  sorted : Sorted σ after.itemOrder
  union : ∀ id, id ∈ after.itemOrder ↔ id ∈ view.itemOrder ∨ id ∈ page.ids
  values : ∀ id value, view.items.get? id = some value → after.items.get? id = some value
  seq : after.seq = view.seq
  /-- The cursor moves backward only, and stays at the start of the thread. -/
  before : match view.itemsBefore, after.itemsBefore with
    | none, before => before = none
    | some _, none => True
    | some before, some next => next ≤ before

/-- What two pages of a thread are to do: each merges, merging one again changes nothing, and
their order makes no difference. -/
def Merges (view : HistoryView) (p q : ItemsPage) : Prop :=
  ∃ afterP afterQ afterPQ afterQP,
    applyItemsPage view p = some afterP ∧ applyItemsPage view q = some afterQ ∧
      applyItemsPage afterP q = some afterPQ ∧ applyItemsPage afterQ p = some afterQP ∧
      Merged σ view p afterP ∧ Merged σ view q afterQ ∧
      applyItemsPage afterP p = some afterP ∧ applyItemsPage afterQ q = some afterQ ∧
      SameView afterPQ afterQP

/-! ### When they do -/

/-- The page or the view holds the sequence of the item. -/
def Known (view : HistoryView) (page : ItemsPage) (id : String) : Prop :=
  (page.itemSeqs.bind (·.get? id)).isSome ∨ (view.itemSeqs.bind (·.get? id)).isSome

/-- Every item that the page adds is older than the items whose sequence is not known. -/
def Placed (view : HistoryView) (page : ItemsPage) : Prop :=
  ∀ a ∈ page.ids, a ∉ view.itemOrder → ∀ b ∈ view.itemOrder, ¬ Known view page b → σ a < σ b

/-- What only `p` adds and `q` does not know of is newer than what only `q` adds. -/
def Behind (view : HistoryView) (p q : ItemsPage) : Prop :=
  ∀ x ∈ p.ids, x ∉ view.itemOrder → x ∉ q.ids → ¬ Known view q x →
    ∀ y ∈ q.ids, y ∉ view.itemOrder → y ∉ p.ids → σ y < σ x

/-- The pages agree on the items that both bring. -/
def AgreeOn (view : HistoryView) (p q : ItemsPage) : Prop :=
  ∀ a ∈ p.items, ∀ b ∈ q.items, Item.id a = Item.id b → view.items.get? (Item.id a) = none →
    a.json = b.json

structure Condition (view : HistoryView) (p q : ItemsPage) : Prop where
  placedP : Placed σ view p
  placedQ : Placed σ view q
  behindP : Behind σ view p q
  behindQ : Behind σ view q p
  agree : AgreeOn view p q

/-! ### What a page adds -/

theorem admit_older (order : List String) (page : List Value) : ∀ items older,
    (page.map Item.id).Nodup → (∀ id ∈ page.map Item.id, id ∉ older) →
    (admitItems order page items older).2 =
      older ++ (page.map Item.id).filter fun id => decide (id ∉ order) := by
  induction page with
  | nil =>
    intro items older _ _
    simp [admitItems]
  | cons item rest ih =>
    intro items older distinct apart
    rw [List.map_cons, List.nodup_cons] at distinct
    have here := apart (Item.id item) List.mem_cons_self
    rw [admitItems, List.map_cons, List.filter_cons]
    by_cases held : Item.id item ∈ order
    · simp only [held, true_or, if_true, not_true, decide_false, Bool.false_eq_true, if_false]
      exact ih _ older distinct.2 fun id member => apart id (List.mem_cons_of_mem _ member)
    · simp only [held, here, or_self, if_false, not_false_eq_true, decide_true, if_true]
      rw [ih _ _ distinct.2, List.append_assoc, List.singleton_append]
      intro id member
      rw [List.mem_append, List.mem_singleton, not_or]
      refine ⟨apart id (List.mem_cons_of_mem _ member), ?_⟩
      rintro rfl
      exact distinct.1 member

theorem get?_admit (order : List String) (page : List Value) (id : String) : ∀ items older,
    (admitItems order page items older).1.get? id =
      (items.get? id).or ((page.find? fun item => Item.id item = id).map Value.json) := by
  induction page with
  | nil =>
    intro items older
    simp [admitItems]
  | cons item rest ih =>
    intro items older
    rw [admitItems, ih, List.find?_cons]
    by_cases same : Item.id item = id
    · simp only [same, decide_true]
      by_cases held : items.contains id = true
      · obtain ⟨value, found⟩ := Option.isSome_iff_exists.mp held
        simp [held, found]
      · have absent : items.get? id = none := by simpa [Dictionary.contains] using held
        simp [held, absent, trackItem, same]
    · simp only [same, decide_false]
      by_cases held : items.contains (Item.id item) = true
      · simp [held]
      · simp [held, trackItem, Dictionary.get?_put_ne _ _ same]

variable {σ} {thread : List String} {view : HistoryView} {page : ItemsPage}

/-- The ids that a page adds to the order. -/
def fresh (view : HistoryView) (page : ItemsPage) : List String :=
  page.ids.filter fun id => decide (id ∉ view.itemOrder)

theorem mem_fresh (id : String) : id ∈ fresh view page ↔ id ∈ page.ids ∧ id ∉ view.itemOrder := by
  simp [fresh]

theorem Sorted.nodup {ids : List String} (sorted : Sorted σ ids) : ids.Nodup :=
  sorted.imp fun before => ne_of_apply_ne σ (Nat.ne_of_lt before)

theorem admit_eq_fresh (good : GoodPage σ thread view page) :
    (admitItems view.itemOrder page.items view.items []).2 = fresh view page := by
  rw [admit_older _ _ _ _ good.sorted.nodup (by simp)]
  rfl

/-! ### Where an item is placed -/

theorem Truthful.lookUp {itemSeqs : Option (Dictionary Nat)} (truthful : Truthful σ itemSeqs)
    {id : String} (known : (itemSeqs.bind (·.get? id)).isSome) :
    lookUp itemSeqs id = some (σ id : Int) := by
  obtain ⟨n, found⟩ := Option.isSome_iff_exists.mp known
  rw [Window.lookUp, found, truthful id n found]
  rfl

theorem lookUp_eq_none {itemSeqs : Option (Dictionary Nat)} {id : String}
    (unknown : ¬ (itemSeqs.bind (·.get? id)).isSome) : lookUp itemSeqs id = none := by
  rw [Window.lookUp, Option.not_isSome_iff_eq_none.mp unknown]
  rfl

theorem placedBy_of_known (truthfulView : Truthful σ view.itemSeqs)
    (truthfulPage : Truthful σ page.itemSeqs) (fresh : List String) {id : String}
    (known : Known view page id) : placedBy view page fresh id = σ id := by
  rw [placedBy]
  by_cases inPage : (page.itemSeqs.bind (·.get? id)).isSome
  · rw [truthfulPage.lookUp inPage]
    rfl
  · rw [lookUp_eq_none inPage, truthfulView.lookUp (known.resolve_left inPage)]
    rfl

theorem placedBy_of_unknown (fresh : List String) {id : String} (unknown : ¬ Known view page id)
    (held : id ∉ fresh) : placedBy view page fresh id = MAX_SAFE_INTEGER := by
  rw [Known, not_or] at unknown
  rw [placedBy, lookUp_eq_none unknown.1, lookUp_eq_none unknown.2, if_neg held]
  rfl

theorem placedBy_fresh (goodView : GoodView σ thread view) (goodPage : GoodPage σ thread view page)
    {id : String} (member : id ∈ page.ids) :
    placedBy view page (fresh view page) id = σ id :=
  placedBy_of_known goodView.truthful goodPage.truthful _ (Or.inl (goodPage.cursors id member))

theorem le_placedBy (creation : Creation σ thread) (goodView : GoodView σ thread view)
    (goodPage : GoodPage σ thread view page) {id : String} (held : id ∈ view.itemOrder) :
    (σ id : Int) ≤ placedBy view page (fresh view page) id := by
  by_cases known : Known view page id
  · rw [placedBy_of_known goodView.truthful goodPage.truthful _ known]
  · rw [placedBy_of_unknown _ known fun member => ((mem_fresh id).mp member).2 held]
    exact creation.safe id (goodView.held id held)

theorem fresh_sorted (goodView : GoodView σ thread view) (goodPage : GoodPage σ thread view page) :
    (fresh view page).Pairwise fun x y =>
      placedBy view page (fresh view page) x ≤ placedBy view page (fresh view page) y := by
  refine (goodPage.sorted.filter _).imp_of_mem fun {x y} inX inY before => ?_
  rw [placedBy_fresh goodView goodPage ((mem_fresh x).mp inX).1,
    placedBy_fresh goodView goodPage ((mem_fresh y).mp inY).1]
  exact_mod_cast Nat.le_of_lt before

theorem fresh_apart (goodView : GoodView σ thread view) (goodPage : GoodPage σ thread view page) :
    (fresh view page ++ view.itemOrder).Nodup := by
  rw [List.nodup_append']
  refine ⟨goodPage.sorted.nodup.filter _, goodView.sorted.nodup, fun id inFresh inView => ?_⟩
  exact ((mem_fresh id).mp inFresh).2 inView

theorem mergePage_itemOrder (goodView : GoodView σ thread view) (goodPage : GoodPage σ thread view page) :
    (mergePage view page).itemOrder =
      plainMerge (placedBy view page (fresh view page)) (fresh view page) view.itemOrder := by
  rw [mergePage]
  simp only [admit_eq_fresh goodPage]
  exact mergeBySeq_eq _ (fresh_apart goodView goodPage)

theorem mergePage_perm (goodView : GoodView σ thread view) (goodPage : GoodPage σ thread view page) :
    (mergePage view page).itemOrder.Perm (fresh view page ++ view.itemOrder) := by
  rw [mergePage_itemOrder goodView goodPage]
  exact plainMerge_perm _ _ _

theorem mem_mergePage (goodView : GoodView σ thread view) (goodPage : GoodPage σ thread view page)
    (id : String) :
    id ∈ (mergePage view page).itemOrder ↔ id ∈ view.itemOrder ∨ id ∈ page.ids := by
  rw [(mergePage_perm goodView goodPage).mem_iff, List.mem_append, mem_fresh]
  tauto

/-! ### The order after a page -/

theorem sorted_iff (creation : Creation σ thread) (goodView : GoodView σ thread view)
    (goodPage : GoodPage σ thread view page) :
    Sorted σ (mergePage view page).itemOrder ↔ Placed σ view page := by
  rw [mergePage_itemOrder goodView goodPage]
  constructor
  · intro sorted a inPage added b held unknown
    refine rel_of_le _ _ _ (fresh_sorted goodView goodPage)
      ((mem_fresh a).mpr ⟨inPage, added⟩) held ?_ sorted
    rw [placedBy_fresh goodView goodPage inPage,
      placedBy_of_unknown _ unknown fun member => ((mem_fresh b).mp member).2 held]
    exact creation.safe a (goodPage.held a inPage)
  · intro placed
    -- the merge compares as creation does
    have same : plainMerge (placedBy view page (fresh view page)) (fresh view page)
        view.itemOrder = plainMerge (fun id => (σ id : Int)) (fresh view page) view.itemOrder := by
      apply plainMerge_congr
      intro a inFresh b held
      obtain ⟨inPage, added⟩ := (mem_fresh a).mp inFresh
      rw [placedBy_fresh goodView goodPage inPage]
      by_cases known : Known view page b
      · rw [placedBy_of_known goodView.truthful goodPage.truthful _ known]
      · have before : (σ a : Int) ≤ σ b := by
          exact_mod_cast Nat.le_of_lt (placed a inPage added b held known)
        have later := le_placedBy creation goodView goodPage held
        exact ⟨fun _ => before, fun _ => le_trans before later⟩
    rw [same]
    have ordered : (plainMerge (fun id => (σ id : Int)) (fresh view page)
        view.itemOrder).Pairwise fun a b => (σ a : Int) ≤ σ b := by
      have weak : ∀ ids, Sorted σ ids → ids.Pairwise fun a b => (σ a : Int) ≤ σ b := by
        intro ids sorted
        refine sorted.imp fun before => ?_
        exact_mod_cast Nat.le_of_lt before
      exact plainMerge_sorted _ (weak _ (goodPage.sorted.filter _)) (weak _ goodView.sorted)
    have distinct := ((plainMerge_perm (fun id => (σ id : Int)) (fresh view page)
      view.itemOrder).nodup_iff).mpr (fresh_apart goodView goodPage)
    have inThread : ∀ id ∈ plainMerge (fun id => (σ id : Int)) (fresh view page) view.itemOrder,
        id ∈ thread := by
      intro id member
      rw [(plainMerge_perm _ _ _).mem_iff, List.mem_append, mem_fresh] at member
      exact member.elim (fun added => goodPage.held id added.1) (goodView.held id)
    refine (ordered.and distinct).imp_of_mem fun {a b} inA inB both => ?_
    have differ : σ a ≠ σ b :=
      fun equal => both.2 (creation.distinct a (inThread a inA) b (inThread b inB) equal)
    have before := both.1
    omega

theorem merged_order_nodup (goodView : GoodView σ thread view) (goodPage : GoodPage σ thread view page) :
    (mergePage view page).itemOrder.Nodup :=
  (mergePage_perm goodView goodPage).nodup_iff.mpr (fresh_apart goodView goodPage)

theorem GoodView.merged (creation : Creation σ thread) (goodView : GoodView σ thread view)
    (goodPage : GoodPage σ thread view page) (placed : Placed σ view page) :
    GoodView σ thread (mergePage view page) :=
  ⟨fun id member => ((mem_mergePage goodView goodPage id).mp member).elim (goodView.held id)
    (goodPage.held id), (sorted_iff creation goodView goodPage).mpr placed, goodView.truthful⟩

theorem GoodPage.merged {other : ItemsPage} (goodPage : GoodPage σ thread view page) :
    GoodPage σ thread (mergePage view other) page :=
  ⟨goodPage.held, goodPage.thread, goodPage.sorted, goodPage.truthful, goodPage.cursors⟩

theorem apply_of_good (goodPage : GoodPage σ thread view page) :
    applyItemsPage view page = some (mergePage view page) := by
  rw [applyItemsPage, if_neg (not_not.mpr goodPage.thread)]

theorem get?_mergePage (id : String) :
    (mergePage view page).items.get? id =
      (view.items.get? id).or ((page.items.find? fun item => Item.id item = id).map Value.json) :=
  get?_admit view.itemOrder page.items id view.items []

theorem merged_of_placed (creation : Creation σ thread) (goodView : GoodView σ thread view)
    (goodPage : GoodPage σ thread view page) (placed : Placed σ view page) :
    Merged σ view page (mergePage view page) where
  nodup := merged_order_nodup goodView goodPage
  sorted := (sorted_iff creation goodView goodPage).mpr placed
  union := mem_mergePage goodView goodPage
  values := by
    intro id value found
    rw [get?_mergePage, found]
    rfl
  seq := rfl
  before := by
    rw [mergePage]
    simp only
    cases view.itemsBefore with
    | none => rfl
    | some before =>
      cases page.itemsBefore with
      | none => trivial
      | some next => exact Nat.min_le_left _ _

/-! ### The same page again -/

theorem admit_of_held (order : List String) (page : List Value) : ∀ items older,
    (∀ id ∈ page.map Item.id, items.contains id = true ∧ id ∈ order) →
    admitItems order page items older = (items, older) := by
  induction page with
  | nil => exact fun _ _ _ => rfl
  | cons item rest ih =>
    intro items older held
    obtain ⟨tracked, ordered⟩ := held (Item.id item) List.mem_cons_self
    rw [admitItems, if_pos tracked, if_pos (Or.inl ordered)]
    exact ih items older fun id member => held id (List.mem_cons_of_mem _ member)

theorem mergePage_twice (goodView : GoodView σ thread view) (goodPage : GoodPage σ thread view page) :
    mergePage (mergePage view page) page = mergePage view page := by
  have held : ∀ id ∈ page.items.map Item.id,
      (mergePage view page).items.contains id = true ∧ id ∈ (mergePage view page).itemOrder := by
    intro id member
    refine ⟨?_, (mem_mergePage goodView goodPage id).mpr (Or.inr member)⟩
    obtain ⟨item, inPage, isId⟩ := List.mem_map.mp member
    have found : (page.items.find? fun item => Item.id item = id).isSome := by
      rw [List.find?_isSome]
      exact ⟨item, inPage, by simpa using isId⟩
    rw [Dictionary.contains, get?_mergePage]
    cases view.items.get? id with
    | none => simpa using found
    | some value => rfl
  have order : mergeBySeq [] (mergePage view page).itemOrder
      (placedBy (mergePage view page) page []) = (mergePage view page).itemOrder := by
    have distinct : ([] ++ (mergePage view page).itemOrder).Nodup :=
      merged_order_nodup goodView goodPage
    rw [mergeBySeq_eq _ distinct]
    simp [plainMerge]
  have before : (mergePage (mergePage view page) page).itemsBefore =
      (mergePage view page).itemsBefore := by
    rw [mergePage, mergePage]
    simp only
    cases view.itemsBefore with
    | none => rfl
    | some before =>
      cases page.itemsBefore with
      | none => rfl
      | some next => simp
  have shape : mergePage (mergePage view page) page =
      { mergePage view page with
        itemsBefore := (mergePage (mergePage view page) page).itemsBefore } := by
    conv_lhs => rw [mergePage]
    rw [admit_of_held _ _ _ _ held]
    simp only [order]
    rfl
  rw [shape, before]

/-! ### Two pages -/

variable {p q : ItemsPage}

theorem idxOf_pairwise {ids : List String} (distinct : ids.Nodup) :
    ids.Pairwise fun a b => ids.idxOf a < ids.idxOf b := by
  rw [List.pairwise_iff_getElem]
  intro i j inI inJ before
  rw [distinct.idxOf_getElem, distinct.idxOf_getElem]
  exact before

theorem behind_of_same (creation : Creation σ thread) (goodView : GoodView σ thread view)
    (goodP : GoodPage σ thread view p) (goodQ : GoodPage σ thread view q) (placedP : Placed σ view p)
    (placedQ : Placed σ view q)
    (same : (mergePage (mergePage view p) q).itemOrder =
      (mergePage (mergePage view q) p).itemOrder) : Behind σ view p q := by
  intro x inP newX notQ unknown y inQ newY notP
  have viewP := goodView.merged creation goodP placedP
  have viewQ := goodView.merged creation goodQ placedQ
  have pageP : GoodPage σ thread (mergePage view q) p := goodP.merged
  have pageQ : GoodPage σ thread (mergePage view p) q := goodQ.merged
  have heldX : x ∈ (mergePage view p).itemOrder :=
    (mem_mergePage goodView goodP x).mpr (Or.inr inP)
  have heldY : y ∈ (mergePage view q).itemOrder :=
    (mem_mergePage goodView goodQ y).mpr (Or.inr inQ)
  have freshX : x ∈ fresh (mergePage view q) p := by
    rw [mem_fresh, mem_mergePage goodView goodQ, not_or]
    exact ⟨inP, newX, notQ⟩
  have freshY : y ∈ fresh (mergePage view p) q := by
    rw [mem_fresh, mem_mergePage goodView goodP, not_or]
    exact ⟨inQ, newY, notP⟩
  have distinct := merged_order_nodup viewP pageQ
  have ordered := idxOf_pairwise distinct
  by_contra late
  -- after `p`, what `q` adds goes before an item it does not know of
  have first : (mergePage (mergePage view p) q).itemOrder.idxOf y <
      (mergePage (mergePage view p) q).itemOrder.idxOf x := by
    rw [mergePage_itemOrder viewP pageQ] at ordered ⊢
    apply rel_of_le _ _ _ (fresh_sorted viewP pageQ) freshY heldX _ ordered
    rw [placedBy_fresh viewP pageQ inQ, placedBy_of_unknown]
    · exact creation.safe y (goodQ.held y inQ)
    · exact unknown
    · exact fun member => ((mem_fresh x).mp member).2 heldX
  -- after `q`, an older item that `p` adds goes before a newer one
  have second : (mergePage (mergePage view p) q).itemOrder.idxOf x <
      (mergePage (mergePage view p) q).itemOrder.idxOf y := by
    rw [same, mergePage_itemOrder viewQ pageP] at ordered ⊢
    apply rel_of_le _ _ _ (fresh_sorted viewQ pageP) freshX heldY _ ordered
    rw [placedBy_fresh viewQ pageP inP]
    apply le_trans _ (le_placedBy creation viewQ pageP heldY)
    exact_mod_cast Nat.not_lt.mp late
  omega

theorem placed_after (goodView : GoodView σ thread view) (goodP : GoodPage σ thread view p)
    (goodQ : GoodPage σ thread view q) (placedQ : Placed σ view q) (behind : Behind σ view p q) :
    Placed σ (mergePage view p) q := by
  intro a inQ added b held unknown
  rw [mem_mergePage goodView goodP, not_or] at added
  by_cases inView : b ∈ view.itemOrder
  · exact placedQ a inQ added.1 b inView unknown
  · have inP := ((mem_mergePage goodView goodP b).mp held).resolve_left inView
    have notQ : b ∉ q.ids := fun member => unknown (Or.inl (goodQ.cursors b member))
    exact behind b inP inView notQ unknown a inQ added.1 added.2

theorem order_comm (creation : Creation σ thread) (goodView : GoodView σ thread view)
    (goodP : GoodPage σ thread view p) (goodQ : GoodPage σ thread view q) (condition : Condition σ view p q) :
    (mergePage (mergePage view p) q).itemOrder = (mergePage (mergePage view q) p).itemOrder := by
  have viewP := goodView.merged creation goodP condition.placedP
  have viewQ := goodView.merged creation goodQ condition.placedQ
  have pageP : GoodPage σ thread (mergePage view q) p := goodP.merged
  have pageQ : GoodPage σ thread (mergePage view p) q := goodQ.merged
  have sortedPQ := (sorted_iff creation viewP pageQ).mpr
    (placed_after goodView goodP goodQ condition.placedQ condition.behindP)
  have sortedQP := (sorted_iff creation viewQ pageP).mpr
    (placed_after goodView goodQ goodP condition.placedP condition.behindQ)
  have perm : (mergePage (mergePage view p) q).itemOrder.Perm
      (mergePage (mergePage view q) p).itemOrder := by
    rw [List.perm_ext_iff_of_nodup sortedPQ.nodup sortedQP.nodup]
    intro id
    rw [mem_mergePage viewP pageQ, mem_mergePage viewQ pageP, mem_mergePage goodView goodP,
      mem_mergePage goodView goodQ]
    tauto
  exact perm.eq_of_pairwise (fun a b _ _ before after => absurd (Nat.lt_trans before after)
    (Nat.lt_irrefl _)) sortedPQ sortedQP

theorem find?_of_mem {items : List Value} (distinct : (items.map Item.id).Nodup) {item : Value}
    (member : item ∈ items) :
    items.find? (fun other => Item.id other = Item.id item) = some item := by
  cases found : items.find? fun other => Item.id other = Item.id item with
  | none =>
    rw [List.find?_eq_none] at found
    exact absurd (decide_eq_true rfl) (found item member)
  | some other =>
    have same : Item.id other = Item.id item := by simpa using List.find?_some found
    rw [List.inj_on_of_nodup_map distinct (List.mem_of_find?_eq_some found) member same]

theorem items_comm_iff (goodP : GoodPage σ thread view p) (goodQ : GoodPage σ thread view q) :
    (∀ id, (mergePage (mergePage view p) q).items.get? id =
      (mergePage (mergePage view q) p).items.get? id) ↔ AgreeOn view p q := by
  simp only [get?_mergePage]
  constructor
  · intro same a inP b inQ shared absent
    have here := same (Item.id a)
    rw [absent, Option.none_or, Option.none_or, find?_of_mem goodP.sorted.nodup inP, shared,
      find?_of_mem goodQ.sorted.nodup inQ] at here
    exact Option.some.inj here
  · intro agree id
    cases absent : view.items.get? id with
    | some value => rfl
    | none =>
      cases foundP : p.items.find? fun item => Item.id item = id with
      | none => simp
      | some a =>
        cases foundQ : q.items.find? fun item => Item.id item = id with
        | none => simp
        | some b =>
          have idA : Item.id a = id := by simpa using List.find?_some foundP
          have idB : Item.id b = id := by simpa using List.find?_some foundQ
          have same := agree a (List.mem_of_find?_eq_some foundP) b
            (List.mem_of_find?_eq_some foundQ) (idA.trans idB.symm) (idA ▸ absent)
          simp [same]

theorem before_comm : (mergePage (mergePage view p) q).itemsBefore =
    (mergePage (mergePage view q) p).itemsBefore := by
  simp only [mergePage]
  cases view.itemsBefore <;> cases p.itemsBefore <;> cases q.itemsBefore <;>
    simp [Nat.min_comm, Nat.min_left_comm]

/-- Two pages merge as they should exactly under the condition. -/
theorem merges_iff (creation : Creation σ thread) (view : HistoryView) (p q : ItemsPage)
    (goodView : GoodView σ thread view) (goodP : GoodPage σ thread view p) (goodQ : GoodPage σ thread view q) :
    Merges σ view p q ↔ Condition σ view p q := by
  have pageP : GoodPage σ thread (mergePage view q) p := goodP.merged
  have pageQ : GoodPage σ thread (mergePage view p) q := goodQ.merged
  constructor
  · rintro ⟨afterP, afterQ, afterPQ, afterQP, isP, isQ, isPQ, isQP, mergedP, mergedQ, _, _, same⟩
    rw [apply_of_good goodP, Option.some.injEq] at isP
    rw [apply_of_good goodQ, Option.some.injEq] at isQ
    subst isP isQ
    rw [apply_of_good pageQ, Option.some.injEq] at isPQ
    rw [apply_of_good pageP, Option.some.injEq] at isQP
    subst isPQ isQP
    have placedP := (sorted_iff creation goodView goodP).mp mergedP.sorted
    have placedQ := (sorted_iff creation goodView goodQ).mp mergedQ.sorted
    exact ⟨placedP, placedQ,
      behind_of_same creation goodView goodP goodQ placedP placedQ same.itemOrder,
      behind_of_same creation goodView goodQ goodP placedQ placedP same.itemOrder.symm,
      (items_comm_iff goodP goodQ).mp same.items⟩
  · intro condition
    refine ⟨_, _, _, _, apply_of_good goodP, apply_of_good goodQ, apply_of_good pageQ,
      apply_of_good pageP, merged_of_placed creation goodView goodP condition.placedP,
      merged_of_placed creation goodView goodQ condition.placedQ, ?_, ?_, ?_⟩
    · rw [apply_of_good goodP.merged, mergePage_twice goodView goodP]
    · rw [apply_of_good goodQ.merged, mergePage_twice goodView goodQ]
    · exact ⟨rfl, rfl, (items_comm_iff goodP goodQ).mpr condition.agree,
        order_comm creation goodView goodP goodQ condition, rfl, before_comm⟩

/-! ### A sample thread -/

def sampleItem (id : String) : Value := .obj [("id", .str id)]

def sampleThread : List String := ["a", "b", "c"]

def sampleSeq (id : String) : Nat := sampleThread.idxOf id

def samplePage (id : String) (seq : Nat) : ItemsPage where
  seq := 9
  threadId := "t"
  items := [sampleItem id]
  itemSeqs := some (Dictionary.empty.put id seq)

def sampleView : HistoryView where
  seq := 9
  threadId := "t"
  itemOrder := ["c"]
  itemSeqs := some (Dictionary.empty.put "c" 2)

theorem sample_creation : Creation sampleSeq sampleThread := ⟨by decide, by decide⟩

theorem truthful_sample (id : String) (seq : Nat) (true_ : seq = sampleSeq id) :
    Truthful sampleSeq (some (Dictionary.empty.put id seq)) := by
  intro other n found
  rw [Option.bind_some, Dictionary.get?_put] at found
  split at found
  · next same => rw [← Option.some.inj found, true_, same]
  · cases found

theorem sampleView_good : GoodView sampleSeq sampleThread sampleView :=
  ⟨by decide, List.pairwise_singleton _ _, truthful_sample "c" 2 rfl⟩

theorem samplePage_good {id : String} (inThread : id ∈ sampleThread) (seq : Nat)
    (true_ : seq = sampleSeq id) :
    GoodPage sampleSeq sampleThread sampleView (samplePage id seq) := by
  have ids : (samplePage id seq).ids = [id] := rfl
  refine ⟨?_, rfl, ?_, truthful_sample id seq true_, ?_⟩
  · rw [ids]
    exact fun other member => List.mem_singleton.mp member ▸ inThread
  · rw [ids]
    exact List.pairwise_singleton _ _
  · rw [ids]
    intro other member
    rw [List.mem_singleton.mp member]
    simp [samplePage]

theorem merges_sample : Merges sampleSeq sampleView (samplePage "b" 1) (samplePage "b" 1) := by
  have page : GoodPage sampleSeq sampleThread sampleView (samplePage "b" 1) :=
    samplePage_good (by decide) 1 (by decide)
  apply (merges_iff sample_creation sampleView _ _ sampleView_good page page).mpr
  have placed : Placed sampleSeq sampleView (samplePage "b" 1) := by
    intro a _ _ b held unknown
    rw [List.mem_singleton.mp held] at unknown
    exact absurd (Or.inr (by decide)) unknown
  refine ⟨placed, placed, fun x inP _ notP => absurd inP notP, fun x inP _ notP => absurd inP notP,
    fun a inP b inQ _ _ => ?_⟩
  rw [List.mem_singleton.mp inP, List.mem_singleton.mp inQ]

/-- The older of two pages comes first: the newer one's item is put before it. -/
theorem pages_out_of_order :
    ¬ Merges sampleSeq sampleView (samplePage "b" 1) (samplePage "a" 0) := by
  rintro ⟨afterP, afterQ, afterPQ, afterQP, isP, isQ, isPQ, isQP, _, _, _, _, same⟩
  rw [applyItemsPage, if_neg (by decide), Option.some.injEq] at isP isQ
  subst isP isQ
  rw [applyItemsPage, if_neg (by decide), Option.some.injEq] at isPQ isQP
  subst isPQ isQP
  exact absurd same.itemOrder (by decide)

end Ace.Window
