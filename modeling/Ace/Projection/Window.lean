import Ace.Core.Items

/-!
# History pages

A view of a long thread holds a window of its items; pages of older history are merged into it
by creation sequence. Only the members that the merge reads or writes are kept here.
-/

namespace Ace.Window

open Script

/-- The members of a `ThreadView` that a page can change, and those it is placed by. -/
structure HistoryView where
  seq : Nat
  threadId : String
  items : Dictionary Value := .empty
  itemOrder : List String := []
  itemSeqs : Option (Dictionary Nat) := none
  itemsBefore : Option Nat := none
  deriving DecidableEq

structure ItemsPage where
  seq : Nat
  threadId : String
  items : List Value
  itemSeqs : Option (Dictionary Nat) := none
  itemsBefore : Option Nat := none

def ItemsPage.ids (page : ItemsPage) : List String := page.items.map Item.id

/-! ### Merging by sequence -/

def MAX_SAFE_INTEGER : Int := 9007199254740991

def MIN_SAFE_INTEGER : Int := -9007199254740991

/-- `push(id)`: an id that was pushed last is not pushed again. -/
def push (id : String) (last : Option String) (rest : List String) : List String :=
  if some id = last then rest else id :: rest

/-- The loops of `mergeBySeq`; every round takes an id off a list. -/
def mergeFrom (seq : String → Int) : Nat → List String → List String → Option String → List String
  | 0, _, _, _ => []
  | _ + 1, [], [], _ => []
  | fuel + 1, a :: older, [], last => push a last (mergeFrom seq fuel older [] (some a))
  | fuel + 1, [], b :: newer, last => push b last (mergeFrom seq fuel [] newer (some b))
  | fuel + 1, a :: older, b :: newer, last =>
    if seq a ≤ seq b then
      let newer := if seq a = seq b ∧ a = b then newer else b :: newer
      push a last (mergeFrom seq fuel older newer (some a))
    else push b last (mergeFrom seq fuel (a :: older) newer (some b))

/-- Two lists of ids, each oldest first, merged by creation sequence. -/
def mergeBySeq (older newer : List String) (seq : String → Int) : List String :=
  mergeFrom seq (older.length + newer.length) older newer none

/-! ### Applying a page -/

def trackItem (items : Dictionary Value) (item : Value) : Dictionary Value :=
  items.put (Item.id item) item.json

/-- The loop over the items of a page: the tracked items and the ids new to the order. -/
def admitItems (order : List String) : List Value → Dictionary Value → List String →
    Dictionary Value × List String
  | [], items, older => (items, older)
  | item :: rest, items, older =>
    let items := if items.contains (Item.id item) then items else trackItem items item
    let older :=
      if Item.id item ∈ order ∨ Item.id item ∈ older then older else older ++ [Item.id item]
    admitItems order rest items older

def lookUp (itemSeqs : Option (Dictionary Nat)) (id : String) : Option Int :=
  (itemSeqs.bind (·.get? id)).map Int.ofNat

/-- The sequence an id is placed by. -/
def placedBy (view : HistoryView) (page : ItemsPage) (fresh : List String) (id : String) : Int :=
  ((lookUp page.itemSeqs id).or (lookUp view.itemSeqs id)).getD
    (if id ∈ fresh then MIN_SAFE_INTEGER else MAX_SAFE_INTEGER)

def mergePage (view : HistoryView) (page : ItemsPage) : HistoryView :=
  let (items, older) := admitItems view.itemOrder page.items view.items []
  { view with
    items
    itemOrder := mergeBySeq older view.itemOrder (placedBy view page older)
    itemsBefore :=
      match view.itemsBefore, page.itemsBefore with
      | some before, some pageBefore => some (min before pageBefore)
      | _, _ => none }

/-- Merge older history without overwriting newer live values or moving the sync cursor;
`none` when the page is of another thread. -/
def applyItemsPage (view : HistoryView) (page : ItemsPage) : Option HistoryView :=
  if page.threadId ≠ view.threadId then none else some (mergePage view page)

end Ace.Window
