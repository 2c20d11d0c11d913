import Ace.Projection.Delivery
import Ace.Script.Copy

/-!
# Two deltas and their concatenation

A view that takes two deltas of one text has what it has after their concatenation. For shell
output that is about the tail: what is cut off first would not be kept later. It holds for text
without byte order marks, since a decoder drops one at the front of each piece it decodes.
-/

namespace Ace

open Script Script.Value

/-! ### The tail of an output -/

/-- Leading characters within two budgets at once. -/
def takeBoth (cost cost' : Char → Nat) (limit : Nat) : List Char → Nat → Nat → List Char
  | [], _, _ => []
  | c :: rest, used, used' =>
    if used + cost c ≤ limit ∧ used' + cost' c ≤ limit then
      c :: takeBoth cost cost' limit rest (used + cost c) (used' + cost' c)
    else []

section Budgets

variable {cost cost' : Char → Nat} {limit : Nat}

theorem take_take_eq (cs : List Char) (used used' : Nat) :
    suffixWithin.take cost' limit (suffixWithin.take cost limit cs used) used' =
      takeBoth cost cost' limit cs used used' := by
  induction cs generalizing used used' with
  | nil => rfl
  | cons c rest ih =>
    by_cases fits : used + cost c ≤ limit
    · by_cases fits' : used' + cost' c ≤ limit
      · simp [suffixWithin.take, takeBoth, fits, fits', ih]
      · simp [suffixWithin.take, takeBoth, fits, fits']
    · simp [suffixWithin.take, takeBoth, fits]

theorem takeBoth_takeBoth (cs : List Char) {used used' more more' : Nat} (le : used ≤ more)
    (le' : used' ≤ more') :
    takeBoth cost cost' limit (takeBoth cost cost' limit cs used used') more more' =
      takeBoth cost cost' limit cs more more' := by
  induction cs generalizing used used' more more' with
  | nil => rfl
  | cons c rest ih =>
    by_cases fits : more + cost c ≤ limit ∧ more' + cost' c ≤ limit
    · have early : used + cost c ≤ limit ∧ used' + cost' c ≤ limit := by omega
      simp only [takeBoth, if_pos early, if_pos fits]
      rw [ih (by omega) (by omega)]
    · rw [show takeBoth cost cost' limit (c :: rest) more more' = [] by simp [takeBoth, fits]]
      by_cases early : used + cost c ≤ limit ∧ used' + cost' c ≤ limit
      · simp [takeBoth, early, fits]
      · simp [takeBoth, early]

theorem takeBoth_append_takeBoth (front cs : List Char) {used used' more more' : Nat}
    (le : used ≤ more) (le' : used' ≤ more') :
    takeBoth cost cost' limit (front ++ takeBoth cost cost' limit cs used used') more more' =
      takeBoth cost cost' limit (front ++ cs) more more' := by
  induction front generalizing more more' with
  | nil => exact takeBoth_takeBoth cs le le'
  | cons c front ih =>
    simp only [List.cons_append, takeBoth]
    split
    · rw [ih (by omega) (by omega)]
    · rfl

theorem takeBoth_append_of_full (positive : ∀ c, 0 < cost c) (front cs : List Char)
    {used used' : Nat} (full : limit ≤ used + (front.map cost).sum) :
    takeBoth cost cost' limit (front ++ cs) used used' =
      takeBoth cost cost' limit front used used' := by
  induction front generalizing used used' with
  | nil =>
    simp only [List.map_nil, List.sum_nil, Nat.add_zero] at full
    cases cs with
    | nil => rfl
    | cons c rest =>
      have one := positive c
      have beyond : ¬ (used + cost c ≤ limit ∧ used' + cost' c ≤ limit) := by omega
      simp [takeBoth, beyond]
  | cons c front ih =>
    simp only [List.map_cons, List.sum_cons] at full
    simp only [List.cons_append, takeBoth]
    split
    · rw [ih (by omega)]
    · rfl

theorem take_of_fits (cs : List Char) {used : Nat} (fits : used + (cs.map cost).sum ≤ limit) :
    suffixWithin.take cost limit cs used = cs := by
  induction cs generalizing used with
  | nil => rfl
  | cons c rest ih =>
    simp only [List.map_cons, List.sum_cons] at fits
    have one : used + cost c ≤ limit := by omega
    simp only [suffixWithin.take, if_pos one]
    rw [ih (by omega)]

theorem take_subset (cs : List Char) (used : Nat) :
    ∀ c ∈ suffixWithin.take cost limit cs used, c ∈ cs := by
  induction cs generalizing used with
  | nil => simp [suffixWithin.take]
  | cons first rest ih =>
    unfold suffixWithin.take
    split
    · intro c member
      rcases List.mem_cons.mp member with rfl | later
      · exact List.mem_cons_self ..
      · exact List.mem_cons_of_mem _ (ih _ c later)
    · simp

end Budgets

def Unmarked (cs : List Char) : Prop := Text.byteOrderMark ∉ cs

theorem dropByteOrderMark_of_unmarked {cs : List Char} (unmarked : Unmarked cs) :
    Text.dropByteOrderMark cs = cs := by
  cases cs with
  | nil => rfl
  | cons c cs =>
    have other : c ≠ Text.byteOrderMark := fun same => unmarked (by simp [same])
    simp [Text.dropByteOrderMark, other]

theorem unmarked_suffixWithin {cost : Char → Nat} {limit : Nat} {cs : List Char}
    (unmarked : Unmarked cs) : Unmarked (suffixWithin cost limit cs) := by
  intro member
  apply unmarked
  have inside := take_subset cs.reverse 0 _ (List.mem_reverse.mp member)
  exact List.mem_reverse.mp inside

theorem outputTail_eq {cs : List Char} (unmarked : Unmarked cs) :
    outputTail cs =
      (takeBoth (fun c => (Text.encodeChar c).length) serializedBytes 4096 cs.reverse 0 0).reverse := by
  have first : utf8Tail cs 4096 = suffixWithin (fun c => (Text.encodeChar c).length) 4096 cs :=
    dropByteOrderMark_of_unmarked (unmarked_suffixWithin unmarked)
  have clean : Unmarked (suffixWithin serializedBytes 4096 (utf8Tail cs 4096)) := by
    rw [first]
    exact unmarked_suffixWithin (unmarked_suffixWithin unmarked)
  rw [outputTail, dropByteOrderMark_of_unmarked clean, first]
  simp only [suffixWithin, List.reverse_reverse, take_take_eq]

theorem unmarked_outputTail {cs : List Char} (unmarked : Unmarked cs) : Unmarked (outputTail cs) := by
  have first : utf8Tail cs 4096 = suffixWithin (fun c => (Text.encodeChar c).length) 4096 cs :=
    dropByteOrderMark_of_unmarked (unmarked_suffixWithin unmarked)
  have clean : Unmarked (suffixWithin serializedBytes 4096 (utf8Tail cs 4096)) := by
    rw [first]
    exact unmarked_suffixWithin (unmarked_suffixWithin unmarked)
  rw [outputTail, dropByteOrderMark_of_unmarked clean]
  exact clean

theorem Unmarked.append {cs ds : List Char} (left : Unmarked cs) (right : Unmarked ds) :
    Unmarked (cs ++ ds) := by
  intro member
  rcases List.mem_append.mp member with inside | inside
  · exact left inside
  · exact right inside

theorem outputTail_append {cs ds : List Char} (left : Unmarked cs) (right : Unmarked ds) :
    outputTail (outputTail cs ++ ds) = outputTail (cs ++ ds) := by
  rw [outputTail_eq ((unmarked_outputTail left).append right), outputTail_eq (left.append right),
    outputTail_eq left]
  simp only [List.reverse_append, List.reverse_reverse]
  rw [takeBoth_append_takeBoth _ _ (Nat.le_refl 0) (Nat.le_refl 0)]

theorem byteLength_eq_sum (cs : List Char) :
    Text.byteLength cs = (cs.map fun c => (Text.encodeChar c).length).sum := by
  simp [Text.byteLength, Text.encode, List.length_flatMap]

theorem byteLength_append (cs ds : List Char) :
    Text.byteLength (cs ++ ds) = Text.byteLength cs + Text.byteLength ds := by
  simp [byteLength_eq_sum]

theorem encodeChar_positive (c : Char) : 0 < (Text.encodeChar c).length := by
  unfold Text.encodeChar
  simp only
  split
  · simp
  · split
    · simp
    · split <;> simp

theorem summary_tail {prior added : List Char} (left : Unmarked prior) (right : Unmarked added) :
    outputTail (if 4096 ≤ Text.byteLength added then added else prior ++ utf8Tail added 4096) =
      outputTail (prior ++ added) := by
  split
  next full =>
    rw [outputTail_eq right, outputTail_eq (left.append right), List.reverse_append]
    rw [takeBoth_append_of_full encodeChar_positive]
    rw [byteLength_eq_sum] at full
    simpa using full
  next small =>
    have whole : utf8Tail added 4096 = added := by
      rw [utf8Tail, dropByteOrderMark_of_unmarked (unmarked_suffixWithin right), suffixWithin,
        take_of_fits, List.reverse_reverse]
      rw [byteLength_eq_sum] at small
      simp only [List.map_reverse, List.sum_reverse]
      omega
    rw [whole]

/-! ### Texts -/

theorem setField_setField (v : Value) (k : String) (x y : Value) :
    (v.setField k x).setField k y = v.setField k y := by
  cases v <;> simp [setField, Assoc.put_put]

/-- A text that has a stream lies in it. -/
def WithinStream (target : Value) : Prop :=
  (target.field "source").isUndefined ∨
    (target.field "source").shape = .object ∧
      ((target.field "source").field "offset").nat?.getD 0 +
        utf16Length ((target.field "text").string?.getD "") * 2 ≤
      ((target.field "source").field "bytes").nat?.getD 0

theorem nat?_nat (n : Nat) : (Value.nat n).nat? = some n := by
  simp [Value.nat, nat?]

theorem appendText_of_whole {target : Value} (whole : (target.field "source").isUndefined)
    (append : String) : appendText target append =
      target.setField "text" (.str ((target.field "text").string?.getD "" ++ append)) := by
  simp [appendText, holdsTail, whole]

theorem field_appendText {target : Value} {name : String} (text : "text" ≠ name)
    (source : "source" ≠ name) (append : String) :
    (appendText target append).field name = target.field name := by
  unfold appendText
  simp only
  split <;> split <;> simp [field_setField_ne, text, source]

theorem setField_setField_comm (v : Value) {k k' : String} (x y z : Value) (ne : k ≠ k')
    (present : (v.field k').isUndefined = false) :
    ((v.setField k x).setField k' y).setField k z = (v.setField k z).setField k' y := by
  have entries (fs : List (String × Value)) (there : (Assoc.get? fs k').isSome) :
      Assoc.put k z (Assoc.put k' y (Assoc.put k x fs)) = Assoc.put k' y (Assoc.put k z fs) := by
    have kept (w : Value) : (Assoc.get? (Assoc.put k w fs) k').isSome := by
      rw [Assoc.get?_put, if_neg ne]
      exact there
    have second (w : Value) : Assoc.put k' y (Assoc.put k w fs) =
        Assoc.replace k' y (Assoc.put k w fs) := by
      rw [Assoc.put, if_pos (kept w)]
    have first : (Assoc.get? (Assoc.replace k' y (Assoc.put k x fs)) k).isSome := by
      rw [Assoc.get?_replace, if_neg (Ne.symm ne), Assoc.get?_put, if_pos rfl]
      rfl
    rw [second, second, Assoc.put, if_pos first, Assoc.replace_comm _ _ _ ne]
    have again : Assoc.replace k z (Assoc.put k x fs) = Assoc.put k z (Assoc.put k x fs) := by
      rw [Assoc.put.eq_def k z, if_pos]
      rw [Assoc.get?_put, if_pos rfl]
      rfl
    rw [again, Assoc.put_put]
  have there : (Assoc.get? v.fields k').isSome := by
    cases found : Assoc.get? v.fields k' with
    | none => simp [field, found, isUndefined] at present
    | some w => rfl
  cases v with
  | obj fs => simp [setField, entries fs there]
  | exotic fs => simp [setField, entries fs there]
  | _ => rfl

theorem appendText_of_stream {target : Value} (stream : (target.field "source").isUndefined = false)
    (append : String) : appendText target append =
      (if holdsTail ((target.field "text").string?.getD "") (target.field "source") then
        target.setField "text" (.str ((target.field "text").string?.getD "" ++ append))
      else target).setField "source" ((target.field "source").setField "bytes"
        (.nat (((target.field "source").field "bytes").nat?.getD 0 + utf16Length append * 2))) := by
  simp [appendText, stream]

theorem appendText_append_of_stream {target : Value} (object : target.shape = .object)
    (stream : (target.field "source").shape = .object)
    (within : ((target.field "source").field "offset").nat?.getD 0 +
        utf16Length ((target.field "text").string?.getD "") * 2 ≤
      ((target.field "source").field "bytes").nat?.getD 0)
    (defined : (target.field "source").isUndefined = false) (a b : String) :
    appendText (appendText target a) b = appendText target (a ++ b) := by
  have defined' (x : Value) : ((target.field "source").setField "bytes" x).isUndefined = false := by
    cases source : target.field "source" <;> simp_all [shape, isUndefined, setField]
  rw [appendText_of_stream defined a, appendText_of_stream defined (a ++ b)]
  by_cases holds : holdsTail ((target.field "text").string?.getD "") (target.field "source") = true
  · have tail : ((target.field "source").field "offset").nat?.getD 0 +
        utf16Length ((target.field "text").string?.getD "") * 2 =
        ((target.field "source").field "bytes").nat?.getD 0 := by
      simpa [holdsTail, defined] using holds
    simp only [if_pos holds]
    have object' : (target.setField "text"
        (.str ((target.field "text").string?.getD "" ++ a))).shape = .object := by
      rw [shape_setField]
      exact object
    have source_eq (x : Value) : ((target.setField "text"
        (.str ((target.field "text").string?.getD "" ++ a))).setField "source" x).field
        "source" = x := by
      rw [field_setField object', if_pos rfl]
    have text_eq (x : Value) : ((target.setField "text"
        (.str ((target.field "text").string?.getD "" ++ a))).setField "source" x).field
        "text" = .str ((target.field "text").string?.getD "" ++ a) := by
      rw [field_setField_ne _ _ (by decide), field_setField object, if_pos rfl]
    rw [appendText_of_stream (by rw [source_eq]; exact defined' _), source_eq, text_eq,
      field_setField stream, if_pos rfl, nat?_nat]
    have holds' : holdsTail ((target.field "text").string?.getD "" ++ a)
        ((target.field "source").setField "bytes"
          (.nat (((target.field "source").field "bytes").nat?.getD 0 + utf16Length a * 2))) = true := by
      simp only [holdsTail, defined', Bool.false_or, beq_iff_eq, utf16Length_append]
      rw [field_setField_ne _ _ (by decide), field_setField stream, if_pos rfl, nat?_nat]
      simp only [Option.getD_some]
      omega
    have read (text : String) : (Value.str text).string?.getD "" = text := rfl
    simp only [read, Option.getD_some, if_pos holds']
    rw [setField_setField_comm _ _ _ _ (by decide) defined, setField_setField, setField_setField,
      utf16Length_append, String.append_assoc]
    congr 3
    rw [Nat.add_mul, Nat.add_assoc]
  · have short : ((target.field "source").field "offset").nat?.getD 0 +
        utf16Length ((target.field "text").string?.getD "") * 2 ≠
        ((target.field "source").field "bytes").nat?.getD 0 := by
      simpa [holdsTail, defined] using holds
    simp only [if_neg holds]
    have source_eq (x : Value) : (target.setField "source" x).field "source" = x := by
      rw [field_setField object, if_pos rfl]
    have text_eq (x : Value) : (target.setField "source" x).field "text" = target.field "text" :=
      field_setField_ne _ _ (by decide)
    rw [appendText_of_stream (by rw [source_eq]; exact defined' _), source_eq, text_eq,
      field_setField stream, if_pos rfl, nat?_nat]
    have short' : ¬ holdsTail ((target.field "text").string?.getD "")
        ((target.field "source").setField "bytes"
          (.nat (((target.field "source").field "bytes").nat?.getD 0 + utf16Length a * 2))) = true := by
      simp only [holdsTail, defined', Bool.false_or, beq_iff_eq]
      rw [field_setField_ne _ _ (by decide), field_setField stream, if_pos rfl, nat?_nat]
      simp only [Option.getD_some]
      omega
    simp only [if_neg short', Option.getD_some]
    rw [setField_setField, setField_setField, utf16Length_append]
    congr 3
    rw [Nat.add_mul, Nat.add_assoc]

theorem appendText_append {target : Value} (within : WithinStream target) (a b : String) :
    appendText (appendText target a) b = appendText target (a ++ b) := by
  by_cases object : target.shape = .object
  · rcases within with whole | ⟨stream, within⟩
    · have whole' : ((target.setField "text"
          (.str ((target.field "text").string?.getD "" ++ a))).field "source").isUndefined := by
        rw [field_setField_ne _ _ (by decide)]
        exact whole
      rw [appendText_of_whole whole, appendText_of_whole whole', appendText_of_whole whole,
        field_setField object, if_pos rfl, setField_setField]
      simp [string?, String.append_assoc]
    · have object' : (target.field "source").isUndefined = false := by
        cases source : target.field "source" <;> simp [source, shape, isUndefined] at stream ⊢
      exact appendText_append_of_stream object stream within object' a b
  · -- What is not an object has no text to append to.
    have none (append : String) : appendText target append = target := by
      have whole : (target.field "source").isUndefined := by
        rw [field_eq_undefined object]
        rfl
      rw [appendText_of_whole whole, setField_eq_self object]
    rw [none, none, none]

theorem within_appendText {target : Value} (within : WithinStream target) (a : String) :
    WithinStream (appendText target a) := by
  by_cases object : target.shape = .object
  · rcases within with whole | ⟨stream, within⟩
    · rw [appendText_of_whole whole]
      left
      rw [field_setField_ne _ _ (by decide)]
      exact whole
    · have defined : (target.field "source").isUndefined = false := by
        cases source : target.field "source" <;> simp [source, shape, isUndefined] at stream ⊢
      right
      rw [appendText_of_stream defined]
      have object' (c : Prop) [Decidable c] (x : Value) :
          (if c then target.setField "text" x else target).shape = .object := by
        split
        · rw [shape_setField]
          exact object
        · exact object
      rw [field_setField (object' _ _), if_pos rfl, shape_setField, field_setField_ne _ _ (by decide),
        field_setField stream, if_pos rfl, nat?_nat, field_setField_ne _ _ (by decide)]
      refine ⟨stream, ?_⟩
      split
      · rw [field_setField object, if_pos rfl]
        show _ + utf16Length (_ ++ a) * 2 ≤ _
        rw [utf16Length_append]
        simp only [Option.getD_some]
        omega
      · simp only [Option.getD_some]
        omega
  · have whole : (target.field "source").isUndefined := by
      rw [field_eq_undefined object]
      rfl
    rw [appendText_of_whole whole, setField_eq_self object]
    exact within

def startedPart (append : String) : Value := .obj [("type", .str "text"), ("text", .str append)]

theorem appendText_startedPart (a b : String) :
    appendText (startedPart a) b = startedPart (a ++ b) := by
  rw [appendText_of_whole (by rfl)]
  rfl

theorem appendPart_append {parts : List Value} (within : ∀ part ∈ parts, WithinStream part)
    (a b : String) : appendPart (appendPart parts a) b = appendPart parts (a ++ b) := by
  rcases List.eq_nil_or_concat parts with rfl | ⟨before, last, rfl⟩
  · show appendPart [startedPart a] b = [startedPart (a ++ b)]
    rw [← appendText_startedPart]
    rfl
  · rw [List.concat_eq_append] at within ⊢
    by_cases text : (last.field "type" == .str "text") = true
    · have text' : ((appendText last a).field "type" == .str "text") = true := by
        rw [field_appendText (by decide) (by decide)]
        exact text
      simp [appendPart, text, text', appendText_append (within last (by simp))]
    · have started (a : String) : appendPart (before ++ [last]) a =
          before ++ [last] ++ [startedPart a] := by
        simp [appendPart, text, startedPart]
      rw [started, started, ← appendText_startedPart]
      simp only [appendPart, startedPart, List.getLast?_append, List.getLast?_singleton,
        Option.some_or, List.dropLast_concat]
      exact if_pos rfl

theorem within_appendPart {parts : List Value} (within : ∀ part ∈ parts, WithinStream part)
    (a : String) : ∀ part ∈ appendPart parts a, WithinStream part := by
  have started : WithinStream (startedPart a) := .inl rfl
  rcases List.eq_nil_or_concat parts with rfl | ⟨before, last, rfl⟩
  · intro part member
    rw [List.mem_singleton.mp member]
    exact started
  · rw [List.concat_eq_append] at within ⊢
    intro part member
    unfold appendPart at member
    simp only [List.getLast?_append, List.getLast?_singleton, Option.some_or,
      List.dropLast_concat] at member
    split at member
    · rcases List.mem_append.mp member with old | new
      · exact within part (List.mem_append_left _ old)
      · rw [List.mem_singleton.mp new]
        exact within_appendText (within last (by simp)) a
    · rcases List.mem_append.mp member with old | new
      · exact within part old
      · rw [List.mem_singleton.mp new]
        exact started

/-! ### Items -/

/-- The texts of an item lie in their streams, and its output tail has no marks. -/
structure Sane (item : Value) : Prop where
  text : WithinStream item
  parts : ∀ part ∈ (item.field "parts").array?.getD [], WithinStream part
  tail : Unmarked ((((Item.detail item).field "output").field "tail").string?.getD "").toList

/-- An item after a delta, which may not belong to it. -/
def withDelta (item : Value) (field : DeltaField) (append : String) : Value :=
  (applyDelta item field append).getD item

section Output

variable {item : Value}

theorem shapes_of_shell (shell : Item.hasDetail item "shell" = true) :
    item.shape = .object ∧ (Item.call item).shape = .object ∧
      (Item.detail item).shape = .object := by
  simp only [Item.hasDetail, Bool.and_eq_true, beq_iff_eq] at shell
  have detail : (Item.detail item).shape = .object := by
    by_contra other
    rw [field_eq_undefined other] at shell
    exact absurd shell.2 (by simp)
  have call : (Item.call item).shape = .object := by
    by_contra other
    rw [Item.detail, field_eq_undefined other] at detail
    exact absurd detail (by simp [shape])
  refine ⟨?_, call, detail⟩
  by_contra other
  rw [Item.call, field_eq_undefined other] at call
  exact absurd call (by simp [shape])

variable (shell : Item.hasDetail item "shell" = true)

include shell

theorem detail_setDetail (x : Value) :
    Item.detail (Item.setDetail item "output" x) = (Item.detail item).setField "output" x := by
  obtain ⟨object, call, -⟩ := shapes_of_shell shell
  rw [Item.detail, Item.call, Item.setDetail, Item.setCall, field_setField object, if_pos rfl,
    field_setField call, if_pos rfl]
  rfl

theorem output_setDetail (x : Value) :
    (Item.detail (Item.setDetail item "output" x)).field "output" = x := by
  obtain ⟨-, -, detail⟩ := shapes_of_shell shell
  rw [detail_setDetail shell, field_setField detail, if_pos rfl]

theorem setDetail_setDetail (x y : Value) :
    Item.setDetail (Item.setDetail item "output" x) "output" y = Item.setDetail item "output" y := by
  obtain ⟨object, call, -⟩ := shapes_of_shell shell
  have inner : Item.call (Item.setDetail item "output" x) =
      (Item.call item).setField "detail" ((Item.detail item).setField "output" x) := by
    rw [Item.call, Item.setDetail, Item.setCall, field_setField object, if_pos rfl]
    rfl
  rw [Item.setDetail.eq_def (Item.setDetail item "output" x), Item.setCall, inner,
    field_setField call, if_pos rfl, setField_setField, setField_setField, Item.setDetail,
    Item.setCall, Item.setDetail, Item.setCall, setField_setField]
  rfl

theorem shell_setDetail (x : Value) :
    Item.hasDetail (Item.setDetail item "output" x) "shell" = true := by
  have type : (Item.setDetail item "output" x).field "type" = item.field "type" :=
    field_setField_ne _ _ (by decide)
  rw [Item.hasDetail, detail_setDetail shell, field_setField_ne _ _ (by decide), Item.isToolCall,
    Item.hasType, type]
  exact shell

end Output

section Summary

variable (streamId bytes tail truncated : Value)

theorem summary_streamId : (Value.obj [("streamId", streamId), ("bytes", bytes), ("tail", tail),
    ("truncated", truncated)]).field "streamId" = streamId := rfl

theorem summary_bytes : (Value.obj [("streamId", streamId), ("bytes", bytes), ("tail", tail),
    ("truncated", truncated)]).field "bytes" = bytes := rfl

theorem summary_tail_field : (Value.obj [("streamId", streamId), ("bytes", bytes), ("tail", tail),
    ("truncated", truncated)]).field "tail" = tail := rfl

end Summary

theorem summarizeOutput_append {id : String} {previous : Value} {a b : String}
    (tail : Unmarked ((previous.field "tail").string?.getD "").toList)
    (left : Unmarked a.toList) (right : Unmarked b.toList) :
    summarizeOutput id b (summarizeOutput id a previous) = summarizeOutput id (a ++ b) previous := by
  have both : Unmarked (a ++ b).toList := by
    rw [String.toList_append]
    exact left.append right
  have tail_eq : outputTail
      (if 4096 ≤ Text.byteLength b.toList then b.toList else
        outputTail (if 4096 ≤ Text.byteLength a.toList then a.toList else
          ((previous.field "tail").string?.getD "").toList ++ utf8Tail a.toList 4096) ++
        utf8Tail b.toList 4096) =
      outputTail (if 4096 ≤ Text.byteLength (a ++ b).toList then (a ++ b).toList else
        ((previous.field "tail").string?.getD "").toList ++ utf8Tail (a ++ b).toList 4096) := by
    rw [summary_tail tail left, summary_tail (unmarked_outputTail (tail.append left)) right,
      summary_tail tail both, outputTail_append (tail.append left) right, String.toList_append,
      List.append_assoc]
  have bytes (n : Nat) : (Value.nat n).nat?.getD 0 = n := by rw [nat?_nat, Option.getD_some]
  have read (s : String) : (Value.str s).string? = some s := rfl
  simp only [summarizeOutput, summary_streamId, summary_bytes, summary_tail_field, bytes, read,
    Option.getD_some, String.toList_ofList, tail_eq, String.toList_append, byteLength_append,
    Nat.add_assoc]

theorem unmarked_summarizeOutput {id : String} {previous : Value} {a : String}
    (tail : Unmarked ((previous.field "tail").string?.getD "").toList)
    (added : Unmarked a.toList) :
    Unmarked (((summarizeOutput id a previous).field "tail").string?.getD "").toList := by
  have read (s : String) : (Value.str s).string?.getD "" = s := rfl
  simp only [summarizeOutput, summary_tail_field, read, String.toList_ofList]
  rw [summary_tail tail added]
  exact unmarked_outputTail (tail.append added)

section WithDelta

variable {item : Value} {field : DeltaField}

theorem withDelta_of_refused (refused : acceptsDelta item field = false) (a : String) :
    withDelta item field a = item := by
  simp [withDelta, applyDelta, refused]

theorem withDelta_output (shell : Item.hasDetail item "shell" = true) (a : String) :
    withDelta item .output a = Item.setDetail item "output"
      (summarizeOutput (Item.id item) a ((Item.detail item).field "output")) := by
  simp [withDelta, applyDelta, acceptsDelta, shell]

theorem withDelta_message (other : field ≠ .output) (accepts : acceptsDelta item field = true)
    (message : Item.hasType item "message" = true) (a : String) :
    withDelta item field a =
      item.setField "parts" (.arr (appendPart ((item.field "parts").array?.getD []) a)) := by
  simp [withDelta, applyDelta, accepts, other, message]

theorem withDelta_text (other : field ≠ .output) (accepts : acceptsDelta item field = true)
    (message : Item.hasType item "message" = false) (a : String) :
    withDelta item field a = appendText item a := by
  simp [withDelta, applyDelta, accepts, other, message]

theorem object_of_message (message : Item.hasType item "message" = true) :
    item.shape = .object := by
  by_contra other
  rw [Item.hasType, field_eq_undefined other] at message
  exact absurd message (by decide)

theorem acceptsDelta_congr {item' : Value} (other : field ≠ .output)
    (type : item'.field "type" = item.field "type") :
    acceptsDelta item' field = acceptsDelta item field := by
  cases field with
  | output => exact absurd rfl other
  | text => simp only [acceptsDelta, Item.hasType, type]
  | reasoning => simp only [acceptsDelta, Item.hasType, type]

theorem withDelta_append (sane : Sane item) {a b : String}
    (unmarked : field = .output → Unmarked a.toList ∧ Unmarked b.toList) :
    withDelta (withDelta item field a) field b = withDelta item field (a ++ b) := by
  cases accepts : acceptsDelta item field with
  | false => rw [withDelta_of_refused accepts, withDelta_of_refused accepts,
      withDelta_of_refused accepts]
  | true =>
    by_cases output : field = .output
    · subst output
      obtain ⟨left, right⟩ := unmarked rfl
      have shell : Item.hasDetail item "shell" = true := accepts
      have id_eq (x : Value) : Item.id (Item.setDetail item "output" x) = Item.id item := by
        rw [Item.id, Item.setDetail, Item.setCall, field_setField_ne _ _ (by decide)]
        rfl
      rw [withDelta_output shell, withDelta_output (shell_setDetail shell _),
        output_setDetail shell, setDetail_setDetail shell, id_eq,
        summarizeOutput_append sane.tail left right, withDelta_output shell]
    · cases message : Item.hasType item "message" with
      | true =>
        have type (x : Value) : (item.setField "parts" x).field "type" = item.field "type" :=
          field_setField_ne _ _ (by decide)
        have object := object_of_message message
        rw [withDelta_message output accepts message, withDelta_message output accepts message,
          withDelta_message output]
        · rw [field_setField object, if_pos rfl, setField_setField]
          show item.setField "parts" (.arr (appendPart (appendPart _ a) b)) = _
          rw [appendPart_append sane.parts]
        · rw [acceptsDelta_congr output (type _)]
          exact accepts
        · rw [Item.hasType, type]
          exact message
      | false =>
        have type : (appendText item a).field "type" = item.field "type" :=
          field_appendText (by decide) (by decide) a
        rw [withDelta_text output accepts message, withDelta_text output accepts message,
          withDelta_text output]
        · exact appendText_append sane.text a b
        · rw [acceptsDelta_congr output type]
          exact accepts
        · rw [Item.hasType, type]
          exact message

theorem within_congr {target target' : Value} (source : target'.field "source" = target.field "source")
    (text : target'.field "text" = target.field "text") (within : WithinStream target) :
    WithinStream target' := by
  unfold WithinStream
  rw [source, text]
  exact within

theorem Sane.congr {item' : Value} (sane : Sane item)
    (same : ∀ name ∈ ["source", "text", "parts", "call"], item'.field name = item.field name) :
    Sane item' := by
  refine ⟨within_congr (same _ (by simp)) (same _ (by simp)) sane.text, ?_, ?_⟩
  · rw [same "parts" (by simp)]
    exact sane.parts
  · rw [Item.detail, Item.call, same "call" (by simp)]
    exact sane.tail

theorem sane_withDelta (sane : Sane item) {a : String}
    (unmarked : field = .output → Unmarked a.toList) : Sane (withDelta item field a) := by
  cases accepts : acceptsDelta item field with
  | false =>
    rw [withDelta_of_refused accepts]
    exact sane
  | true =>
    by_cases output : field = .output
    · subst output
      have shell : Item.hasDetail item "shell" = true := accepts
      rw [withDelta_output shell]
      refine ⟨within_congr (field_setField_ne _ _ (by decide)) (field_setField_ne _ _ (by decide))
        sane.text, ?_, ?_⟩
      · rw [Item.setDetail, Item.setCall, field_setField_ne _ _ (by decide)]
        exact sane.parts
      · rw [output_setDetail shell]
        exact unmarked_summarizeOutput sane.tail (unmarked rfl)
    · cases message : Item.hasType item "message" with
      | true =>
        have object := object_of_message message
        rw [withDelta_message output accepts message]
        refine ⟨within_congr (field_setField_ne _ _ (by decide)) (field_setField_ne _ _ (by decide))
          sane.text, ?_, ?_⟩
        · rw [field_setField object, if_pos rfl]
          exact within_appendPart sane.parts a
        · rw [Item.detail, Item.call, field_setField_ne _ _ (by decide)]
          exact sane.tail
      | false =>
        rw [withDelta_text output accepts message]
        refine ⟨within_appendText sane.text a, ?_, ?_⟩
        · rw [field_appendText (by decide) (by decide)]
          exact sane.parts
        · rw [Item.detail, Item.call, field_appendText (by decide) (by decide)]
          exact sane.tail

end WithDelta

namespace Delivery

/-! ### Views -/

def View.Sane : View → Prop
  | .thread view => ∀ id item, view.items.get? id = some item → Ace.Sane item
  | .threads _ => True

/-- An event brings sane items, and output without marks. -/
def Event.Sane (event : Event) : Prop :=
  match event.payload with
  | .itemCreated item | .itemUpdated item => Ace.Sane item.json
  | .itemDelta _ field append => field = .output → Unmarked append.toList
  | _ => True

theorem sane_foldItem {view : ThreadView} {item : Value} {updated : Bool}
    (held : ∀ id item, view.items.get? id = some item → Ace.Sane item) (sane : Ace.Sane item.json) :
    ∀ id found, (foldItem view item updated).items.get? id = some found → Ace.Sane found := by
  have stored (id : String) (x : Value) (good : Ace.Sane x) :
      ∀ id' found, (view.items.put id x).get? id' = some found → Ace.Sane found := by
    intro id' found there
    rw [Dictionary.get?_put] at there
    split at there
    · rw [← Option.some.inj there]
      exact good
    · exact held id' found there
  unfold foldItem
  simp only
  split
  · exact held
  · split
    · exact stored _ _ sane
    · apply stored
      apply sane.congr
      intro name member
      simp only [List.mem_cons, List.not_mem_nil, or_false] at member
      apply field_setField_ne
      rintro rfl
      simp at member

theorem sane_modify {items : Dictionary Value}
    (held : ∀ id item, items.get? id = some item → Ace.Sane item) (id : String) {f : Value → Value}
    (kept : ∀ item, Ace.Sane item → Ace.Sane (f item)) :
    ∀ id' found, (items.modify id f).get? id' = some found → Ace.Sane found := by
  intro id' found there
  rw [Dictionary.get?_modify] at there
  split at there
  · obtain ⟨item, old, rfl⟩ := Option.map_eq_some_iff.mp there
    exact kept item (held _ item old)
  · exact held id' found there

theorem sane_foldTables {view : ThreadView} {event : Event}
    (held : ∀ id item, view.items.get? id = some item → Ace.Sane item) (sane : event.Sane) :
    ∀ id item, (foldTables view event).items.get? id = some item → Ace.Sane item := by
  unfold Event.Sane at sane
  unfold foldTables
  cases payload : event.payload with
  | itemCreated item =>
    rw [payload] at sane
    exact sane_foldItem held sane
  | itemUpdated item =>
    rw [payload] at sane
    exact sane_foldItem held sane
  | itemDeleted itemId =>
    intro id item there
    simp only [Dictionary.get?_erase] at there
    split at there
    · cases there
    · exact held id item there
  | itemDelta itemId field append =>
    rw [payload] at sane
    exact sane_modify held itemId fun item good => sane_withDelta good sane
  | inputAdmitted agentId nativeInputId commandId =>
    simp only
    split
    · exact held
    · apply sane_modify held
      intro item good
      split
      · apply good.congr
        intro name member
        simp only [List.mem_cons, List.not_mem_nil, or_false] at member
        apply field_setField_ne
        rintro rfl
        simp at member
      · exact good
  | agentUpdated agentId changes =>
    simp only
    split <;> exact held
  | usageUpdated usage =>
    simp only
    split <;> exact held
  | _ => exact held

theorem View.Sane.fold {view view' : View} {event : Event} (held : view.Sane) (sane : event.Sane)
    (folds : view.fold event = some view') : view'.Sane := by
  cases view with
  | threads view =>
    obtain rfl := Option.some.inj folds
    trivial
  | thread view =>
    obtain ⟨next, step, rfl⟩ := Option.map_eq_some_iff.mp folds
    unfold foldEvent at step
    split at step
    · cases step
    · obtain rfl := Option.some.inj step
      exact sane_foldTables held sane

/-! Two deltas of one text. -/

section Deltas

variable {event event' merged : Event} {itemId : String} {field : DeltaField} {a b : String}

theorem updateThread_delta (payload : event.payload = .itemDelta itemId field a) (thread : Value) :
    updateThread thread event = thread := by
  simp [updateThread, isSidebarEvent, Payload.isSidebar, payload]

theorem foldEvent_delta {view : ThreadView} (payload : event.payload = .itemDelta itemId field a) :
    foldEvent view event = if view.shows event then
      some { view with items := view.items.modify itemId fun item => withDelta item field a }
    else none := by
  unfold foldEvent
  rw [updateThread_delta payload]
  cases view.shows event with
  | false => rfl
  | true =>
    simp only [Bool.not_true, Bool.false_eq_true, if_false, if_true, foldTables, payload]
    rfl

theorem fold_threads_delta {view : ThreadListView}
    (payload : event.payload = .itemDelta itemId field a) :
    foldThreadList view event = match view.threads.get? event.threadId with
      | none => view
      | some thread => if (thread.field "deletedAt").isUndefined then view
        else { view with threads := view.threads.erase event.threadId } := by
  simp only [foldThreadList, payload, isSidebarEvent, Payload.isSidebar]
  cases found : view.threads.get? event.threadId with
  | none => rfl
  | some thread =>
    simp only [Bool.false_eq_true, if_false]
    split
    · rw [Dictionary.put_eq_self found]
    · rfl

theorem fold_merged {view : View} (held : view.Sane)
    (payload : event.payload = .itemDelta itemId field a)
    (payload' : event'.payload = .itemDelta itemId field b)
    (payload'' : merged.payload = .itemDelta itemId field (a ++ b))
    (thread : event.threadId = merged.threadId) (thread' : event'.threadId = merged.threadId)
    (unmarked : field = .output → Unmarked a.toList ∧ Unmarked b.toList) :
    (view.fold event).bind (·.fold event') = view.fold merged := by
  cases view with
  | thread view =>
    have shows (items : Dictionary Value) (e : Event) (same : e.threadId = merged.threadId) :
        ThreadView.shows { view with items } e = view.shows merged := by
      simp only [ThreadView.shows, same]
    have first : view.shows event = view.shows merged := shows view.items event thread
    have items : view.items.modify itemId (fun item => withDelta (withDelta item field a) field b) =
        view.items.modify itemId fun item => withDelta item field (a ++ b) := by
      cases found : view.items.get? itemId with
      | none => simp [Dictionary.modify, found]
      | some item =>
        exact Dictionary.modify_congr found (withDelta_append (held itemId item found) unmarked)
    simp only [View.fold, foldEvent_delta payload, foldEvent_delta payload'', first]
    cases about : view.shows merged with
    | false => rfl
    | true =>
      simp only [if_true, Option.map_some, Option.bind_some, foldEvent_delta payload',
        shows _ event' thread', about, Dictionary.modify_modify, items]
  | threads view =>
    show some (View.threads (foldThreadList (foldThreadList view event) event')) =
      some (View.threads (foldThreadList view merged))
    rw [fold_threads_delta payload, fold_threads_delta payload', fold_threads_delta payload'',
      thread, thread']
    cases found : view.threads.get? merged.threadId with
    | none => simp [found]
    | some row =>
      by_cases kept : (row.field "deletedAt").isUndefined = true
      · simp [found, kept]
      · simp [kept]

end Deltas

end Delivery

end Ace
