import Ace.Projection.OutputBytes
import Ace.Properties.MergedDeltas
import Ace.Properties.TextPages

/-!
# Output in pieces and at once

The loops over bytes do on encoded text what their descriptions on characters say. The chunks of an
output are summarized like the output at once, as long as no chunk starts with a byte order mark:
two neighbouring chunks are larger than a tail, so a tail never reaches behind the last two.

## Main result

`outputStreams_iff`
-/

namespace Ace

open Script

/-! ### Suffixes within a budget -/

section Suffixes

variable {cost : Char → Nat} {limit : Nat}

theorem take_spec (cs : List Char) {used : Nat} (fits : used ≤ limit) :
    ∃ rest, cs = suffixWithin.take cost limit cs used ++ rest ∧
      used + ((suffixWithin.take cost limit cs used).map cost).sum ≤ limit ∧
      (rest = [] ∨ ∃ c more, rest = c :: more ∧
        limit < used + ((suffixWithin.take cost limit cs used).map cost).sum + cost c) := by
  induction cs generalizing used with
  | nil => exact ⟨[], rfl, by simpa [suffixWithin.take] using fits, .inl rfl⟩
  | cons c cs ih =>
    rw [suffixWithin.take]
    split
    next room =>
      obtain ⟨rest, split, within, ended⟩ := ih room
      refine ⟨rest, by rw [List.cons_append, ← split], ?_, ?_⟩
      · rw [List.map_cons, List.sum_cons]
        omega
      · refine ended.imp_right ?_
        rintro ⟨d, more, same, beyond⟩
        refine ⟨d, more, same, ?_⟩
        rw [List.map_cons, List.sum_cons]
        omega
    next full =>
      exact ⟨c :: cs, rfl, by simpa using fits, .inr ⟨c, cs, rfl, by simp; omega⟩⟩

theorem suffixWithin_spec (cs : List Char) :
    ∃ front, cs = front ++ suffixWithin cost limit cs ∧
      ((suffixWithin cost limit cs).map cost).sum ≤ limit ∧
      (front = [] ∨ ∃ f c, front = f ++ [c] ∧
        limit < cost c + ((suffixWithin cost limit cs).map cost).sum) := by
  obtain ⟨rest, split, within, ended⟩ := @take_spec cost limit cs.reverse 0 (Nat.zero_le limit)
  have sum : ((suffixWithin cost limit cs).map cost).sum =
      ((suffixWithin.take cost limit cs.reverse 0).map cost).sum := by
    rw [suffixWithin, List.map_reverse, List.sum_reverse]
  refine ⟨rest.reverse, ?_, by omega, ?_⟩
  · rw [suffixWithin, ← List.reverse_append, ← split, List.reverse_reverse]
  · rcases ended with rfl | ⟨c, more, rfl, beyond⟩
    · exact .inl rfl
    · exact .inr ⟨more.reverse, c, List.reverse_cons, by omega⟩

theorem take_append_of_over (front : List Char) (d : Char) (rest : List Char) {used : Nat}
    (ended : limit < used + ((front ++ [d]).map cost).sum) :
    suffixWithin.take cost limit (front ++ d :: rest) used =
      suffixWithin.take cost limit front used := by
  induction front generalizing used with
  | nil =>
    have full : ¬ used + cost d ≤ limit := by simpa using ended
    simp only [List.nil_append, suffixWithin.take, if_neg full]
  | cons c front ih =>
    simp only [List.cons_append, suffixWithin.take]
    split
    · rw [ih]
      rw [List.cons_append, List.map_cons, List.sum_cons] at ended
      omega
    · rfl

theorem take_append_of_fits (front rest : List Char) {used : Nat}
    (fits : used + (front.map cost).sum ≤ limit) :
    suffixWithin.take cost limit (front ++ rest) used =
      front ++ suffixWithin.take cost limit rest (used + (front.map cost).sum) := by
  induction front generalizing used with
  | nil => simp
  | cons c front ih =>
    rw [List.map_cons, List.sum_cons] at fits
    have room : used + cost c ≤ limit := by omega
    simp only [List.cons_append, suffixWithin.take, if_pos room]
    rw [ih (by omega), List.map_cons, List.sum_cons, Nat.add_assoc]

theorem suffixWithin_append_cons {d : Char} {cs : List Char}
    (ended : limit < ((d :: cs).map cost).sum) (front : List Char) :
    suffixWithin cost limit (front ++ d :: cs) = suffixWithin cost limit cs := by
  have sum : limit < 0 + ((cs.reverse ++ [d]).map cost).sum := by
    rw [Nat.zero_add, ← List.reverse_cons, List.map_reverse, List.sum_reverse]
    exact ended
  rw [suffixWithin, suffixWithin, List.reverse_append, List.reverse_cons, List.append_assoc,
    List.singleton_append, take_append_of_over _ _ _ sum]

theorem suffixWithin_append_of_over {cs : List Char} (ended : limit < (cs.map cost).sum)
    (front : List Char) : suffixWithin cost limit (front ++ cs) = suffixWithin cost limit cs := by
  cases cs with
  | nil => simp at ended
  | cons d cs =>
    have alone := suffixWithin_append_cons ended []
    rw [List.nil_append] at alone
    rw [suffixWithin_append_cons ended front, alone]

theorem suffixWithin_append_of_fits {cs : List Char} (fits : (cs.map cost).sum ≤ limit)
    (front : List Char) : ∃ kept, suffixWithin cost limit (front ++ cs) = kept ++ cs := by
  have sum : 0 + (cs.reverse.map cost).sum ≤ limit := by
    rw [List.map_reverse, List.sum_reverse]
    omega
  rw [suffixWithin, List.reverse_append, take_append_of_fits _ _ sum, List.reverse_append,
    List.reverse_reverse]
  exact ⟨_, rfl⟩

theorem suffixWithin_dropByteOrderMark {cs : List Char} (ended : limit < (cs.map cost).sum) :
    suffixWithin cost limit (Text.dropByteOrderMark cs) = suffixWithin cost limit cs := by
  cases cs with
  | nil => rfl
  | cons d cs =>
    rw [Text.dropByteOrderMark]
    split
    · exact (suffixWithin_append_cons ended []).symm
    · rfl

end Suffixes

/-! ### The loops over bytes -/

section Bytes

abbrev utf8Cost (c : Char) : Nat := (Text.encodeChar c).length

theorem encode_append (cs ds : List Char) :
    Text.encode (cs ++ ds) = Text.encode cs ++ Text.encode ds := List.flatMap_append

theorem encode_cons (c : Char) (cs : List Char) :
    Text.encode (c :: cs) = Text.encodeChar c ++ Text.encode cs := rfl

theorem length_encode (cs : List Char) : (Text.encode cs).length = (cs.map utf8Cost).sum :=
  byteLength_eq_sum cs

theorem encode_eq_nil {cs : List Char} : Text.encode cs = [] ↔ cs = [] :=
  @TextPage.bytesOf_eq_nil .utf8 cs

theorem decode_encode (cs : List Char) :
    OutputBytes.decode (Text.encode cs) = some (Text.dropByteOrderMark cs) := by
  rw [OutputBytes.decode, Text.decodeBytes_encode, if_pos rfl, Text.decode,
    Text.decodeBytes_encode]

theorem dropWhile_encode (cs : List Char) :
    (Text.encode cs).dropWhile Text.isContinuation = Text.encode cs := by
  cases cs with
  | nil => rfl
  | cons c cs =>
    obtain ⟨first, others, shape, starts, -⟩ := Text.encodeChar_eq_cons c
    rw [encode_cons, shape, List.cons_append, List.dropWhile_cons_of_neg (by simp [starts])]

theorem dropWhile_inside (c : Char) (cs : List Char) {j : Nat} (inside : 0 < j)
    (within : j ≤ utf8Cost c) :
    ((Text.encodeChar c).drop j ++ Text.encode cs).dropWhile Text.isContinuation =
      Text.encode cs := by
  obtain ⟨first, others, shape, -, continued, -⟩ := Text.encodeChar_eq_cons c
  obtain ⟨j, rfl⟩ : ∃ j', j = j' + 1 := ⟨j - 1, by omega⟩
  rw [shape, List.drop_succ_cons, List.dropWhile_append_of_pos, dropWhile_encode]
  exact fun x member => continued x (List.mem_of_mem_drop member)

theorem utf8Tail_encode (cs : List Char) (limit : Nat) :
    OutputBytes.utf8Tail (Text.encode cs) limit = some (utf8Tail cs limit) := by
  obtain ⟨front, split, fits, ended⟩ := @suffixWithin_spec utf8Cost limit cs
  rw [utf8Tail]
  generalize suffixWithin (fun c => (Text.encodeChar c).length) limit cs = kept at *
  suffices dropped : ((Text.encode cs).drop ((Text.encode cs).length - limit)).dropWhile
      Text.isContinuation = Text.encode kept by
    rw [OutputBytes.utf8Tail, dropped, decode_encode]
  have length := length_encode kept
  rcases ended with rfl | ⟨f, c, rfl, beyond⟩
  · have all : (Text.encode cs).length - limit = 0 := by
      rw [split, List.nil_append]
      omega
    rw [all, List.drop_zero, dropWhile_encode, split, List.nil_append]
  · -- The cut falls inside the last character that is left out, or behind it.
    have shape : Text.encode cs = Text.encode f ++ (Text.encodeChar c ++ Text.encode kept) := by
      rw [split, List.append_assoc, encode_append]
      rfl
    have cost : utf8Cost c = (Text.encodeChar c).length := rfl
    have at_cut : (Text.encode cs).length - limit =
        (Text.encode f).length + (utf8Cost c - (limit - (Text.encode kept).length)) := by
      rw [shape, List.length_append, List.length_append]
      omega
    rw [at_cut, shape, List.drop_append, List.drop_eq_nil_of_le (by omega),
      Nat.add_sub_cancel_left, List.nil_append, List.drop_append_of_le_length (Nat.sub_le ..),
      dropWhile_inside c kept (by omega) (Nat.sub_le ..)]

theorem serializedBytes_first {c : Char} {first : Nat} {others : List Nat}
    (shape : Text.encodeChar c = first :: others)
    (width : others.length + 1 = Text.characterBytes first) :
    OutputBytes.serializedBytes first = serializedBytes c := by
  have length : utf8Cost c = Text.characterBytes first := by
    rw [utf8Cost, shape, List.length_cons, width]
  by_cases small : c.toNat < 0x80
  · have same : first = c.toNat := by
      simp only [Text.encodeChar, if_pos small] at shape
      exact (List.cons.inj shape).1.symm
    have quote : c = '"' ↔ first = 34 := by
      rw [same]
      exact ⟨fun is => is ▸ rfl, fun is => Char.toNat_inj.mp is⟩
    have slash : c = '\\' ↔ first = 92 := by
      rw [same]
      exact ⟨fun is => is ▸ rfl, fun is => Char.toNat_inj.mp is⟩
    simp only [OutputBytes.serializedBytes, serializedBytes, quote, slash, ← same, ← length]
  · have large : 0x80 ≤ first := by
      simp only [Text.encodeChar, if_neg small] at shape
      split at shape
      · rw [← (List.cons.inj shape).1]
        omega
      · split at shape <;> (rw [← (List.cons.inj shape).1]; omega)
    have quote : c ≠ '"' := fun is => small (is ▸ by decide)
    have slash : c ≠ '\\' := fun is => small (is ▸ by decide)
    rw [OutputBytes.serializedBytes, serializedBytes, if_neg (by omega), if_neg (by omega),
      if_neg (by simp [quote, slash]), if_neg (by omega), ← length]

theorem getD_encode (front : List Char) {c : Char} {first : Nat} {others : List Nat}
    (shape : Text.encodeChar c = first :: others) (rest : List Char) :
    (Text.encode (front ++ c :: rest)).getD (Text.encode front).length 0 = first := by
  rw [encode_append, encode_cons, shape]
  simp

theorem tailStart_encode (front kept : List Char) (size : Nat) {fuel : Nat}
    (enough : front.length ≤ fuel) :
    ∃ left, front = left ++ (suffixWithin.take serializedBytes 4096 front.reverse size).reverse ∧
      OutputBytes.tailStart (Text.encode (front ++ kept)) fuel (Text.encode front).length size =
        (Text.encode left).length := by
  induction front using List.reverseRecOn generalizing kept size fuel with
  | nil =>
    refine ⟨[], rfl, ?_⟩
    cases fuel with
    | zero => rfl
    | succ fuel => rfl
  | append_singleton front c ih =>
    cases fuel with
    | zero => simp at enough
    | succ fuel =>
      obtain ⟨first, others, shape, starts, continued, width⟩ := Text.encodeChar_eq_cons c
      have regroup : front ++ [c] ++ kept = front ++ c :: kept := by simp
      have behind : (Text.encode (front ++ [c])).length =
          (Text.encode front).length + 1 + others.length := by
        rw [encode_append, encode_cons, shape]
        simp [Text.encode]
        omega
      have next : TextPage.leadEnd (Text.encode (front ++ c :: kept))
          ((Text.encode front).length + 1 + others.length) = (Text.encode front).length + 1 := by
        rw [encode_append, encode_cons, shape, List.cons_append]
        exact TextPage.leadEnd_append starts continued (Text.encode kept)
      have not_start : ¬ (Text.encode front).length + 1 + others.length = 0 := by omega
      rw [regroup, behind, OutputBytes.tailStart, if_neg not_start]
      simp only [next, Nat.add_sub_cancel, getD_encode front shape kept,
        serializedBytes_first shape width, List.reverse_append, List.reverse_singleton,
        List.singleton_append, suffixWithin.take]
      by_cases fits : size + serializedBytes c ≤ 4096
      · have not_over : ¬ 4096 < size + serializedBytes c := by omega
        have shorter : front.length ≤ fuel := by
          simp only [List.length_append, List.length_singleton] at enough
          omega
        obtain ⟨left, split, start⟩ := ih (c :: kept) (size + serializedBytes c) shorter
        simp only [if_neg not_over, if_pos fits]
        refine ⟨left, ?_, start⟩
        rw [List.reverse_cons, ← List.append_assoc, ← split]
      · have is_over : 4096 < size + serializedBytes c := by omega
        simp only [if_pos is_over, if_neg fits]
        exact ⟨front ++ [c], by simp, behind.symm⟩

theorem length_le_encode (cs : List Char) : cs.length ≤ (Text.encode cs).length := by
  induction cs with
  | nil => exact Nat.le_refl _
  | cons c cs ih =>
    have one := encodeChar_positive c
    rw [encode_cons, List.length_append, List.length_cons]
    omega

theorem outputTail_encode (cs : List Char) : OutputBytes.outputTail cs = some (outputTail cs) := by
  rw [OutputBytes.outputTail, utf8Tail_encode, outputTail]
  simp only [Option.bind_eq_bind, Option.bind_some]
  generalize utf8Tail cs 4096 = kept
  obtain ⟨left, split, start⟩ := tailStart_encode kept [] 0 (length_le_encode kept)
  rw [List.append_nil] at start
  have whole : Text.encode kept = Text.encode left ++
      Text.encode (suffixWithin serializedBytes 4096 kept) := by
    rw [← encode_append, suffixWithin, ← split]
  rw [start, whole, List.drop_left, decode_encode]

theorem chunks_encode (done current rest : List Char) {fuel : Nat} (enough : rest.length ≤ fuel)
    (size : Nat) :
    OutputBytes.chunks (Text.encode (done ++ current.reverse ++ rest)) fuel
        (Text.encode done).length (Text.encode (done ++ current.reverse)).length size =
      (outputDeltas.split rest current size).map Text.encode := by
  induction rest generalizing done current fuel size with
  | nil =>
    have left : (Text.encode (done ++ current.reverse)).drop (Text.encode done).length =
        Text.encode current.reverse := by rw [encode_append, List.drop_left]
    rw [List.append_nil, outputDeltas.split, List.map_singleton, ← left]
    cases fuel with
    | zero => rfl
    | succ fuel => rw [OutputBytes.chunks, if_pos (Nat.le_refl _)]
  | cons c rest ih =>
    cases fuel with
    | zero => simp at enough
    | succ fuel =>
      obtain ⟨first, others, shape, -, -, width⟩ := Text.encodeChar_eq_cons c
      have cost : utf8Cost c = Text.characterBytes first := by
        rw [utf8Cost, shape, List.length_cons, width]
      have more : ¬ (Text.encode (done ++ current.reverse ++ c :: rest)).length ≤
          (Text.encode (done ++ current.reverse)).length := by
        rw [encode_append, List.length_append, encode_cons, shape]
        simp
      have shorter : rest.length ≤ fuel := by simpa using enough
      have behind : (Text.encode (done ++ current.reverse)).length + Text.characterBytes first =
          (Text.encode (done ++ current.reverse ++ [c])).length := by
        rw [encode_append (done ++ current.reverse), List.length_append, ← cost, encode_cons,
          List.length_append]
        rfl
      rw [OutputBytes.chunks, if_neg more]
      simp only [getD_encode _ shape rest, serializedBytes_first shape width, behind]
      rw [outputDeltas.split]
      by_cases ended : size + serializedBytes c > 4096
      · rw [if_pos ended, if_pos ended, List.map_cons]
        congr 1
        · rw [slice, encode_append (done ++ current.reverse), List.take_left, encode_append,
            List.drop_left]
        · have step := ih (done ++ current.reverse) [c] shorter (serializedBytes c)
          simpa using step
      · rw [if_neg ended, if_neg ended]
        have step := ih done (c :: current) shorter (size + serializedBytes c)
        simpa using step

def outputPieces (cs : List Char) : List (List Char) := outputDeltas.split cs [] 0

theorem mapM_decode (pieces : List (List Char)) :
    (pieces.map Text.encode).mapM OutputBytes.decode =
      some (pieces.map Text.dropByteOrderMark) := by
  induction pieces with
  | nil => rfl
  | cons piece pieces ih => simp [ih, decode_encode]

theorem outputDeltas_encode (cs : List Char) :
    OutputBytes.outputDeltas cs = some ((outputPieces cs).map Text.dropByteOrderMark) := by
  rw [OutputBytes.outputDeltas]
  simp only [encode_eq_nil]
  split
  next empty =>
    rw [empty]
    rfl
  next =>
    have run := chunks_encode [] [] cs (length_le_encode cs) 0
    simp only [List.reverse_nil, List.append_nil, List.nil_append] at run
    rw [outputPieces, ← mapM_decode, ← run]
    rfl

theorem summarizeOutput_encode (id : String) (cs : List Char) (previous : Value) :
    OutputBytes.summarizeOutput id cs previous =
      some (summarizeOutput id (String.ofList cs) previous) := by
  have raw : (if 4096 ≤ (Text.encode cs).length then some cs
      else (OutputBytes.utf8Tail (Text.encode cs) 4096).map
        (((previous.field "tail").string?.getD "").toList ++ ·)) =
      some (if 4096 ≤ Text.byteLength cs then cs
        else ((previous.field "tail").string?.getD "").toList ++ utf8Tail cs 4096) := by
    rw [utf8Tail_encode, Text.byteLength]
    split <;> rfl
  rw [OutputBytes.summarizeOutput]
  simp only [raw, Option.bind_eq_bind, Option.bind_some, outputTail_encode, summarizeOutput,
    String.toList_ofList, Text.byteLength]
  rfl

end Bytes

/-! ### Pieces -/

abbrev jsonCost (cs : List Char) : Nat := (cs.map serializedBytes).sum

theorem jsonCost_append (cs ds : List Char) : jsonCost (cs ++ ds) = jsonCost cs + jsonCost ds := by
  rw [jsonCost, List.map_append, List.sum_append]

theorem utf8Cost_le (c : Char) : utf8Cost c ≤ serializedBytes c := by
  have ascii : ∀ d : Char, d.toNat < 0x80 → utf8Cost d = 1 := by
    intro d small
    rw [utf8Cost, Text.encodeChar, if_pos small]
    rfl
  rw [serializedBytes]
  split
  next special =>
    have one : utf8Cost c = 1 := by
      rcases special with rfl | rfl <;> rfl
    omega
  · split
    next control =>
      have one := ascii c (by omega)
      split <;> omega
    · exact Nat.le_refl _

theorem byteLength_le_jsonCost (cs : List Char) : Text.byteLength cs ≤ jsonCost cs := by
  rw [byteLength_eq_sum]
  induction cs with
  | nil => exact Nat.le_refl _
  | cons c cs ih =>
    have here : (Text.encodeChar c).length ≤ serializedBytes c := utf8Cost_le c
    simp only [jsonCost, List.map_cons, List.sum_cons] at *
    omega

theorem serializedBytes_le (c : Char) : serializedBytes c ≤ 6 := by
  have wide := (Text.length_encodeChar c).2
  rw [serializedBytes]
  split
  · omega
  · split
    · split <;> omega
    · omega

theorem exists_split (rest current : List Char) (size : Nat) :
    ∃ x more, outputDeltas.split rest current size = (current.reverse ++ x) :: more := by
  induction rest generalizing current size with
  | nil => exact ⟨[], [], by rw [outputDeltas.split, List.append_nil]⟩
  | cons c rest ih =>
    rw [outputDeltas.split]
    split
    · exact ⟨[], _, by rw [List.append_nil]⟩
    · obtain ⟨x, more, shape⟩ := ih (c :: current) (size + serializedBytes c)
      exact ⟨c :: x, more, by rw [shape, List.reverse_cons, List.append_assoc]; rfl⟩

theorem flatten_split (rest current : List Char) (size : Nat) :
    (outputDeltas.split rest current size).flatten = current.reverse ++ rest := by
  induction rest generalizing current size with
  | nil => simp [outputDeltas.split]
  | cons c rest ih =>
    rw [outputDeltas.split]
    split
    · rw [List.flatten_cons, ih, List.reverse_singleton]
      rfl
    · rw [ih, List.reverse_cons, List.append_assoc]
      rfl

theorem jsonCost_le_of_mem {rest current : List Char} {size : Nat} (cost : jsonCost current = size)
    (fits : size ≤ 4096) :
    ∀ piece ∈ outputDeltas.split rest current size, jsonCost piece ≤ 4096 := by
  have reversed : ∀ cs : List Char, jsonCost cs.reverse = jsonCost cs := fun cs => by
    rw [jsonCost, List.map_reverse, List.sum_reverse]
  induction rest generalizing current size with
  | nil =>
    intro piece member
    rw [outputDeltas.split, List.mem_singleton] at member
    rw [member, reversed]
    omega
  | cons c rest ih =>
    rw [outputDeltas.split]
    split
    next ended =>
      intro piece member
      rcases List.mem_cons.mp member with rfl | later
      · rw [reversed]
        omega
      · have small := serializedBytes_le c
        exact ih (by simp [jsonCost]) (by omega) piece later
    next room =>
      refine ih ?_ (by omega)
      simp only [jsonCost, List.map_cons, List.sum_cons] at *
      omega

/-- Neighbouring pieces do not fit together. -/
def Packed : List (List Char) → Prop
  | p :: q :: rest => 4096 < jsonCost (p ++ q) ∧ q ≠ [] ∧ Packed (q :: rest)
  | _ => True

theorem packed_split {rest current : List Char} {size : Nat} (cost : jsonCost current = size) :
    Packed (outputDeltas.split rest current size) := by
  induction rest generalizing current size with
  | nil => trivial
  | cons c rest ih =>
    rw [outputDeltas.split]
    split
    next ended =>
      obtain ⟨x, more, shape⟩ := exists_split rest [c] (serializedBytes c)
      have later := @ih [c] (serializedBytes c) (by simp [jsonCost])
      rw [shape] at later ⊢
      refine ⟨?_, by simp, later⟩
      have reversed : jsonCost current.reverse = jsonCost current := by
        rw [jsonCost, List.map_reverse, List.sum_reverse]
      rw [jsonCost_append, jsonCost_append, reversed]
      simp only [List.reverse_singleton, jsonCost, List.map_cons, List.map_nil, List.sum_cons,
        List.sum_nil]
      simp only [jsonCost] at cost
      omega
    next =>
      refine ih ?_
      simp only [jsonCost, List.map_cons, List.sum_cons] at *
      omega

/-! ### Tails of pieces -/

def Headed (cs : List Char) : Prop := cs.head? ≠ some Text.byteOrderMark

theorem dropByteOrderMark_of_headed {cs : List Char} (headed : Headed cs) :
    Text.dropByteOrderMark cs = cs := by
  cases cs with
  | nil => rfl
  | cons c cs =>
    rw [Text.dropByteOrderMark, if_neg]
    rintro rfl
    exact headed rfl

theorem dropByteOrderMark_append (front : List Char) {p : List Char} (headed : Headed p) :
    ∃ kept, Text.dropByteOrderMark (front ++ p) = kept ++ p := by
  cases front with
  | nil => exact ⟨[], dropByteOrderMark_of_headed headed⟩
  | cons c front =>
    rw [List.cons_append, Text.dropByteOrderMark]
    split
    · exact ⟨front, rfl⟩
    · exact ⟨c :: front, rfl⟩

theorem outputTail_append_of_fits (front : List Char) {p : List Char} (headed : Headed p)
    (fits : jsonCost p ≤ 4096) : ∃ kept, outputTail (front ++ p) = kept ++ p := by
  have bytes : (p.map fun c => (Text.encodeChar c).length).sum ≤ 4096 := by
    rw [← byteLength_eq_sum]
    exact Nat.le_trans (byteLength_le_jsonCost p) fits
  obtain ⟨a, first⟩ := suffixWithin_append_of_fits bytes front
  obtain ⟨b, second⟩ := dropByteOrderMark_append a headed
  obtain ⟨c, third⟩ := suffixWithin_append_of_fits fits b
  obtain ⟨d, last⟩ := dropByteOrderMark_append c headed
  exact ⟨d, by rw [outputTail, utf8Tail, first, second, third, last]⟩

theorem outputTail_append_of_over (front : List Char) {w : List Char} (ended : 4096 < jsonCost w) :
    outputTail (front ++ w) = outputTail w := by
  by_cases bytes : 4096 < (w.map fun c => (Text.encodeChar c).length).sum
  · rw [outputTail, outputTail, utf8Tail, suffixWithin_append_of_over bytes, ← utf8Tail]
  · -- The bytes fit, and the JSON does not: only the second cut matters.
    have whole := suffixWithin_append_of_fits (Nat.le_of_not_lt bytes)
    have suffix : ∀ kept, suffixWithin serializedBytes 4096
        (Text.dropByteOrderMark (kept ++ w)) = suffixWithin serializedBytes 4096 w := by
      intro kept
      rw [suffixWithin_dropByteOrderMark, suffixWithin_append_of_over ended]
      have more := jsonCost_append kept w
      simp only [jsonCost] at *
      omega
    obtain ⟨a, first⟩ := whole front
    obtain ⟨b, second⟩ := whole []
    rw [List.nil_append] at second
    rw [outputTail, outputTail, utf8Tail, utf8Tail, first, second, suffix, suffix]

theorem outputTail_append_of_full (front : List Char) {q : List Char}
    (full : 4096 ≤ Text.byteLength q) : outputTail (front ++ q) = outputTail q := by
  induction front using List.reverseRecOn with
  | nil => rfl
  | append_singleton front d _ =>
    have ended : 4096 < ((d :: q).map fun c => (Text.encodeChar c).length).sum := by
      have one := encodeChar_positive d
      rw [byteLength_eq_sum] at full
      rw [List.map_cons, List.sum_cons]
      omega
    have hidden := suffixWithin_append_cons ended front
    rw [List.append_assoc, List.singleton_append, outputTail, outputTail, utf8Tail, utf8Tail,
      hidden]

/-- The text whose tail a summary takes. -/
def ending (prior cs : List Char) : List Char :=
  if 4096 ≤ Text.byteLength cs then cs else prior ++ utf8Tail cs 4096

theorem ending_of_small {cs : List Char} (headed : Headed cs) (prior : List Char)
    (small : ¬ 4096 ≤ Text.byteLength cs) : ending prior cs = prior ++ cs := by
  have fits : (cs.map fun c => (Text.encodeChar c).length).sum ≤ 4096 := by
    rw [← byteLength_eq_sum]
    omega
  obtain ⟨kept, whole⟩ := suffixWithin_append_of_fits fits []
  have all : suffixWithin (fun c => (Text.encodeChar c).length) 4096 cs = cs := by
    obtain ⟨front, split, -, -⟩ :=
      @suffixWithin_spec (fun c => (Text.encodeChar c).length) 4096 cs
    rw [List.nil_append] at whole
    have lengths := congrArg List.length split
    rw [whole, List.length_append, List.length_append] at lengths
    have none_kept : kept = [] := List.length_eq_zero_iff.mp (by omega)
    rw [whole, none_kept, List.nil_append]
  rw [ending, if_neg small, utf8Tail, all, dropByteOrderMark_of_headed headed]

theorem exists_ending {cs : List Char} (headed : Headed cs) (prior : List Char) :
    ∃ front, ending prior cs = front ++ cs := by
  by_cases full : 4096 ≤ Text.byteLength cs
  · exact ⟨[], by rw [ending, if_pos full, List.nil_append]⟩
  · exact ⟨prior, ending_of_small headed prior full⟩

theorem headed_append {cs : List Char} (headed : Headed cs) (nonempty : cs ≠ [])
    (ds : List Char) : Headed (cs ++ ds) := by
  cases cs with
  | nil => exact absurd rfl nonempty
  | cons c cs => exact headed

theorem outputTail_ending {front p q prior : List Char} (headed : Headed (front ++ p))
    (headed_p : Headed p) (headed_q : Headed q) (nonempty : p ≠ []) (fits : jsonCost p ≤ 4096)
    (ended : 4096 < jsonCost (p ++ q)) :
    outputTail (ending (outputTail (ending prior (front ++ p))) q) =
      outputTail (ending prior (front ++ p ++ q)) := by
  obtain ⟨a, first⟩ := exists_ending headed prior
  obtain ⟨b, kept⟩ := outputTail_append_of_fits (a ++ front) headed_p fits
  obtain ⟨c, whole⟩ := exists_ending (headed_append headed (by simp [nonempty]) q) prior
  rw [first, whole, ← List.append_assoc a, kept]
  by_cases full : 4096 ≤ Text.byteLength q
  · rw [ending, if_pos full, ← List.append_assoc, outputTail_append_of_full _ full]
  · rw [ending_of_small headed_q _ full, List.append_assoc b, outputTail_append_of_over b ended,
      List.append_assoc front, ← List.append_assoc c, outputTail_append_of_over _ ended]

theorem summarizeOutput_eq (id : String) (cs : List Char) (previous : Value) :
    summarizeOutput id (String.ofList cs) previous =
      .obj [
        ("streamId", .str ((previous.field "streamId").string?.getD (outputStreamId id))),
        ("bytes", .nat ((previous.field "bytes").nat?.getD 0 + Text.byteLength cs)),
        ("tail", .str (String.ofList
          (outputTail (ending ((previous.field "tail").string?.getD "").toList cs)))),
        ("truncated", .bool (decide (Text.byteLength
          (outputTail (ending ((previous.field "tail").string?.getD "").toList cs)) <
            (previous.field "bytes").nat?.getD 0 + Text.byteLength cs)))] := by
  simp only [summarizeOutput, String.toList_ofList]
  rfl

theorem summarizeOutput_step {id : String} {previous : Value} {front p q : List Char}
    (headed : Headed (front ++ p)) (headed_p : Headed p) (headed_q : Headed q)
    (nonempty : p ≠ []) (fits : jsonCost p ≤ 4096) (ended : 4096 < jsonCost (p ++ q)) :
    summarizeOutput id (String.ofList q)
        (summarizeOutput id (String.ofList (front ++ p)) previous) =
      summarizeOutput id (String.ofList (front ++ p ++ q)) previous := by
  have read (s : String) : (Value.str s).string? = some s := rfl
  rw [summarizeOutput_eq id q, summarizeOutput_eq id (front ++ p ++ q), summarizeOutput_eq]
  simp only [summary_streamId, summary_bytes, summary_tail_field, nat?_nat, read, Option.getD_some,
    String.toList_ofList, outputTail_ending headed headed_p headed_q nonempty fits ended,
    byteLength_append, Nat.add_assoc]

theorem foldl_summarizeOutput {id : String} {previous : Value} {front p : List Char}
    {rest : List (List Char)} (headed : Headed (front ++ p))
    (pieces : ∀ piece ∈ p :: rest, Headed piece ∧ jsonCost piece ≤ 4096)
    (packed : Packed (p :: rest)) :
    rest.foldl (fun summary piece => summarizeOutput id (String.ofList piece) summary)
        (summarizeOutput id (String.ofList (front ++ p)) previous) =
      summarizeOutput id (String.ofList (front ++ p ++ rest.flatten)) previous := by
  induction rest generalizing front p with
  | nil => simp
  | cons q rest ih =>
    obtain ⟨ended, -, later⟩ := packed
    obtain ⟨headed_p, fits⟩ := pieces p (by simp)
    obtain ⟨headed_q, fits_q⟩ := pieces q (by simp)
    have nonempty : p ≠ [] := by
      rintro rfl
      rw [List.nil_append] at ended
      omega
    have step := @summarizeOutput_step id previous front p q headed headed_p headed_q nonempty fits
      ended
    rw [List.foldl_cons, step, List.flatten_cons, ← List.append_assoc]
    refine ih (headed_append headed (by simp [nonempty]) q) ?_ later
    exact fun piece member => pieces piece (List.mem_cons_of_mem _ member)

/-! ### Where chunks start -/

/-- A chunk starts before `rest`: nothing stands there yet, or what stands between an earlier start
and `rest` leaves no room for the next character. -/
inductive ChunkStart (text : List Char) : List Char → Prop where
  | first : ChunkStart text text
  | next {chunk : List Char} {c : Char} {rest : List Char}
      (start : ChunkStart text (chunk ++ c :: rest)) (fits : jsonCost chunk ≤ 4096)
      (full : 4096 < jsonCost chunk + serializedBytes c) : ChunkStart text (c :: rest)

theorem split_append (chunk rest current : List Char) {size : Nat}
    (fits : size + jsonCost chunk ≤ 4096) :
    outputDeltas.split (chunk ++ rest) current size =
      outputDeltas.split rest (chunk.reverse ++ current) (size + jsonCost chunk) := by
  induction chunk generalizing current size with
  | nil => rfl
  | cons c chunk ih =>
    have cost : jsonCost (c :: chunk) = serializedBytes c + jsonCost chunk := by
      simp only [jsonCost, List.map_cons, List.sum_cons]
    rw [cost] at fits ⊢
    rw [List.cons_append, outputDeltas.split, if_neg (by omega), ih _ (by omega),
      List.reverse_cons, List.append_assoc, Nat.add_assoc]
    rfl

theorem outputPieces_append {chunk : List Char} {c : Char} {rest : List Char}
    (fits : jsonCost chunk ≤ 4096) (full : 4096 < jsonCost chunk + serializedBytes c) :
    outputPieces (chunk ++ c :: rest) = chunk :: outputPieces (c :: rest) := by
  have small := serializedBytes_le c
  rw [outputPieces, outputPieces, split_append _ _ _ (by omega), outputDeltas.split,
    if_pos (by omega), outputDeltas.split, if_neg (by omega), List.append_nil,
    List.reverse_reverse, Nat.zero_add]

theorem outputPieces_of_start {text rest : List Char} (start : ChunkStart text rest) :
    ∃ front, outputPieces text = front ++ outputPieces rest := by
  induction start with
  | first => exact ⟨[], rfl⟩
  | next _ fits full ih =>
    obtain ⟨front, split⟩ := ih
    rw [outputPieces_append fits full] at split
    exact ⟨front ++ [_], by rw [split, List.append_assoc]; rfl⟩

theorem start_of_mem {text rest current : List Char} {size : Nat}
    (start : ChunkStart text (current.reverse ++ rest)) (cost : jsonCost current = size)
    (fits : size ≤ 4096) :
    ∀ piece ∈ outputDeltas.split rest current size, ∃ more, ChunkStart text (piece ++ more) := by
  induction rest generalizing current size with
  | nil =>
    intro piece member
    rw [outputDeltas.split, List.mem_singleton] at member
    exact ⟨[], member ▸ start⟩
  | cons c rest ih =>
    have reversed : jsonCost current.reverse = jsonCost current := by
      rw [jsonCost, List.map_reverse, List.sum_reverse]
    rw [outputDeltas.split]
    split
    next ended =>
      intro piece member
      rcases List.mem_cons.mp member with rfl | later
      · exact ⟨c :: rest, start⟩
      · have small := serializedBytes_le c
        exact @ih [c] _ (start.next (by omega) (by omega)) (by simp [jsonCost]) (by omega) piece
          later
    next room =>
      refine ih ?_ ?_ (by omega)
      · rw [List.reverse_cons, List.append_assoc]
        exact start
      · simp only [jsonCost, List.map_cons, List.sum_cons] at *
        omega

theorem headed_of_starts {text : List Char}
    (starts : ∀ rest, ¬ ChunkStart text (Text.byteOrderMark :: rest)) :
    ∀ piece ∈ outputPieces text, Headed piece := by
  intro piece member marked
  obtain ⟨more, start⟩ := @start_of_mem text text [] 0 .first rfl (by omega) piece member
  cases piece with
  | nil => cases marked
  | cons c piece =>
    obtain rfl := Option.some.inj marked
    exact starts _ start

/-! ### Streams agree -/

/-- How `JSON.stringify` writes a character in a string. -/
def jsonControl (n : Nat) : List Char :=
  match n with
  | 8 => "\\b".toList
  | 9 => "\\t".toList
  | 10 => "\\n".toList
  | 12 => "\\f".toList
  | 13 => "\\r".toList
  | n => "\\u00".toList ++ Nat.toDigits 16 (n / 16) ++ Nat.toDigits 16 (n % 16)

def jsonCharacter (c : Char) : List Char :=
  if c = '"' ∨ c = '\\' then ['\\', c] else if c.toNat < 32 then jsonControl c.toNat else [c]

def jsonBytes (cs : List Char) : Nat := Text.byteLength (cs.flatMap jsonCharacter)

theorem byteLength_jsonControl : ∀ n < 32,
    Text.byteLength (jsonControl n) = if n ∈ [8, 9, 10, 12, 13] then 2 else 6 := by
  decide

theorem jsonBytes_eq (cs : List Char) : jsonBytes cs = jsonCost cs := by
  have character : ∀ c, Text.byteLength (jsonCharacter c) = serializedBytes c := by
    intro c
    rw [jsonCharacter, serializedBytes]
    split
    next special => rcases special with rfl | rfl <;> rfl
    · split
      next control => exact byteLength_jsonControl c.toNat control
      · rw [Text.byteLength, encode_cons]
        simp [Text.encode]
  induction cs with
  | nil => rfl
  | cons c cs ih =>
    rw [jsonBytes, List.flatMap_cons, byteLength_append, ← jsonBytes, ih, character]
    simp only [jsonCost, List.map_cons, List.sum_cons]

/-- The chunks of a text are the text, each fits a frame, and whoever takes them one after another
has the summary and the item of whoever takes the text at once. -/
structure StreamsAgree (text : List Char) (chunks : List (List Char)) : Prop where
  whole : chunks.flatten = text
  bounded : ∀ chunk ∈ chunks, jsonBytes chunk ≤ 4096
  summaries : ∀ id previous,
    chunks.foldlM (fun summary chunk => OutputBytes.summarizeOutput id chunk summary) previous =
      OutputBytes.summarizeOutput id text previous
  items : ∀ item,
    chunks.foldl (fun item chunk => withDelta item .output (String.ofList chunk)) item =
      withDelta item .output (String.ofList text)

theorem length_dropByteOrderMark_le (cs : List Char) :
    (Text.dropByteOrderMark cs).length ≤ cs.length := by
  cases cs with
  | nil => exact Nat.le_refl _
  | cons c cs =>
    rw [Text.dropByteOrderMark]
    split
    · exact Nat.le_succ _
    · exact Nat.le_refl _

theorem length_flatten_drop_le (pieces : List (List Char)) :
    (pieces.map Text.dropByteOrderMark).flatten.length ≤ pieces.flatten.length := by
  induction pieces with
  | nil => exact Nat.le_refl _
  | cons piece pieces ih =>
    have here := length_dropByteOrderMark_le piece
    simp only [List.map_cons, List.flatten_cons, List.length_append]
    omega

theorem length_flatten_drop_lt {pieces : List (List Char)} {piece : List Char}
    (member : piece ∈ pieces) (marked : ¬ Headed piece) :
    (pieces.map Text.dropByteOrderMark).flatten.length < pieces.flatten.length := by
  obtain ⟨front, back, rfl⟩ := List.append_of_mem member
  have left := length_flatten_drop_le front
  have right := length_flatten_drop_le back
  have lost : (Text.dropByteOrderMark piece).length < piece.length := by
    cases piece with
    | nil => exact absurd (by simp [Headed]) marked
    | cons c piece =>
      have mark : c = Text.byteOrderMark := by simpa [Headed] using marked
      rw [mark, Text.dropByteOrderMark, if_pos rfl]
      exact Nat.lt_succ_self _
  simp only [List.map_append, List.map_cons, List.flatten_append, List.flatten_cons,
    List.length_append]
  omega

theorem foldl_withDelta {item : Value} (shell : Item.hasDetail item "shell" = true)
    (chunks : List (List Char)) (summary : Value) :
    chunks.foldl (fun item chunk => withDelta item .output (String.ofList chunk))
        (Item.setDetail item "output" summary) =
      Item.setDetail item "output" (chunks.foldl
        (fun summary chunk => summarizeOutput (Item.id item) (String.ofList chunk) summary)
        summary) := by
  induction chunks generalizing summary with
  | nil => rfl
  | cons chunk chunks ih =>
    have same_id : Item.id (Item.setDetail item "output" summary) = Item.id item := by
      rw [Item.id, Item.setDetail, Item.setCall, Value.field_setField_ne _ _ (by decide)]
      rfl
    rw [List.foldl_cons, List.foldl_cons, withDelta_output (shell_setDetail shell _),
      output_setDetail shell, setDetail_setDetail shell, same_id, ih]

theorem map_dropByteOrderMark {pieces : List (List Char)}
    (headed : ∀ piece ∈ pieces, Headed piece) :
    pieces.map Text.dropByteOrderMark = pieces := by
  have same : ∀ piece ∈ pieces, Text.dropByteOrderMark piece = id piece :=
    fun piece member => dropByteOrderMark_of_headed (headed piece member)
  rw [List.map_congr_left same, List.map_id]

theorem foldl_pieces {text : List Char} (headed : ∀ piece ∈ outputPieces text, Headed piece)
    (id : String) (previous : Value) :
    (outputPieces text).foldl
        (fun summary piece => summarizeOutput id (String.ofList piece) summary) previous =
      summarizeOutput id (String.ofList text) previous := by
  have costs : ∀ piece ∈ outputPieces text, jsonCost piece ≤ 4096 :=
    @jsonCost_le_of_mem text [] 0 rfl (by omega)
  have packed : Packed (outputPieces text) := @packed_split text [] 0 rfl
  have whole : (outputPieces text).flatten = text := flatten_split text [] 0
  obtain ⟨first, rest, shape⟩ := exists_split text [] 0
  rw [outputPieces] at *
  rw [shape] at headed costs packed whole ⊢
  have run := @foldl_summarizeOutput id previous [] first rest (headed first (by simp))
    (fun piece member => ⟨headed piece member, costs piece member⟩) packed
  rw [List.reverse_nil, List.nil_append, List.foldl_cons, ← whole]
  exact run

/-- The streams agree if and only if no chunk starts with a byte order mark. -/
theorem outputStreams_iff (text : List Char) :
    (∃ chunks, OutputBytes.outputDeltas text = some chunks ∧ StreamsAgree text chunks) ↔
      ∀ rest, ¬ ChunkStart text (Text.byteOrderMark :: rest) := by
  rw [outputDeltas_encode]
  have whole : (outputPieces text).flatten = text := flatten_split text [] 0
  constructor
  · rintro ⟨chunks, found, agree⟩ rest start
    obtain rfl := Option.some.inj found
    obtain ⟨front, split⟩ := outputPieces_of_start start
    obtain ⟨x, more, marked⟩ := exists_split rest [Text.byteOrderMark] (serializedBytes _)
    have first : outputPieces (Text.byteOrderMark :: rest) = (Text.byteOrderMark :: x) :: more := by
      rw [outputPieces, outputDeltas.split, if_neg (by decide), Nat.zero_add, marked]
      rfl
    have member : Text.byteOrderMark :: x ∈ outputPieces text := by
      rw [split, first]
      simp
    have shorter := length_flatten_drop_lt member (by simp [Headed])
    rw [agree.whole, whole] at shorter
    omega
  · intro starts
    have headed := headed_of_starts starts
    refine ⟨outputPieces text, by rw [map_dropByteOrderMark headed], whole, ?_, ?_, ?_⟩
    · intro chunk member
      rw [jsonBytes_eq]
      exact @jsonCost_le_of_mem text [] 0 rfl (by omega) chunk member
    · intro id previous
      have run := foldl_pieces headed id previous
      rw [summarizeOutput_encode, ← run]
      have steps : (fun (summary : Value) chunk => OutputBytes.summarizeOutput id chunk summary) =
          fun summary chunk => some (summarizeOutput id (String.ofList chunk) summary) :=
        funext fun summary => funext fun chunk => summarizeOutput_encode id chunk summary
      rw [steps]
      exact List.foldlM_pure
    · intro item
      cases shell : Item.hasDetail item "shell" with
      | false =>
        have refused : acceptsDelta item .output = false := shell
        have still : ∀ chunks : List (List Char), chunks.foldl
            (fun item chunk => withDelta item .output (String.ofList chunk)) item = item := by
          intro chunks
          induction chunks with
          | nil => rfl
          | cons chunk chunks ih => rw [List.foldl_cons, withDelta_of_refused refused, ih]
        rw [still, withDelta_of_refused refused]
      | true =>
        obtain ⟨first, rest, shape⟩ := exists_split text [] 0
        have run := foldl_pieces headed (Item.id item) ((Item.detail item).field "output")
        rw [withDelta_output shell, ← run]
        rw [outputPieces, shape]
        rw [List.foldl_cons, List.foldl_cons, withDelta_output shell, foldl_withDelta shell]

/-- A text of nothing but a byte order mark is lost. -/
theorem outputStreams_mark : ¬ ∃ chunks,
    OutputBytes.outputDeltas [Text.byteOrderMark] = some chunks ∧
      StreamsAgree [Text.byteOrderMark] chunks := by
  rintro ⟨chunks, found, agree⟩
  have lost : OutputBytes.outputDeltas [Text.byteOrderMark] = some [[]] := by decide
  obtain rfl := Option.some.inj (lost.symm.trans found)
  exact absurd agree.whole (by decide)

end Ace
