import Ace.Relay.Channel

/-!
# Fragments of a channel

What an end cuts a message into, its peer's reader puts together again, and what it encrypts, its
peer decrypts. A message is whole at the other end when the data that was admitted is within the
limits that are checked there.
-/

namespace Ace.Channel

open SecureChannel

/-! ### Cutting and reading -/

/-- The fragments of a message's data, the last one flagged. -/
def fragments (flag : Nat) (data : Bytes) : List Bytes :=
  if data = [] then []
  else if data.length ≤ chunkSize then [UInt8.ofNat (flag + 1) :: data]
  else (UInt8.ofNat flag :: data.take chunkSize) :: fragments flag (data.drop chunkSize)
termination_by data.length
decreasing_by
  rename_i long
  simp only [List.length_drop]
  have some : 0 < chunkSize := by decide
  omega

@[simp] theorem fragments_nil (flag : Nat) : fragments flag [] = [] := by
  rw [fragments, if_pos rfl]

/-- The reader, over a list of fragments. -/
def readAll (codec : Codec) : List Bytes → Partial → Except String (Partial × List Received)
  | [], part => .ok (part, [])
  | plain :: plains, part => do
    let (part, message) ← part.take codec plain
    let (part, messages) ← readAll codec plains part
    return (part, message.toList ++ messages)

theorem readAll_append (codec : Codec) (xs ys : List Bytes) (part : Partial) :
    readAll codec (xs ++ ys) part = (do
      let (part, first) ← readAll codec xs part
      let (part, second) ← readAll codec ys part
      return (part, first ++ second)) := by
  induction xs generalizing part with
  | nil =>
    simp only [List.nil_append, readAll, bind, Except.bind]
    cases readAll codec ys part <;> simp [pure, Except.pure]
  | cons plain xs ih =>
    simp only [List.cons_append, readAll, ih]
    cases part.take codec plain with
    | error error => rfl
    | ok taken =>
      simp only [bind, Except.bind]
      cases readAll codec xs taken.1 with
      | error error => rfl
      | ok first =>
        simp only [pure, Except.pure]
        cases readAll codec ys first.1 <;> simp

theorem readAll_prefix {codec : Codec} {xs ys : List Bytes} {part last : Partial}
    {messages : List Received} (whole : readAll codec (xs ++ ys) part = .ok (last, messages)) :
    ∃ middle first second, readAll codec xs part = .ok (middle, first) ∧
      readAll codec ys middle = .ok (last, second) ∧ messages = first ++ second := by
  rw [readAll_append] at whole
  cases first : readAll codec xs part with
  | error error =>
    rw [first] at whole
    cases whole
  | ok taken =>
    rw [first] at whole
    simp only [bind, Except.bind] at whole
    cases second : readAll codec ys taken.1 with
    | error error =>
      rw [second] at whole
      cases whole
    | ok rest =>
      rw [second] at whole
      cases whole
      exact ⟨taken.1, taken.2, rest.2, rfl, second, rfl⟩

theorem flag_cases (kind : FragmentKind) :
    (UInt8.ofNat kind.flag).toNat = kind.flag ∧ (UInt8.ofNat (kind.flag + 1)).toNat = kind.flag + 1 ∧
      kind.flag ≤ 4 ∧ kind.flag % 2 = 0 := by
  cases kind <;> decide

section

variable {codec : Codec} {kind : FragmentKind} {part : Partial} {chunk : Bytes}

theorem take_more (full : chunk.length = chunkSize)
    (same : part.kind = none ∨ part.kind = some kind.flag)
    (small : (part.data ++ chunk).length ≤ logicalMessageLimit)
    (binary : kind = .binary → (part.data ++ chunk).length ≤ binaryMessageLimit) :
    part.take codec (UInt8.ofNat kind.flag :: chunk) =
      .ok ({ kind := some kind.flag, data := part.data ++ chunk }, none) := by
  obtain ⟨flag, -, small_flag, even⟩ := flag_cases kind
  have size : chunkSize = 65518 := rfl
  have whole : maxMessage = 65535 := rfl
  have isBinary : kind.flag = FragmentKind.binary.flag → kind = .binary := by
    cases kind <;> decide
  simp only [Partial.take, flag, even, List.length_cons, full, Nat.sub_zero]
  rw [if_neg (by omega), if_neg, if_neg, if_neg (by omega), if_neg (by omega)]
  · rintro ⟨is, long⟩
    have within := binary (isBinary is)
    omega
  · rintro ⟨has, other⟩
    rcases same with same | same
    · exact has same
    · exact other same

theorem take_last {message : Received} (some_data : chunk ≠ [])
    (same : part.kind = none ∨ part.kind = some kind.flag)
    (small : (part.data ++ chunk).length ≤ logicalMessageLimit)
    (binary : kind = .binary → (part.data ++ chunk).length ≤ binaryMessageLimit)
    (finished : finish codec kind.flag (part.data ++ chunk) = .ok message) :
    part.take codec (UInt8.ofNat (kind.flag + 1) :: chunk) = .ok ({}, some message) := by
  obtain ⟨-, flag, small_flag, even⟩ := flag_cases kind
  have odd : (kind.flag + 1) % 2 = 1 := by omega
  have isBinary : kind.flag = FragmentKind.binary.flag → kind = .binary := by
    cases kind <;> decide
  have long : 0 < chunk.length := List.length_pos_iff.mpr some_data
  simp only [Partial.take, flag, odd, List.length_cons, Nat.add_sub_cancel]
  rw [if_neg (by omega), if_neg, if_neg, if_neg (by omega), if_pos trivial, finished]
  · rfl
  · rintro ⟨is, long⟩
    have within := binary (isBinary is)
    omega
  · rintro ⟨has, other⟩
    rcases same with same | same
    · exact has same
    · exact other same

theorem readAll_fragments {message : Received} {data : Bytes} (some_data : data ≠ [])
    (same : part.kind = none ∨ part.kind = some kind.flag)
    (small : (part.data ++ data).length ≤ logicalMessageLimit)
    (binary : kind = .binary → (part.data ++ data).length ≤ binaryMessageLimit)
    (finished : finish codec kind.flag (part.data ++ data) = .ok message) :
    readAll codec (fragments kind.flag data) part = .ok ({}, [message]) := by
  induction size : data.length using Nat.strong_induction_on generalizing data part with
  | _ n ih =>
    have room : 0 < chunkSize := by decide
    rw [fragments, if_neg some_data]
    split
    next =>
      rw [readAll, take_last some_data same small binary finished]
      rfl
    next long =>
      rw [Nat.not_le] at long
      have cut : (part.data ++ data.take chunkSize) ++ data.drop chunkSize = part.data ++ data := by
        rw [List.append_assoc, List.take_append_drop]
      have shorter : (part.data ++ data.take chunkSize).length ≤ (part.data ++ data).length := by
        simp only [List.length_append, List.length_take]
        omega
      have rest : data.drop chunkSize ≠ [] := by
        simp only [ne_eq, List.drop_eq_nil_iff]
        omega
      have more : part.take codec (UInt8.ofNat kind.flag :: data.take chunkSize) =
          .ok ({ kind := some kind.flag, data := part.data ++ data.take chunkSize }, none) :=
        take_more (by rw [List.length_take]; omega) same (shorter.trans small)
          fun is => shorter.trans (binary is)
      have tail : readAll codec (fragments kind.flag (data.drop chunkSize))
          { kind := some kind.flag, data := part.data ++ data.take chunkSize } =
            .ok ({}, [message]) := by
        apply ih (data.drop chunkSize).length (by rw [List.length_drop]; omega) rest (.inr rfl)
          _ _ _ rfl
        · rw [cut]
          exact small
        · rw [cut]
          exact binary
        · rw [cut]
          exact finished
      rw [readAll, more]
      simp only [bind, Except.bind]
      rw [tail]
      rfl

end

/-! ### Calls that fit -/

/-- What the code relies on of its libraries. -/
structure Codec.Lawful (codec : Codec) : Prop where
  decrypts : ∀ key nonce ad plain,
    codec.crypto.decrypt key nonce ad (codec.crypto.encrypt key nonce ad plain) = some plain
  tagged : ∀ key nonce ad plain,
    (codec.crypto.encrypt key nonce ad plain).length = plain.length + 16
  deflates : ∀ bytes, codec.deflateRaw bytes ≠ []
  inflates : ∀ bytes, bytes.length ≤ logicalMessageLimit →
    codec.inflateRaw logicalMessageLimit (codec.deflateRaw bytes) = some bytes

def Unmarked (text : String) : Prop := ∀ c rest, text.toList = c :: rest → c.toNat ≠ 0xFEFF

/-- A call whose message the other end accepts: its text is some JSON, and within the limit of a
message before it is deflated as well. -/
def Fits (codec : Codec) : Call → Prop
  | .text json compress => json ≠ "" ∧ Unmarked json ∧
    (compress = true → (deflateMessage codec (encodeText json)).isSome →
      (encodeText json).length ≤ logicalMessageLimit)
  | .binary _ => True

theorem encodeText_ne_nil {json : String} (some_text : json ≠ "") : encodeText json ≠ [] := by
  intro none
  apply some_text
  rw [← String.toByteArray_inj]
  apply ByteArray.ext
  rw [← Array.toList_inj]
  exact none

theorem decodeText_encodeText {json : String} (unmarked : Unmarked json) :
    decodeText (encodeText json) = some json := by
  have bytes : ByteArray.mk (encodeText json).toArray = json.toByteArray := by
    rw [encodeText, Array.toArray_toList]
  have valid : String.fromUTF8? json.toByteArray = some json := by
    rw [String.fromUTF8?, dif_pos json.isValidUTF8]
    rfl
  rw [decodeText, bytes, valid, Option.map_some]
  split
  next c rest starts => rw [if_neg (unmarked c rest starts)]
  next => rfl

theorem finish_of_fits {codec : Codec} (lawful : codec.Lawful) {call : Call} (fits : Fits codec call)
    {data : Bytes} {kind : FragmentKind} (payload : call.payload codec = some (data, kind)) :
    data ≠ [] ∧ (kind = .binary → data.length ≤ binaryMessageLimit) ∧
      finish codec kind.flag data = .ok call.content := by
  cases call with
  | binary bytes =>
    simp only [Call.payload] at payload
    split at payload
    next => cases payload
    next fit =>
      cases payload
      rw [not_or, Nat.not_lt] at fit
      exact ⟨fun none => fit.1 (by rw [none]; rfl), fun _ => fit.2, rfl⟩
  | text json compress =>
    obtain ⟨some_text, unmarked, short⟩ := fits
    have decoded := decodeText_encodeText unmarked
    simp only [Call.payload] at payload
    split at payload
    next =>
      cases payload
      refine ⟨encodeText_ne_nil some_text, nofun, ?_⟩
      have kinds : FragmentKind.json.flag ≠ FragmentKind.binary.flag ∧
          FragmentKind.json.flag ≠ FragmentKind.deflated.flag := by decide
      simp [finish, kinds, decoded, Call.content]
    next _ deflated deflates =>
      cases payload
      cases compress with
      | false => cases deflates
      | true =>
        rw [if_pos rfl] at deflates
        have within := short rfl (by rw [deflates]; rfl)
        have made : data = codec.deflateRaw (encodeText json) := by
          simp only [deflateMessage] at deflates
          split at deflates
          · cases deflates
          · split at deflates <;> cases deflates
            rfl
        subst made
        refine ⟨lawful.deflates _, nofun, ?_⟩
        have kinds : FragmentKind.deflated.flag ≠ FragmentKind.binary.flag := by decide
        simp [finish, kinds, inflateMessage, lawful.inflates _ within, decoded, Call.content]

/-! ### Sealing and opening -/

abbrev Direction := Cipher × Nat

def advance (codec : Codec) (cipher : Cipher) (count : Nat) : Except String Direction := do
  let cipher ← if count % rekeyInterval = 0 then cipher.rekey codec.crypto else pure cipher
  return (cipher, count)

def sealStep (codec : Codec) (direction : Direction) (plain : Bytes) :
    Except String (Bytes × Direction) := do
  let (frame, cipher) ← direction.1.encrypt codec.crypto plain []
  return (frame, ← advance codec cipher (direction.2 + 1))

def openStep (codec : Codec) (direction : Direction) (frame : Bytes) :
    Except String (Bytes × Direction) := do
  let (plain, cipher) ← direction.1.decrypt codec.crypto frame []
  return (plain, ← advance codec cipher (direction.2 + 1))

theorem sealFragment_eq (codec : Codec) (e : End) (plain : Bytes) :
    e.sealFragment codec plain = (sealStep codec (e.send, e.sendCount) plain).map
      fun step => ({ e with send := step.2.1, sendCount := step.2.2 }, step.1) := by
  rw [End.sealFragment, sealStep]
  cases e.send.encrypt codec.crypto plain [] with
  | error error => rfl
  | ok frame =>
    simp only [bind, Except.bind, advance]
    split
    · cases frame.2.rekey codec.crypto <;> rfl
    · rfl

theorem openFrame_eq (codec : Codec) (e : End) (frame : Bytes) :
    e.openFrame codec frame = (openStep codec (e.receive, e.receiveCount) frame).map
      fun step => ({ e with receive := step.2.1, receiveCount := step.2.2 }, step.1) := by
  rw [End.openFrame, openStep]
  cases e.receive.decrypt codec.crypto frame [] with
  | error error => rfl
  | ok plain =>
    simp only [bind, Except.bind, advance]
    split
    · cases plain.2.rekey codec.crypto <;> rfl
    · rfl

section

variable {codec : Codec} {direction next last : Direction} {plain frame : Bytes}

/-- A direction that has its key, and numbers its frames as it counts them. -/
structure Ready (direction : Direction) : Prop where
  key : direction.1.key.isSome
  opened : direction.1.closed = false
  counted : direction.1.nonce = direction.2

theorem sealStep_ok (codec : Codec) (ready : Ready direction) (room : direction.2 < maxNonce)
    (short : plain.length + 16 ≤ maxMessage) :
    ∃ frame next, sealStep codec direction plain = .ok (frame, next) ∧ Ready next := by
  obtain ⟨⟨key, nonce, closed⟩, count⟩ := direction
  obtain ⟨hasKey, opened, counted⟩ := ready
  simp only at hasKey opened counted room
  subst opened counted
  obtain ⟨key, rfl⟩ := Option.isSome_iff_exists.mp hasKey
  have checked : ∀ (key : Bytes) (nonce length : Nat), nonce < maxNonce → length ≤ maxMessage →
      Cipher.check { key := some key, nonce, closed := false } length = .ok () := by
    intro key nonce length room short
    rw [Cipher.check, if_neg (by simpa using room), if_neg (Nat.not_lt.mpr short)]
  simp only [sealStep, Cipher.encrypt, Option.isSome_some, if_true, checked key nonce _ room short,
    bind, Except.bind, pure, Except.pure, advance]
  by_cases rekeys : (nonce + 1) % rekeyInterval = 0
  · -- the nonce after the last frame is no multiple of the interval
    have left : nonce + 1 < maxNonce := by
      have last : maxNonce = 18446744073709551615 := rfl
      have interval : rekeyInterval = 1048576 := rfl
      rw [interval] at rekeys
      rw [last] at room ⊢
      omega
    simp only [if_pos rekeys, Cipher.rekey, checked key (nonce + 1) 0 left (Nat.zero_le _), bind,
      Except.bind, pure, Except.pure]
    exact ⟨_, _, rfl, rfl, rfl, rfl⟩
  · simp only [if_neg rekeys]
    exact ⟨_, _, rfl, rfl, rfl, rfl⟩

theorem openStep_of_sealStep (lawful : codec.Lawful)
    (sealed : sealStep codec direction plain = .ok (frame, next)) :
    openStep codec direction frame = .ok (plain, next) := by
  obtain ⟨⟨key, nonce, closed⟩, count⟩ := direction
  simp only [sealStep, openStep, bind, Except.bind] at sealed ⊢
  have inverse : ∀ {frame : Bytes} {cipher : Cipher},
      Cipher.encrypt codec.crypto { key, nonce, closed } plain [] = .ok (frame, cipher) →
      Cipher.decrypt codec.crypto { key, nonce, closed } frame [] = .ok (plain, cipher) := by
    intro frame cipher encrypted
    by_cases refused : closed ∨ maxNonce ≤ nonce
    · simp [Cipher.encrypt, Cipher.check, refused, bind, Except.bind] at encrypted
    cases key with
    | none =>
      by_cases long : maxMessage < plain.length
      · simp [Cipher.encrypt, Cipher.check, refused, long, bind, Except.bind] at encrypted
      · simp only [Cipher.encrypt, Cipher.check, refused, long, bind, Except.bind, if_false,
          Option.isSome_none, Bool.false_eq_true, Nat.add_zero] at encrypted
        cases encrypted
        simp [Cipher.decrypt, Cipher.check, refused, long, bind, Except.bind, pure, Except.pure]
    | some key =>
      by_cases long : maxMessage < plain.length + 16
      · simp [Cipher.encrypt, Cipher.check, refused, long, bind, Except.bind] at encrypted
      · simp only [Cipher.encrypt, Cipher.check, refused, long, bind, Except.bind, if_false,
          Option.isSome_some, if_true] at encrypted
        cases encrypted
        simp [Cipher.decrypt, Cipher.check, refused, long, lawful.tagged, lawful.decrypts, bind,
          Except.bind, pure, Except.pure]
  split at sealed
  next => cases sealed
  next _ sent encrypted =>
    split at sealed
    next => cases sealed
    next _ next' advanced =>
      cases sealed
      rw [inverse encrypted]
      simp only [advanced]
      rfl

/-- Frames that seal fragments, from one state of a direction to another. -/
inductive Sealed (codec : Codec) : Direction → List Bytes → List Bytes → Direction → Prop where
  | none (direction : Direction) : Sealed codec direction [] [] direction
  | next {direction next last : Direction} {plain frame : Bytes} {plains frames : List Bytes}
      (step : sealStep codec direction plain = .ok (frame, next))
      (rest : Sealed codec next plains frames last) :
      Sealed codec direction (plain :: plains) (frame :: frames) last

theorem Sealed.append {plains frames : List Bytes} (sealed : Sealed codec direction plains frames next)
    (step : sealStep codec next plain = .ok (frame, last)) :
    Sealed codec direction (plains ++ [plain]) (frames ++ [frame]) last := by
  induction sealed with
  | none direction => exact .next step (.none _)
  | next first _ ih => exact .next first (ih step)

theorem Sealed.head {plains frames : List Bytes}
    (sealed : Sealed codec direction plains (frame :: frames) last) :
    ∃ plain rest next, plains = plain :: rest ∧
      sealStep codec direction plain = .ok (frame, next) ∧ Sealed codec next rest frames last := by
  cases sealed with
  | next step rest => exact ⟨_, _, _, rfl, step, rest⟩

end

end Ace.Channel
