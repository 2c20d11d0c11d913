import Ace.Properties.Transcripts

/-!
# What the Noise handshake gives

The agreement of an honest run, the transcripts of an altered one, and what a failure leaves.

## Main result

`handshake_agreement`: an honest run of an initiator and a responder delivers its payloads and
ends with transports that fit together. A side that gets a transport, under any calls on either
side, has the prologue and the messages of the other. A call that fails in its turn is the last
one that does anything.
-/

namespace Ace.SecureChannel

open Script Noise

variable {crypto : Crypto} {options options' : HandshakeOptions}

/-! ### From transcripts to messages -/

theorem eq_of_parts {message message' : Bytes} (k : Nat)
    (front : message.take k = message'.take k) (back : message.drop k = message'.drop k) :
    message = message' := by
  rw [← List.take_append_drop k message, front, back, List.take_append_drop]

theorem eq_of_parts_three {message message' : Bytes} (j k : Nat)
    (front : message.take j = message'.take j)
    (middle : (message.drop j).take k = (message'.drop j).take k)
    (back : message.drop (j + k) = message'.drop (j + k)) : message = message' := by
  apply eq_of_parts j front
  apply eq_of_parts k middle
  rw [List.drop_drop, List.drop_drop, back]

theorem messages_of_six {prologue prologue' : Bytes} {messages messages' : List Bytes}
    (enough : 2 ≤ messages.length)
    (same : (transcript prologue messages).take 6 = (transcript prologue' messages').take 6) :
    prologue = prologue' ∧ messages.take 2 = messages'.take 2 := by
  match messages, messages' with
  | [], _ => simp at enough
  | [_], _ => simp at enough
  | _ :: _ :: _, [] => simp [transcript, partsFrom, parts] at same
  | _ :: _ :: _, [_] => simp [transcript, partsFrom, parts] at same
  | first :: second :: _, first' :: second' :: _ =>
    simp only [transcript, partsFrom, parts, List.cons_append, List.nil_append, List.take_succ_cons,
      List.take_zero, List.cons.injEq, and_true] at same
    obtain ⟨prologue_eq, front, back, front', middle', back'⟩ := same
    refine ⟨prologue_eq, ?_⟩
    simp only [List.take_succ_cons, List.take_zero]
    rw [eq_of_parts 32 front back, eq_of_parts_three 32 48 front' middle' back']

theorem messages_of_eight {prologue prologue' : Bytes} {messages messages' : List Bytes}
    (enough : 3 ≤ messages.length)
    (same : (transcript prologue messages).take 8 = (transcript prologue' messages').take 8) :
    prologue = prologue' ∧ messages.take 3 = messages'.take 3 := by
  match messages, messages' with
  | [], _ => simp at enough
  | [_], _ => simp at enough
  | [_, _], _ => simp at enough
  | _ :: _ :: _ :: _, [] => simp [transcript, partsFrom, parts] at same
  | _ :: _ :: _ :: _, [_] => simp [transcript, partsFrom, parts] at same
  | _ :: _ :: _ :: _, [_, _] => simp [transcript, partsFrom, parts] at same
  | first :: second :: third :: _, first' :: second' :: third' :: _ =>
    simp only [transcript, partsFrom, parts, List.cons_append, List.nil_append, List.take_succ_cons,
      List.take_zero, List.cons.injEq, and_true] at same
    obtain ⟨prologue_eq, front, back, front', middle', back', front'', back''⟩ := same
    refine ⟨prologue_eq, ?_⟩
    simp only [List.take_succ_cons, List.take_zero]
    rw [eq_of_parts 32 front back, eq_of_parts_three 32 48 front' middle' back',
      eq_of_parts 48 front'' back'']

/-! ### Altered runs -/

theorem Trace.transport {party : Party} (trace : Trace crypto options party)
    {transport : Transport} (there : party.noise.getTransport = .ok transport) :
    party.messages.length = 3 ∧ options.Allows crypto transport.remoteStatic := by
  unfold getTransport at there
  split at there
  next open_ =>
    split at there
    next => cases there
    next live =>
      cases there
      exact (trace.live (by simpa using live)).transport _ open_
  next => cases there

theorem transcript_long (prologue : Bytes) {messages : List Bytes} (count : messages.length = 3) :
    (transcript prologue messages).length = 8 := by
  match messages, count with
  | [_, _, _], _ => rfl

variable {a b : Party}

theorem initiator_agrees (initiator : options.initiator = true)
    (responder : options'.initiator = false) (trace : Trace crypto options a)
    (trace' : Trace crypto options' b)
    (inject : NoCollision crypto (transcript options.prologue a.messages)
      (transcript options'.prologue b.messages))
    (unforged : Unforged a.noise b.noise) {transport : Transport}
    (there : a.noise.getTransport = .ok transport) :
    options.prologue = options'.prologue ∧ a.messages.take 2 = b.messages.take 2 := by
  obtain ⟨count, -⟩ := trace.transport there
  have own := trace.follows
  have other := trace'.follows
  rw [initiator] at own
  rw [responder] at other
  apply messages_of_six (by omega)
  apply own.agree other inject
  · intro x member
    exact unforged x (List.mem_append_left _ member)
  · rw [transcript_long _ count]
    decide
  · exact Or.inr rfl

theorem responder_agrees (initiator : options.initiator = true)
    (responder : options'.initiator = false) (trace : Trace crypto options a)
    (trace' : Trace crypto options' b)
    (inject : NoCollision crypto (transcript options.prologue a.messages)
      (transcript options'.prologue b.messages))
    (unforged : Unforged a.noise b.noise) {transport : Transport}
    (there : b.noise.getTransport = .ok transport) :
    options.prologue = options'.prologue ∧ a.messages.take 3 = b.messages.take 3 := by
  obtain ⟨count, -⟩ := trace'.transport there
  have own := trace'.follows
  have other := trace.follows
  rw [responder] at own
  rw [initiator] at other
  have same : (transcript options'.prologue b.messages).take 8 =
      (transcript options.prologue a.messages).take 8 := by
    apply own.agree other inject.symm
    · intro x member
      have made := unforged x (List.mem_append_right _ member)
      simpa [or_comm] using made
    · rw [transcript_long _ count]
      decide
    · exact Or.inr rfl
  obtain ⟨prologue, messages⟩ := messages_of_eight (by omega) same
  exact ⟨prologue.symm, messages.symm⟩

/-! ### Failures -/

/-- A call throws that is neither out of turn nor after the last message. -/
def Action.Fails (crypto : Crypto) (n : Noise) : Action → Prop
  | .write payload => n.check true = .ok () ∧ ∃ e, (n.writeMessage crypto payload).2 = .error e
  | .read message => n.check false = .ok () ∧ ∃ e, (n.readMessage crypto message).2 = .error e
  | .destroy => True

/-- Every call throws, and there is no transport. -/
structure Closed (crypto : Crypto) (n : Noise) : Prop where
  write : ∀ payload, (n.writeMessage crypto payload).2 = .error "Handshake closed"
  read : ∀ message, (n.readMessage crypto message).2 = .error "Handshake closed"
  transport : n.getTransport = .error "Handshake incomplete"

theorem closed_of_failed {n : Noise} (failed : n.failed = true) : Closed crypto n := by
  constructor
  · intro payload
    simp [writeMessage, attempt, check, failed]
  · intro message
    simp [readMessage, attempt, check, failed]
  · unfold getTransport
    split
    · rw [if_pos failed]
    · rfl

theorem failed_of_error {n : Noise} {writing : Bool} {body : Command Noise String Bytes}
    {e : String} (allowed : n.check writing = .ok ()) (failed : (attempt writing body n).2 = .error e) :
    (attempt writing body n).1.failed = true := by
  unfold attempt at failed ⊢
  simp only [allowed] at failed ⊢
  split at failed
  next => cases failed
  next e run => rfl

theorem Action.Fails.failed {party : Party} {action : Action}
    (fails : action.Fails crypto party.noise) : (party.act crypto action).noise.failed = true := by
  cases action with
  | write payload =>
    obtain ⟨allowed, e, thrown⟩ := fails
    rw [Party.act, Party.record_noise]
    exact failed_of_error allowed thrown
  | read message =>
    obtain ⟨allowed, e, thrown⟩ := fails
    rw [Party.act, Party.record_noise]
    exact failed_of_error allowed thrown
  | destroy => rfl

theorem failed_act {party : Party} (failed : party.noise.failed = true) (action : Action) :
    (party.act crypto action).noise.failed = true := by
  cases action with
  | write payload => simp [Party.act, Party.record, writeMessage, attempt, check, failed]
  | read message => simp [Party.act, Party.record, readMessage, attempt, check, failed]
  | destroy => rfl

theorem failed_run {party : Party} (failed : party.noise.failed = true) (actions : List Action) :
    (party.run crypto actions).noise.failed = true := by
  induction actions generalizing party with
  | nil => exact failed
  | cons action rest ih => exact ih (failed_act failed action)

/-! ### The handshake -/

theorem handshake_agreement (sound : crypto.Sound) (initiator : options.initiator = true)
    (responder : options'.initiator = false) (valid : options.Valid) (valid' : options'.Valid) :
    -- An honest run.
    (∀ first second third : Bytes, options.prologue = options'.prologue →
      options.Allows crypto (crypto.publicKey options'.staticKey) →
      options'.Allows crypto (crypto.publicKey options.staticKey) →
      first.length + 32 ≤ maxMessage → second.length + 96 ≤ maxMessage →
      third.length + 64 ≤ maxMessage →
      ∃ a b transport transport',
        exchange crypto (newNoise crypto options) (newNoise crypto options') first second third =
          .ok (a, b, [first, second, third]) ∧
        a.getTransport = .ok transport ∧ b.getTransport = .ok transport' ∧
        Agreed crypto options options' transport transport') ∧
    -- Any calls on either side.
    (∀ (actions actions' : List Action) (a b : Party),
      a = (Party.start crypto options).run crypto actions →
      b = (Party.start crypto options').run crypto actions' →
      NoCollision crypto (transcript options.prologue a.messages)
        (transcript options'.prologue b.messages) →
      Unforged a.noise b.noise →
      (∀ transport, a.noise.getTransport = .ok transport →
        options.prologue = options'.prologue ∧ a.messages.take 2 = b.messages.take 2 ∧
        options.Allows crypto transport.remoteStatic) ∧
      ∀ transport, b.noise.getTransport = .ok transport →
        options.prologue = options'.prologue ∧ a.messages.take 3 = b.messages.take 3 ∧
        options'.Allows crypto transport.remoteStatic) ∧
    -- A call that fails in its turn.
    ∀ (party : Party) (action : Action), action.Fails crypto party.noise →
      ∀ actions, Closed crypto ((party.act crypto action).run crypto actions).noise := by
  refine ⟨?_, ?_, ?_⟩
  · intro first second third prologue allows allows' fits fits' fits''
    exact exchange_agreed sound initiator responder valid valid' prologue allows allows' fits fits'
      fits''
  · rintro actions actions' a b rfl rfl inject unforged
    have trace := trace_run sound valid actions
    have trace' := trace_run sound valid' actions'
    refine ⟨fun transport there => ?_, fun transport there => ?_⟩
    · obtain ⟨prologue, messages⟩ :=
        initiator_agrees initiator responder trace trace' inject unforged there
      exact ⟨prologue, messages, (trace.transport there).2⟩
    · obtain ⟨prologue, messages⟩ :=
        responder_agrees initiator responder trace trace' inject unforged there
      exact ⟨prologue, messages, (trace'.transport there).2⟩
  · intro party action fails actions
    exact closed_of_failed (failed_run fails.failed actions)

/-! ### A small instance

Diffie-Hellman modulo 251 on the first byte of a key, and a polynomial checksum in the place of
the hash and of the tag. -/

def power (base exponent : Nat) : UInt8 := (base ^ exponent % 251).toUInt8

def checksum (data : Bytes) : Nat :=
  data.foldl (fun sum byte => (sum * 257 + byte.toNat + 1) % (2 ^ 61 - 1)) 7

def digits : Nat → Nat → Bytes
  | 0, _ => []
  | size + 1, value => (value % 256).toUInt8 :: digits size (value / 256)

def sampleTag (key : Bytes) (nonce : Nat) (ad data : Bytes) : Bytes :=
  digits 16 (checksum (key ++ digits 8 nonce ++ ad ++ data))

def sampleCrypto : Crypto where
  publicKey key := power 5 (key.headD 0).toNat :: List.replicate 31 0
  sharedSecret key remote := some [power (remote.headD 0).toNat (key.headD 0).toNat]
  sha256 data := digits 32 (checksum data)
  hkdf input salt :=
    digits 32 (checksum (0 :: salt ++ input)) ++ digits 32 (checksum (1 :: salt ++ input))
  encrypt key nonce ad data := data ++ sampleTag key nonce ad data
  decrypt key nonce ad ciphertext :=
    let data := ciphertext.take (ciphertext.length - 16)
    if ciphertext = data ++ sampleTag key nonce ad data then some data else none

theorem digits_length (size value : Nat) : (digits size value).length = size := by
  induction size generalizing value with
  | zero => rfl
  | succ size ih => simp [digits, ih]

theorem power_power (x y : Nat) : power (power 5 x).toNat y = power (power 5 y).toNat x := by
  have value (x : Nat) : (power 5 x).toNat = 5 ^ x % 251 := by
    have small : 5 ^ x % 251 < 251 := Nat.mod_lt _ (by decide)
    simp only [power, Nat.toUInt8_eq, UInt8.toNat_ofNat']
    omega
  simp only [value]
  simp only [power, ← Nat.pow_mod, ← Nat.pow_mul, Nat.mul_comm]

theorem sampleCrypto_sound : sampleCrypto.Sound where
  short _ _ := rfl
  secret key key' _ _ := by
    refine ⟨_, rfl, ?_⟩
    simp only [sampleCrypto, List.headD_cons]
    rw [power_power]
  inverse key nonce ad data := by
    have size : (sampleTag key nonce ad data).length = 16 := digits_length ..
    simp [sampleCrypto, size]
  tag key nonce ad data := by
    have size : (sampleTag key nonce ad data).length = 16 := digits_length ..
    simp [sampleCrypto, size]

def sampleInitiator : HandshakeOptions where
  initiator := true
  staticKey := List.replicate 32 3
  ephemeralKey := List.replicate 32 5
  prologue := [1, 2]

def sampleResponder : HandshakeOptions where
  initiator := false
  staticKey := List.replicate 32 7
  ephemeralKey := List.replicate 32 9
  prologue := [1, 2]

def written : Noise × Except String Bytes → Bytes
  | (_, .ok message) => message
  | (_, .error _) => []

def sampleFirst : Bytes :=
  written ((newNoise sampleCrypto sampleInitiator).writeMessage sampleCrypto [10])

def sampleSecond : Bytes :=
  written (((newNoise sampleCrypto sampleResponder).readMessage sampleCrypto
    sampleFirst).1.writeMessage sampleCrypto [20])

def sampleThird : Bytes :=
  written ((((newNoise sampleCrypto sampleInitiator).writeMessage sampleCrypto
    [10]).1.readMessage sampleCrypto sampleSecond).1.writeMessage sampleCrypto [30])

def sampleActions : List Action := [.write [10], .read sampleSecond, .write [30]]

def sampleActions' : List Action := [.read sampleFirst, .write [20], .read sampleThird]

def sampleParty : Party :=
  (Party.start sampleCrypto sampleInitiator).run sampleCrypto sampleActions

def sampleParty' : Party :=
  (Party.start sampleCrypto sampleResponder).run sampleCrypto sampleActions'

theorem noCollision_of_range {data : List Bytes}
    (distinct : ((List.range (data.length + 1)).all fun i => (List.range (data.length + 1)).all
      fun j => i == j || absorb crypto (data.take i) != absorb crypto (data.take j)) = true) :
    NoCollision crypto data data := by
  simp only [List.all_eq_true, List.mem_range, Bool.or_eq_true, beq_iff_eq, bne_iff_ne] at distinct
  have cut (i : Nat) : data.take i = data.take (min i data.length) := by
    rcases Nat.le_total i data.length with le | ge
    · rw [Nat.min_eq_left le]
    · rw [Nat.min_eq_right ge, List.take_of_length_le ge, List.take_length]
  intro t member t' member' i j same
  simp only [List.mem_cons, List.not_mem_nil, or_false, or_self] at member member'
  rw [member, member'] at same ⊢
  rw [cut i, cut j] at same ⊢
  rcases distinct (min i data.length) (by omega) (min j data.length) (by omega) with
    equal | different
  · rw [equal]
  · exact absurd same different

theorem sampleParty_noCollision :
    NoCollision sampleCrypto (transcript sampleInitiator.prologue sampleParty.messages)
      (transcript sampleResponder.prologue sampleParty'.messages) := by
  have same : sampleParty'.messages = sampleParty.messages := by decide +kernel
  rw [same]
  exact noCollision_of_range (by decide +kernel)

theorem sampleParty_unforged : Unforged sampleParty.noise sampleParty'.noise := by
  show ∀ x ∈ sampleParty.noise.opened ++ sampleParty'.noise.opened,
    x ∈ sampleParty.noise.sealed ++ sampleParty'.noise.sealed
  decide +kernel

theorem handshake_agreement_sample :
    (∃ a b transport transport',
      exchange sampleCrypto (newNoise sampleCrypto sampleInitiator)
        (newNoise sampleCrypto sampleResponder) [10] [20] [30] = .ok (a, b, [[10], [20], [30]]) ∧
      a.getTransport = .ok transport ∧ b.getTransport = .ok transport' ∧
      Agreed sampleCrypto sampleInitiator sampleResponder transport transport') ∧
    sampleParty.noise.getTransport.toOption.isSome ∧
    sampleParty'.noise.getTransport.toOption.isSome ∧
    (∀ transport, sampleParty'.noise.getTransport = .ok transport →
      sampleParty.messages.take 3 = sampleParty'.messages.take 3) ∧
    ∀ actions, Closed sampleCrypto (((Party.start sampleCrypto sampleInitiator).act sampleCrypto
      .destroy).run sampleCrypto actions).noise := by
  obtain ⟨honest, altered, final⟩ := @handshake_agreement sampleCrypto sampleInitiator
    sampleResponder sampleCrypto_sound rfl rfl ⟨rfl, rfl⟩ ⟨rfl, rfl⟩
  refine ⟨?_, by decide +kernel, by decide +kernel, ?_, ?_⟩
  · exact honest [10] [20] [30] rfl nofun nofun (by decide) (by decide) (by decide)
  · intro transport there
    exact ((altered sampleActions sampleActions' sampleParty sampleParty' rfl rfl
      sampleParty_noCollision sampleParty_unforged).2 transport there).2.1
  · exact final (Party.start sampleCrypto sampleInitiator) .destroy trivial

/-- Somebody else in the place of the responder. -/
def sampleStranger : HandshakeOptions :=
  { sampleResponder with staticKey := List.replicate 32 11, ephemeralKey := List.replicate 32 13 }

def strangerSecond : Bytes :=
  written (((newNoise sampleCrypto sampleStranger).readMessage sampleCrypto
    sampleFirst).1.writeMessage sampleCrypto [20])

/-- A call out of turn throws and the handshake goes on. Without a pin the initiator gets a
transport also from an answer that is not the responder's. -/
theorem refused_or_replaced_goes_on :
    ((newNoise sampleCrypto sampleResponder).writeMessage sampleCrypto []).2 =
      .error "Wrong handshake turn" ∧
    (((newNoise sampleCrypto sampleResponder).writeMessage sampleCrypto []).1.readMessage
      sampleCrypto sampleFirst).2.toOption = some [10] ∧
    strangerSecond ≠ sampleSecond ∧
    ((Party.start sampleCrypto sampleInitiator).run sampleCrypto
      [.write [10], .read strangerSecond, .write [30]]).noise.getTransport.toOption.isSome := by
  refine ⟨rfl, ?_⟩
  decide +kernel

end Ace.SecureChannel
