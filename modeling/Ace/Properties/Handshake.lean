import Ace.Properties.NoiseMessages

/-!
# Agreement of the Noise handshake

Two sides whose hash, chaining key and cipher are the same stay so through every message that
one of them writes and the other reads. Against altered messages each side is compared with the
list of what it hashed: every ciphertext is bound to the hash before it, so if no ciphertext is
accepted that neither side made, and the two lists do not collide, a side that gets through has
hashed what the other has.
-/

namespace Ace.SecureChannel

open Script Script.Command

/-- What the handshake relies on: Diffie-Hellman commutes, decryption inverts encryption, and
the sizes of keys and tags. -/
structure Crypto.Sound (crypto : Crypto) : Prop where
  short : ∀ key, key.length = 32 → (crypto.publicKey key).length = 32
  secret : ∀ key key', key.length = 32 → key'.length = 32 →
    ∃ shared, crypto.sharedSecret key (crypto.publicKey key') = some shared ∧
      crypto.sharedSecret key' (crypto.publicKey key) = some shared
  inverse : ∀ key nonce ad data,
    crypto.decrypt key nonce ad (crypto.encrypt key nonce ad data) = some data
  tag : ∀ key nonce ad data, (crypto.encrypt key nonce ad data).length = data.length + 16

/-- Private keys have 32 bytes. -/
structure HandshakeOptions.Valid (options : HandshakeOptions) : Prop where
  staticKey : options.staticKey.length = 32
  ephemeralKey : options.ephemeralKey.length = 32

/-- The pin, if there is one, is the fingerprint of a key. -/
def HandshakeOptions.Allows (crypto : Crypto) (options : HandshakeOptions) (rs : Bytes) : Prop :=
  ∀ pinned, options.pinnedFingerprint = some pinned → fingerprint crypto rs = .ok pinned

variable {crypto : Crypto}

namespace Noise

/-! ### Two sides in step -/

/-- Two sides have hashed and derived the same. -/
structure InStep (a b : Noise) : Prop where
  h : a.h = b.h
  ck : a.ck = b.ck
  cipher : a.cipher = b.cipher

variable {a b : Noise}

theorem InStep.identified (same : InStep a b) (rs : Bytes) : InStep (a.identified rs) b :=
  ⟨same.h, same.ck, same.cipher⟩

theorem InStep.heard (same : InStep a b) (re : Bytes) :
    InStep { a with re := some re } b := ⟨same.h, same.ck, same.cipher⟩

theorem InStep.hashed (crypto : Crypto) (same : InStep a b) (data : Bytes) :
    InStep (a.hashed crypto data) (b.hashed crypto data) :=
  ⟨by simp only [Noise.hashed, same.h], same.ck, same.cipher⟩

theorem InStep.keyed (crypto : Crypto) (same : InStep a b) (shared : Bytes) :
    InStep (a.keyed crypto shared) (b.keyed crypto shared) :=
  ⟨same.h, by simp only [Noise.keyed, same.ck], by simp only [Noise.keyed, same.ck]⟩

theorem InStep.took (crypto : Crypto) (same : InStep a b) (part : Bytes) :
    InStep (a.took crypto part) (b.wrote crypto part) :=
  ⟨by simp only [Noise.took, Noise.wrote, same.h], same.ck,
    by simp only [Noise.took, Noise.wrote, same.cipher]⟩

theorem InStep.plaintext (same : InStep a b) (sound : crypto.Sound) (data : Bytes) :
    a.plaintext crypto (b.ciphertext crypto data) = some data := by
  simp only [Noise.plaintext, ciphertext, same.h, same.cipher]
  exact sound.inverse ..

/-! ### An honest run -/

/-- A key pair of the library. -/
def Genuine (crypto : Crypto) (pair : KeyPair) : Prop :=
  ∃ key, key.length = 32 ∧ pair = keyPair crypto key

theorem Genuine.secret (sound : crypto.Sound) {own other : KeyPair} (genuine : Genuine crypto own)
    (genuine' : Genuine crypto other) :
    ∃ shared, crypto.sharedSecret own.privateKey other.publicKey = some shared ∧
      crypto.sharedSecret other.privateKey own.publicKey = some shared := by
  obtain ⟨key, long, rfl⟩ := genuine
  obtain ⟨key', long', rfl⟩ := genuine'
  exact sound.secret key key' long long'

theorem Genuine.short (sound : crypto.Sound) {pair : KeyPair} (genuine : Genuine crypto pair) :
    pair.publicKey.length = 32 := by
  obtain ⟨key, long, rfl⟩ := genuine
  exact sound.short key long

/-- One message: it is written by one side, and the other reads it. -/
def turn (crypto : Crypto) (writer reader : Noise) (payload : Bytes) :
    Except String (Noise × Noise × Bytes) :=
  match writer.writeMessage crypto payload with
  | (_, .error e) => .error e
  | (writer, .ok message) =>
    match reader.readMessage crypto message with
    | (_, .error e) => .error e
    | (reader, .ok payload) => .ok (writer, reader, payload)

/-- The initiator and the responder after the three messages, and the payloads they read. -/
def exchange (crypto : Crypto) (a b : Noise) (first second third : Bytes) :
    Except String (Noise × Noise × List Bytes) := do
  let (a, b, first) ← turn crypto a b first
  let (b, a, second) ← turn crypto b a second
  let (a, b, third) ← turn crypto a b third
  return (a, b, [first, second, third])

theorem attempt_of_meets {n : Noise} {writing : Bool} {body : Command Noise String Bytes}
    {R : Bytes → Noise → Prop} (allowed : n.check writing = .ok ())
    (meets : Meets (fun _ => False) body n R) :
    ∃ output n', attempt writing body n = (n', .ok output) ∧ R output n' := by
  simp only [attempt, allowed]
  unfold Meets at meets
  split at meets
  next output n' run => exact ⟨output, n', by rw [run], meets⟩
  next => exact meets.elim

theorem turn_of_meets {payload : Bytes} {R : Bytes → Noise → Noise → Prop}
    (writes : a.check true = .ok ()) (reads : b.check false = .ok ())
    (meets : Meets (fun _ => False) (writeBody crypto payload) a fun message a' =>
      Meets (fun _ => False) (readBody crypto message) b fun payload' b' => R payload' a' b') :
    ∃ a' b' payload', turn crypto a b payload = .ok (a', b', payload') ∧ R payload' a' b' := by
  obtain ⟨message, a', wrote, meets'⟩ := attempt_of_meets writes meets
  obtain ⟨payload', b', read, holds⟩ := attempt_of_meets reads meets'
  refine ⟨a', b', payload', ?_, holds⟩
  simp only [turn, writeMessage, wrote, readMessage, read]

theorem second_parts {e identity : Bytes} (output : Bytes) (short : e.length = 32)
    (long : identity.length = 48) :
    (e ++ identity ++ output).take 32 = e ∧
      ((e ++ identity ++ output).drop 32).take 48 = identity ∧
      (e ++ identity ++ output).drop 80 = output := by
  refine ⟨?_, ?_, ?_⟩
  · simp [List.append_assoc, ← short]
  · simp [List.append_assoc, ← short, ← long]
  · rw [List.drop_left']
    simp [short, long]

theorem second_accepted {ee es identity output payload : Bytes} (sound : crypto.Sound)
    (same : InStep a b) (short : b.e.publicKey.length = 32) (short' : b.s.publicKey.length = 32)
    (allows : ∀ pinned, a.pinnedFingerprint = some pinned →
      fingerprint crypto b.s.publicKey = .ok pinned)
    (secret : crypto.sharedSecret a.e.privateKey b.e.publicKey = some ee)
    (secret' : crypto.sharedSecret a.e.privateKey b.s.publicKey = some es)
    (fits : payload.length + 96 ≤ maxMessage)
    (identity_eq : identity = ((b.hashed crypto b.e.publicKey).keyed crypto ee).ciphertext crypto
      b.s.publicKey)
    (output_eq : output = ((((b.hashed crypto b.e.publicKey).keyed crypto ee).wrote crypto
      identity).keyed crypto es).ciphertext crypto payload) :
    a.SecondAccepted crypto (b.e.publicKey ++ identity ++ output) ee b.s.publicKey es payload := by
  have long : identity.length = 48 := by rw [identity_eq, ciphertext, sound.tag, short']
  have long' : output.length = payload.length + 16 := by rw [output_eq, ciphertext, sound.tag]
  obtain ⟨part, part', part''⟩ := second_parts output short long
  have keyed := ((same.heard b.e.publicKey).hashed crypto b.e.publicKey).keyed crypto ee
  have keyed' := ((keyed.took crypto identity).identified b.s.publicKey).keyed crypto es
  constructor
  · simp only [List.length_append, short, long, long']
    omega
  · simp only [List.length_append, short, long, long']
    omega
  · rw [part]
    exact secret
  · rw [part, part']
    refine ⟨?_, allows, secret'⟩
    rw [identity_eq]
    exact keyed.plaintext sound _
  · rw [part, part', part'', output_eq]
    exact keyed'.plaintext sound _

theorem third_accepted {se identity output payload : Bytes} (sound : crypto.Sound)
    (same : InStep b a) (short : a.s.publicKey.length = 32)
    (allows : ∀ pinned, b.pinnedFingerprint = some pinned →
      fingerprint crypto a.s.publicKey = .ok pinned)
    (secret : crypto.sharedSecret b.e.privateKey a.s.publicKey = some se)
    (fits : payload.length + 64 ≤ maxMessage)
    (identity_eq : identity = a.ciphertext crypto a.s.publicKey)
    (output_eq : output = ((a.wrote crypto identity).keyed crypto se).ciphertext crypto payload) :
    b.ThirdAccepted crypto (identity ++ output) a.s.publicKey se payload := by
  have long : identity.length = 48 := by rw [identity_eq, ciphertext, sound.tag, short]
  have long' : output.length = payload.length + 16 := by rw [output_eq, ciphertext, sound.tag]
  have keyed := ((same.took crypto identity).identified a.s.publicKey).keyed crypto se
  constructor
  · simp only [List.length_append, long, long']
    omega
  · simp only [List.length_append, long, long']
    omega
  · rw [List.take_left' long]
    refine ⟨?_, allows, secret⟩
    rw [identity_eq]
    exact same.plaintext sound _
  · rw [List.take_left' long, List.drop_left' long, output_eq]
    exact keyed.plaintext sound _

/-- A live side between two messages: how far it is, and that it has its own keys. -/
structure Phase (crypto : Crypto) (options : HandshakeOptions) (step : Nat) (n : Noise) : Prop where
  initiator : n.initiator = options.initiator
  pinned : n.pinnedFingerprint = options.pinnedFingerprint
  s : n.s = keyPair crypto options.staticKey
  e : n.e = keyPair crypto options.ephemeralKey
  step_eq : n.step = step
  live : n.failed = false

theorem phase_newNoise (options : HandshakeOptions) :
    Phase crypto options 0 (newNoise crypto options) := ⟨rfl, rfl, rfl, rfl, rfl, rfl⟩

variable {options options' : HandshakeOptions} {step : Nat} {payload : Bytes}

/-! The moves keep all of it, and the end of a message advances the step. -/

theorem Phase.advance {n : Noise} (phase : Phase crypto options step n) (step' : Nat) :
    Phase crypto options step' { n with step := step' } :=
  ⟨phase.initiator, phase.pinned, phase.s, phase.e, rfl, phase.live⟩

theorem Phase.heard {n : Noise} (phase : Phase crypto options step n) (re : Bytes) :
    Phase crypto options step { n with re := some re } :=
  ⟨phase.initiator, phase.pinned, phase.s, phase.e, phase.step_eq, phase.live⟩

theorem Phase.identified {n : Noise} (phase : Phase crypto options step n) (rs : Bytes) :
    Phase crypto options step (n.identified rs) :=
  ⟨phase.initiator, phase.pinned, phase.s, phase.e, phase.step_eq, phase.live⟩

theorem Phase.hashed {n : Noise} (phase : Phase crypto options step n) (data : Bytes) :
    Phase crypto options step (n.hashed crypto data) :=
  ⟨phase.initiator, phase.pinned, phase.s, phase.e, phase.step_eq, phase.live⟩

theorem Phase.keyed {n : Noise} (phase : Phase crypto options step n) (shared : Bytes) :
    Phase crypto options step (n.keyed crypto shared) :=
  ⟨phase.initiator, phase.pinned, phase.s, phase.e, phase.step_eq, phase.live⟩

theorem Phase.wrote {n : Noise} (phase : Phase crypto options step n) (part : Bytes) :
    Phase crypto options step (n.wrote crypto part) :=
  ⟨phase.initiator, phase.pinned, phase.s, phase.e, phase.step_eq, phase.live⟩

theorem Phase.took {n : Noise} (phase : Phase crypto options step n) (part : Bytes) :
    Phase crypto options step (n.took crypto part) :=
  ⟨phase.initiator, phase.pinned, phase.s, phase.e, phase.step_eq, phase.live⟩

theorem InStep.advance (same : InStep a b) (step : Nat) :
    InStep { a with step } { b with step } := ⟨same.h, same.ck, same.cipher⟩

theorem InStep.symm (same : InStep a b) : InStep b a :=
  ⟨same.h.symm, same.ck.symm, same.cipher.symm⟩

theorem Phase.check_ok {n : Noise} (phase : Phase crypto options step n) (early : step ≠ 3)
    (writing : Bool) (turn : writing = (options.initiator == (step != 1))) :
    n.check writing = .ok () := by
  simp [check, phase.live, phase.step_eq, phase.initiator, early, turn]

theorem first_turn (sound : crypto.Sound) (initiator : options.initiator = true)
    (responder : options'.initiator = false) (valid : options.Valid)
    (phase : Phase crypto options 0 a) (phase' : Phase crypto options' 0 b) (same : InStep a b)
    (plain : a.cipher = {}) (fits : payload.length + 32 ≤ maxMessage) :
    ∃ a' b', turn crypto a b payload = .ok (a', b', payload) ∧ Phase crypto options 1 a' ∧
      Phase crypto options' 1 b' ∧ InStep a' b' ∧ b'.re = some a.e.publicKey := by
  have short : a.e.publicKey.length = 32 := by
    rw [phase.e]
    exact sound.short _ valid.ephemeralKey
  have meets : ∃ a' b' payload', turn crypto a b payload = .ok (a', b', payload') ∧
      payload' = payload ∧ a' = a.firstWritten crypto a.e.publicKey payload ∧
      b' = b.firstRead crypto a.e.publicKey payload := by
    apply turn_of_meets (phase.check_ok (by decide) true (by simp [initiator]))
      (phase'.check_ok (by decide) false (by simp [responder]))
    apply meets_writeBody_first phase.step_eq plain (by omega)
    apply meets_readBody_first phase'.step_eq (same.cipher ▸ plain)
    · simp [short]
    · simp only [List.length_append, short]
      omega
    · simp [← short]
  obtain ⟨a', b', payload', run, same_payload, wrote, read⟩ := meets
  subst wrote read same_payload
  refine ⟨_, _, run, ⟨phase.initiator, phase.pinned, phase.s, phase.e, rfl, phase.live⟩,
    ⟨phase'.initiator, phase'.pinned, phase'.s, phase'.e, rfl, phase'.live⟩, ?_, rfl⟩
  have hashed := (same.hashed crypto a.e.publicKey).hashed crypto payload'
  exact ⟨hashed.h, hashed.ck, hashed.cipher⟩

theorem second_turn (sound : crypto.Sound) (initiator : options.initiator = true)
    (responder : options'.initiator = false) (valid : options.Valid) (valid' : options'.Valid)
    (phase : Phase crypto options 1 a) (phase' : Phase crypto options' 1 b) (same : InStep a b)
    (heard : b.re = some a.e.publicKey)
    (allows : options.Allows crypto (crypto.publicKey options'.staticKey))
    (fits : payload.length + 96 ≤ maxMessage) :
    ∃ b' a', turn crypto b a payload = .ok (b', a', payload) ∧ Phase crypto options 2 a' ∧
      Phase crypto options' 2 b' ∧ InStep b' a' ∧ b'.Ready ∧ a'.re = some b.e.publicKey ∧
      a'.rs = some b.s.publicKey := by
  have e : Genuine crypto a.e := ⟨_, valid.ephemeralKey, phase.e⟩
  have e' : Genuine crypto b.e := ⟨_, valid'.ephemeralKey, phase'.e⟩
  have s' : Genuine crypto b.s := ⟨_, valid'.staticKey, phase'.s⟩
  obtain ⟨ee, secret, mirror⟩ := e.secret sound e'
  obtain ⟨es, secret', mirror'⟩ := e.secret sound s'
  have meets : ∃ b' a' payload', turn crypto b a payload = .ok (b', a', payload') ∧
      ∃ identity output, payload' = payload ∧
        b' = b.secondWritten crypto ee es b.e.publicKey identity output ∧
        a' = a.secondRead crypto ee es b.s.publicKey b.e.publicKey identity output := by
    apply turn_of_meets (phase'.check_ok (by decide) true (by simp [responder]))
      (phase.check_ok (by decide) false (by simp [initiator]))
    apply meets_writeBody_second phase'.step_eq heard (s'.short sound) (by omega)
    · rw [mirror, mirror']
      simp
    intro ee' es' identity output known known' identity_eq output_eq
    have one : ee = ee' := Option.some.inj (mirror.symm.trans known)
    have two : es = es' := Option.some.inj (mirror'.symm.trans known')
    subst one two
    have accepted := second_accepted sound same (e'.short sound) (s'.short sound)
      (by rw [phase'.s, phase.pinned]; exact allows) secret secret' fits identity_eq output_eq
    apply meets_readBody_second phase.step_eq
    · intro refused
      exact absurd ⟨_, _, _, _, accepted⟩ refused
    intro ee' rs' es' payload' accepted'
    obtain ⟨rfl, rfl, rfl, rfl⟩ := accepted.unique accepted'
    have long : identity.length = 48 := by rw [identity_eq, ciphertext, sound.tag, s'.short sound]
    obtain ⟨part, part', part''⟩ := second_parts output (e'.short sound) long
    rw [part, part', part'']
    exact ⟨identity, output, rfl, rfl, rfl⟩
  obtain ⟨b', a', payload', run, identity, output, same_payload, wrote, read⟩ := meets
  subst wrote read same_payload
  refine ⟨_, _, run, ?_, ?_, ?_, ?_, rfl, rfl⟩
  · exact ((((((phase.heard _).hashed _).keyed ee).took identity).identified _).keyed es).took
      output |>.advance 2
  · exact ((((phase'.hashed _).keyed ee).wrote identity).keyed es).wrote output |>.advance 2
  · have keyed := ((same.heard b.e.publicKey).hashed crypto b.e.publicKey).keyed crypto ee
    have took := (((keyed.took crypto identity).identified b.s.publicKey).keyed crypto es).took
      crypto output
    exact (took.advance 2).symm
  · exact ready_wrote

/-- The transports of the two sides fit together, and each names the other's static key. -/
structure Agreed (crypto : Crypto) (options options' : HandshakeOptions)
    (transport transport' : Transport) : Prop where
  handshakeHash : transport.handshakeHash = transport'.handshakeHash
  remoteStatic : transport.remoteStatic = crypto.publicKey options'.staticKey
  remoteStatic' : transport'.remoteStatic = crypto.publicKey options.staticKey
  send : transport.send = transport'.receive
  receive : transport.receive = transport'.send
  keyed : transport.send.key.isSome ∧ transport.receive.key.isSome

theorem getTransport_finished {n : Noise} (live : n.failed = false) (rs : Bytes) :
    (n.finished crypto rs).getTransport = .ok (n.split crypto rs) := by
  simp [getTransport, finished, erase, live]

theorem split_crossed (same : InStep a b) (initiator : a.initiator = true)
    (responder : b.initiator = false) (rs rs' : Bytes) :
    (a.split crypto rs).send = (b.split crypto rs').receive ∧
      (a.split crypto rs).receive = (b.split crypto rs').send := by
  simp [split, same.ck, initiator, responder]

theorem third_turn (sound : crypto.Sound) (initiator : options.initiator = true)
    (responder : options'.initiator = false) (valid : options.Valid) (valid' : options'.Valid)
    (phase : Phase crypto options 2 a) (phase' : Phase crypto options' 2 b) (same : InStep b a)
    (ready : b.Ready) (heard : a.re = some b.e.publicKey) (known : a.rs = some b.s.publicKey)
    (allows : options'.Allows crypto (crypto.publicKey options.staticKey))
    (fits : payload.length + 64 ≤ maxMessage) :
    ∃ a' b' transport transport', turn crypto a b payload = .ok (a', b', payload) ∧
      a'.getTransport = .ok transport ∧ b'.getTransport = .ok transport' ∧
      Agreed crypto options options' transport transport' := by
  have e : Genuine crypto b.e := ⟨_, valid'.ephemeralKey, phase'.e⟩
  have s : Genuine crypto a.s := ⟨_, valid.staticKey, phase.s⟩
  obtain ⟨se, secret, mirror⟩ := e.secret sound s
  have ready' : a.Ready := by
    obtain ⟨keyed, unclosed, nonce_lt⟩ := ready
    rw [same.cipher] at keyed unclosed nonce_lt
    exact ⟨keyed, unclosed, nonce_lt⟩
  have meets : ∃ a' b' payload', turn crypto a b payload = .ok (a', b', payload') ∧
      ∃ identity output, payload' = payload ∧
        a' = a.thirdWritten crypto se b.s.publicKey identity output ∧
        b' = b.thirdRead crypto se a.s.publicKey identity output := by
    apply turn_of_meets (phase.check_ok (by decide) true (by simp [initiator]))
      (phase'.check_ok (by decide) false (by simp [responder]))
    apply meets_writeBody_third phase.step_eq heard known ready' (s.short sound) (by omega)
    · rw [mirror]
      simp
    intro se' identity output known' identity_eq output_eq
    have one : se = se' := Option.some.inj (mirror.symm.trans known')
    subst one
    have accepted := third_accepted sound same (s.short sound) (by rw [phase.s, phase'.pinned]; exact allows)
      secret fits identity_eq output_eq
    apply meets_readBody_third phase'.step_eq ready
    · intro refused
      exact absurd ⟨_, _, _, accepted⟩ refused
    intro rs' se' payload' accepted'
    obtain ⟨rfl, rfl, rfl⟩ := accepted.unique accepted'
    have long : identity.length = 48 := by rw [identity_eq, ciphertext, sound.tag, s.short sound]
    rw [List.take_left' long, List.drop_left' long]
    exact ⟨identity, output, rfl, rfl, rfl⟩
  obtain ⟨a', b', payload', run, identity, output, same_payload, wrote, read⟩ := meets
  subst wrote read same_payload
  have last := (((same.took crypto identity).identified a.s.publicKey).keyed crypto se).took
    crypto output
  have phase₁ := ((phase.wrote identity).keyed se).wrote output
  have phase₁' := (((phase'.took identity).identified a.s.publicKey).keyed se).took output
  refine ⟨_, _, _, _, run, getTransport_finished phase₁.live _, getTransport_finished phase₁'.live _, ?_⟩
  obtain ⟨send, receive⟩ := split_crossed last.symm (phase₁.initiator.trans initiator)
    (phase₁'.initiator.trans responder) b.s.publicKey a.s.publicKey
  refine ⟨last.h.symm, ?_, ?_, send, receive, rfl, rfl⟩
  · show b.s.publicKey = _
    rw [phase'.s]
    rfl
  · show a.s.publicKey = _
    rw [phase.s]
    rfl

theorem exchange_agreed {first second third : Bytes} (sound : crypto.Sound)
    (initiator : options.initiator = true) (responder : options'.initiator = false)
    (valid : options.Valid) (valid' : options'.Valid)
    (prologue : options.prologue = options'.prologue)
    (allows : options.Allows crypto (crypto.publicKey options'.staticKey))
    (allows' : options'.Allows crypto (crypto.publicKey options.staticKey))
    (fits : first.length + 32 ≤ maxMessage) (fits' : second.length + 96 ≤ maxMessage)
    (fits'' : third.length + 64 ≤ maxMessage) :
    ∃ a b transport transport',
      exchange crypto (newNoise crypto options) (newNoise crypto options') first second third =
        .ok (a, b, [first, second, third]) ∧
      a.getTransport = .ok transport ∧ b.getTransport = .ok transport' ∧
      Agreed crypto options options' transport transport' := by
  have same : InStep (newNoise crypto options) (newNoise crypto options') :=
    ⟨by simp only [newNoise, prologue], rfl, rfl⟩
  obtain ⟨a₁, b₁, turn₁, phase₁, phase₁', same₁, heard₁⟩ := first_turn sound initiator responder
    valid (phase_newNoise options) (phase_newNoise options') same rfl fits
  have heard : b₁.re = some a₁.e.publicKey := by rw [heard₁, phase₁.e]; rfl
  obtain ⟨b₂, a₂, turn₂, phase₂, phase₂', same₂, ready₂, heard₂, known₂⟩ := second_turn sound
    initiator responder valid valid' phase₁ phase₁' same₁ heard allows fits'
  have heard' : a₂.re = some b₂.e.publicKey := by rw [heard₂, phase₂'.e, phase₁'.e]
  have known' : a₂.rs = some b₂.s.publicKey := by rw [known₂, phase₂'.s, phase₁'.s]
  obtain ⟨a₃, b₃, transport, transport', turn₃, opened, opened', agreed⟩ := third_turn sound
    initiator responder valid valid' phase₂ phase₂' same₂ ready₂ heard' known'
    allows' fits''
  refine ⟨a₃, b₃, transport, transport', ?_, opened, opened', agreed⟩
  simp only [exchange, turn₁, turn₂, turn₃, bind, Except.bind, pure, Except.pure]

end Noise

end Ace.SecureChannel
