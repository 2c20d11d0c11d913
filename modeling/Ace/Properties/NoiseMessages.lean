import Ace.SecureChannel.Noise

/-!
# Messages of the Noise handshake

Each of the six calls of a handshake, as a specification: what makes it throw, and otherwise
the message or payload and the state after it. The states are written with the moves of the
protocol, so that the two sides can be compared move by move.
-/

namespace Ace.SecureChannel

open Script.Command

variable {crypto : Crypto}

namespace Noise

/-! ### The moves of the state machine

`E` is what holds when a move throws. -/

section Moves

variable {n : Noise} {E : String → Prop} {Q : PUnit → Noise → Prop} {R : Bytes → Noise → Prop}

/-- What the cipher makes of a part. -/
def ciphertext (crypto : Crypto) (n : Noise) (data : Bytes) : Bytes :=
  crypto.encrypt (n.cipher.key.getD []) n.cipher.nonce n.h data

/-- A part was encrypted, and is hashed. -/
def wrote (crypto : Crypto) (n : Noise) (part : Bytes) : Noise :=
  { n with
    cipher := { n.cipher with nonce := n.cipher.nonce + 1 }
    sealed := n.sealed ++ [⟨n.cipher.key.getD [], n.cipher.nonce, n.h, part⟩]
    h := crypto.sha256 (n.h ++ part) }

/-- A part was decrypted, and is hashed. -/
def took (crypto : Crypto) (n : Noise) (part : Bytes) : Noise :=
  { n with
    cipher := { n.cipher with nonce := n.cipher.nonce + 1 }
    opened := n.opened ++ [⟨n.cipher.key.getD [], n.cipher.nonce, n.h, part⟩]
    h := crypto.sha256 (n.h ++ part) }

/-- The cipher has a key and takes another message. -/
structure Ready (n : Noise) : Prop where
  keyed : n.cipher.key.isSome
  unclosed : n.cipher.closed = false
  nonce_lt : n.cipher.nonce < maxNonce

theorem ready_keyed {shared : Bytes} : (n.keyed crypto shared).Ready :=
  ⟨rfl, rfl, by show 0 < maxNonce; decide⟩

theorem ready_wrote {shared part : Bytes} :
    ({ (n.keyed crypto shared).wrote crypto part with step := 2 } : Noise).Ready :=
  ⟨rfl, rfl, by show 1 < maxNonce; decide⟩

theorem ready_took {shared part : Bytes} :
    ({ (n.keyed crypto shared).took crypto part with step := 2 } : Noise).Ready :=
  ⟨rfl, rfl, by show 1 < maxNonce; decide⟩

theorem meets_mixHash {data : Bytes} :
    Meets E (mixHash crypto data) n Q ↔ Q ⟨⟩ (n.hashed crypto data) := Iff.rfl

theorem meets_mixKey {own : KeyPair} {r : Bytes}
    (refused : crypto.sharedSecret own.privateKey r = none → ∀ e, E e)
    (next : ∀ shared, crypto.sharedSecret own.privateKey r = some shared →
      Q ⟨⟩ (n.keyed crypto shared)) : Meets E (mixKey crypto own (some r)) n Q := by
  simp only [mixKey]
  cases secret : crypto.sharedSecret own.privateKey r with
  | none => exact refused secret _
  | some shared => exact next shared secret

theorem check_ok {cipher : Cipher} {length : Nat} (unclosed : cipher.closed = false)
    (nonce_lt : cipher.nonce < maxNonce) (fits : length ≤ maxMessage) :
    cipher.check length = .ok () := by
  simp [Cipher.check, unclosed, Nat.not_le.mpr nonce_lt, Nat.not_lt.mpr fits]

theorem check_big (cipher : Cipher) {length : Nat} (big : maxMessage < length) :
    ∃ e, cipher.check length = .error e := by
  by_cases spent : cipher.closed ∨ maxNonce ≤ cipher.nonce
  · exact ⟨_, if_pos spent⟩
  · exact ⟨_, by rw [Cipher.check, if_neg spent, if_pos big]⟩

theorem meets_cryptWrite_plain {data : Bytes} (plain : n.cipher = {})
    (big : maxMessage < data.length → ∀ e, E e) (next : R data (n.hashed crypto data)) :
    Meets E (cryptWrite crypto data) n R := by
  have same : ({ n with cipher := {}, sealed := n.sealed ++ n.sealing data } : Noise) = n := by
    cases n
    simp_all [sealing]
  simp only [cryptWrite, meets_bind, meets_get, Cipher.encrypt, plain]
  by_cases fits : data.length ≤ maxMessage
  · rw [check_ok rfl (by decide) (by simpa using fits)]
    show R data (Noise.hashed crypto { n with cipher := {}, sealed := _ } data)
    rwa [same]
  · obtain ⟨e, refused⟩ := check_big {} (Nat.lt_of_not_le fits)
    simp only [Option.isSome_none, Bool.false_eq_true, if_false, Nat.add_zero, refused]
    exact big (Nat.lt_of_not_le fits) e

theorem meets_cryptRead_plain {data : Bytes} (plain : n.cipher = {})
    (big : maxMessage < data.length → ∀ e, E e) (next : R data (n.hashed crypto data)) :
    Meets E (cryptRead crypto data) n R := by
  have same : ({ n with cipher := {}, opened := n.opened ++ n.sealing data } : Noise) = n := by
    cases n
    simp_all [sealing]
  simp only [cryptRead, meets_bind, meets_get, Cipher.decrypt, plain]
  by_cases fits : data.length ≤ maxMessage
  · rw [check_ok rfl (by decide) fits]
    show R data (Noise.hashed crypto { n with cipher := {}, opened := _ } data)
    rwa [same]
  · obtain ⟨e, refused⟩ := check_big {} (Nat.lt_of_not_le fits)
    rw [refused]
    exact big (Nat.lt_of_not_le fits) e

theorem meets_cryptWrite {data : Bytes} (ready : n.Ready)
    (big : maxMessage < data.length + 16 → ∀ e, E e)
    (next : R (n.ciphertext crypto data) (n.wrote crypto (n.ciphertext crypto data))) :
    Meets E (cryptWrite crypto data) n R := by
  obtain ⟨key, keyed⟩ := Option.isSome_iff_exists.mp ready.keyed
  simp only [ciphertext, wrote, keyed, Option.getD_some] at next
  simp only [cryptWrite, meets_bind, meets_get, Cipher.encrypt, keyed, Option.isSome_some,
    if_true]
  by_cases fits : data.length + 16 ≤ maxMessage
  · rw [check_ok ready.unclosed ready.nonce_lt fits]
    show R _ (Noise.hashed crypto { n with cipher := _, sealed := _ } _)
    simpa [hashed, sealing, keyed] using next
  · obtain ⟨e, refused⟩ := check_big n.cipher (Nat.lt_of_not_le fits)
    rw [refused]
    exact big (Nat.lt_of_not_le fits) e

theorem meets_cryptRead {part : Bytes} (ready : n.Ready)
    (big : maxMessage < part.length → ∀ e, E e)
    (forged : crypto.decrypt (n.cipher.key.getD []) n.cipher.nonce n.h part = none → ∀ e, E e)
    (next : ∀ data, crypto.decrypt (n.cipher.key.getD []) n.cipher.nonce n.h part = some data →
      R data (n.took crypto part)) :
    Meets E (cryptRead crypto part) n R := by
  obtain ⟨key, keyed⟩ := Option.isSome_iff_exists.mp ready.keyed
  simp only [took, keyed, Option.getD_some] at forged next
  simp only [cryptRead, meets_bind, meets_get, Cipher.decrypt, keyed]
  by_cases fits : part.length ≤ maxMessage
  · rw [check_ok ready.unclosed ready.nonce_lt fits]
    cases found : crypto.decrypt key n.cipher.nonce n.h part with
    | none => exact forged found _
    | some data =>
      show R _ (Noise.hashed crypto { n with cipher := _, opened := _ } _)
      simpa [hashed, sealing, keyed] using next data found
  · obtain ⟨e, refused⟩ := check_big n.cipher (Nat.lt_of_not_le fits)
    rw [refused]
    exact big (Nat.lt_of_not_le fits) e

theorem meets_finish (first : n.step < 2) :
    Meets E (finish crypto) n Q ↔ Q ⟨⟩ { n with step := n.step + 1 } := by
  simp only [finish, meets_bind, meets_modify, meets_get, meets_when]
  have open_ : ¬ n.step + 1 = 3 := by omega
  simp [open_]

def finished (crypto : Crypto) (n : Noise) (rs : Bytes) : Noise :=
  erase { n with step := 3, transport := some (n.split crypto rs) }

theorem meets_finish_last {rs : Bytes} (last : n.step = 2) (known : n.rs = some rs) :
    Meets E (finish crypto) n Q ↔ Q ⟨⟩ (n.finished crypto rs) := by
  cases n
  simp only at last known
  subst last known
  exact Iff.rfl

/-! ### What a message does -/

/-- After the first message, written. -/
def firstWritten (crypto : Crypto) (n : Noise) (e payload : Bytes) : Noise :=
  { (n.hashed crypto e).hashed crypto payload with step := 1 }

def firstRead (crypto : Crypto) (n : Noise) (e payload : Bytes) : Noise :=
  { ({ n with re := some e }.hashed crypto e).hashed crypto payload with step := 1 }

/-- After the second message: both secrets of the ephemeral key are mixed in. -/
def secondWritten (crypto : Crypto) (n : Noise) (ee es e identity payload : Bytes) : Noise :=
  { ((((n.hashed crypto e).keyed crypto ee).wrote crypto identity).keyed crypto es).wrote crypto
      payload with step := 2 }

def identified (n : Noise) (rs : Bytes) : Noise := { n with rs := some rs }

def secondRead (crypto : Crypto) (n : Noise) (ee es rs e identity payload : Bytes) : Noise :=
  { ((((({ n with re := some e }.hashed crypto e).keyed crypto ee).took crypto
      identity).identified rs).keyed crypto es).took crypto payload with step := 2 }

def thirdWritten (crypto : Crypto) (n : Noise) (se rs identity payload : Bytes) : Noise :=
  (((n.wrote crypto identity).keyed crypto se).wrote crypto payload).finished crypto rs

def thirdRead (crypto : Crypto) (n : Noise) (se rs identity payload : Bytes) : Noise :=
  ((((n.took crypto identity).identified rs).keyed crypto se).took crypto payload).finished
    crypto rs

theorem meets_writeBody_first {payload : Bytes} (first : n.step = 0) (plain : n.cipher = {})
    (big : maxMessage < payload.length + 32 → ∀ e, E e)
    (next : R (n.e.publicKey ++ payload) (n.firstWritten crypto n.e.publicKey payload)) :
    Meets E (writeBody crypto payload) n R := by
  simp only [writeBody, writeParts, meets_bind, meets_get, meets_refuse, meets_ite,
    meets_mixHash, meets_pure]
  simp only [overhead, first, if_true]
  refine ⟨fun tooBig => big tooBig _, fun fits => ⟨fun _ => ?_, by simp⟩⟩
  refine meets_cryptWrite_plain plain ?_ ?_
  · intro tooBig
    exact absurd (show maxMessage < payload.length + 32 by omega) fits
  · rw [meets_finish (by show n.step < 2; omega)]
    simpa [firstWritten, hashed, first] using next

theorem meets_readBody_first {message : Bytes} (first : n.step = 0) (plain : n.cipher = {})
    (small : message.length < 32 → ∀ e, E e) (big : maxMessage < message.length → ∀ e, E e)
    (next : R (message.drop 32)
      (n.firstRead crypto (message.take 32) (message.drop 32))) :
    Meets E (readBody crypto message) n R := by
  simp only [readBody, readParts, meets_bind, meets_get, meets_refuse, meets_ite, meets_when,
    meets_modify, meets_mixHash, meets_pure]
  simp only [overhead, first, if_true]
  refine ⟨fun bad => bad.elim (small · _) (big · _), fun size => ⟨fun _ => ?_, by simp⟩⟩
  refine ⟨by simp, fun _ => ⟨by simp, fun _ => ?_⟩⟩
  refine meets_cryptRead_plain plain ?_ ?_
  · intro tooBig
    simp only [List.length_drop] at tooBig
    exact absurd (Or.inr (show maxMessage < message.length by omega)) size
  · rw [meets_finish (by show 0 < 2; decide)]
    simpa [firstRead, hashed, first] using next

theorem meets_writeBody_second {payload re : Bytes} (second : n.step = 1) (heard : n.re = some re)
    (short : n.s.publicKey.length = 32) (big : maxMessage < payload.length + 96 → ∀ e, E e)
    (alien : crypto.sharedSecret n.e.privateKey re = none ∨
      crypto.sharedSecret n.s.privateKey re = none → ∀ e, E e)
    (next : ∀ ee es identity output,
      crypto.sharedSecret n.e.privateKey re = some ee →
      crypto.sharedSecret n.s.privateKey re = some es →
      identity = ((n.hashed crypto n.e.publicKey).keyed crypto ee).ciphertext crypto
        n.s.publicKey →
      output = ((((n.hashed crypto n.e.publicKey).keyed crypto ee).wrote crypto
        identity).keyed crypto es).ciphertext crypto payload →
      R (n.e.publicKey ++ identity ++ output)
        (n.secondWritten crypto ee es n.e.publicKey identity output)) :
    Meets E (writeBody crypto payload) n R := by
  simp only [writeBody, writeParts, meets_bind, meets_get, meets_refuse, meets_ite,
    meets_mixHash, meets_pure]
  simp only [overhead, second, heard, if_true]
  refine ⟨fun tooBig => big tooBig _, fun fits => ⟨by simp, fun _ => ⟨fun _ => ?_, by simp⟩⟩⟩
  apply meets_mixKey (fun none => alien (Or.inl none))
  intro ee shared
  apply meets_cryptWrite ready_keyed
  · intro tooBig
    rw [short] at tooBig
    exact absurd tooBig (by decide)
  apply meets_mixKey (fun none => alien (Or.inr none))
  intro es shared'
  apply meets_cryptWrite ready_keyed
  · intro tooBig
    exact absurd (show maxMessage < payload.length + 96 by omega) fits
  rw [meets_finish (by show n.step < 2; omega)]
  simpa [secondWritten, second, hashed, keyed, wrote] using next ee es _ _ shared shared' rfl rfl

/-- What a part holds. -/
def plaintext (crypto : Crypto) (n : Noise) (part : Bytes) : Option Bytes :=
  crypto.decrypt (n.cipher.key.getD []) n.cipher.nonce n.h part

/-- A part holds the peer's identity, which the pin allows. -/
structure Identifies (crypto : Crypto) (n : Noise) (part rs shared : Bytes) : Prop where
  found : n.plaintext crypto part = some rs
  pinned : ∀ pinned, n.pinnedFingerprint = some pinned → fingerprint crypto rs = .ok pinned
  secret : crypto.sharedSecret n.e.privateKey rs = some shared

theorem Identifies.unique {part rs rs' shared shared' : Bytes}
    (holds : n.Identifies crypto part rs shared) (holds' : n.Identifies crypto part rs' shared') :
    rs = rs' ∧ shared = shared' := by
  have one : rs = rs' := Option.some.inj (holds.found.symm.trans holds'.found)
  subst one
  exact ⟨rfl, Option.some.inj (holds.secret.symm.trans holds'.secret)⟩

theorem meets_readIdentity {part : Bytes} (ready : n.Ready) (short : part.length ≤ 48)
    (refused : (¬ ∃ rs shared, n.Identifies crypto part rs shared) → ∀ e, E e)
    (next : ∀ rs shared, n.Identifies crypto part rs shared →
      Q ⟨⟩ (((n.took crypto part).identified rs).keyed crypto shared)) :
    Meets E (readIdentity crypto part) n Q := by
  -- The key is mixed in once the pin has been checked.
  have mixed {rs : Bytes} (found : n.plaintext crypto part = some rs)
      (allowed : ∀ pinned, n.pinnedFingerprint = some pinned →
        fingerprint crypto rs = .ok pinned) :
      Meets E (mixKey crypto n.e (some rs)) ((n.took crypto part).identified rs) Q := by
    apply meets_mixKey
    · intro none
      apply refused
      rintro ⟨rs', shared, holds⟩
      have one : rs = rs' := Option.some.inj (found.symm.trans holds.found)
      rw [← one] at holds
      exact absurd (none.symm.trans holds.secret) (by simp)
    · intro shared secret
      exact next rs shared ⟨found, allowed, secret⟩
  simp only [readIdentity, meets_bind, meets_modify, meets_get, meets_whenSome]
  apply meets_cryptRead ready
  · intro big
    exact absurd (Nat.lt_of_lt_of_le big short) (by decide)
  · intro forged
    apply refused
    rintro ⟨rs, shared, holds⟩
    exact absurd (forged.symm.trans holds.found) (by simp)
  intro rs found
  -- With another fingerprint than the pinned one there is no identity.
  have stranger {pinned : String} (pin : n.pinnedFingerprint = some pinned)
      (wrong : fingerprint crypto rs ≠ .ok pinned) (e : String) : E e := by
    apply refused
    rintro ⟨rs', shared, holds⟩
    have one : rs = rs' := Option.some.inj (found.symm.trans holds.found)
    rw [← one] at holds
    exact wrong (holds.pinned pinned pin)
  refine ⟨fun pinned pin => ?_, fun unpinned => ?_⟩
  · cases print : fingerprint crypto rs with
    | error e => exact stranger pin (by simp [print]) e
    | ok other =>
      simp only [meets_refuse]
      refine ⟨fun wrong => stranger pin (by simpa [print] using wrong) _, fun same => ?_⟩
      apply mixed found
      intro pinned' pin'
      have one : pinned = pinned' := Option.some.inj (pin.symm.trans pin')
      rw [print, ← one, Decidable.not_not.mp same]
  · apply mixed found
    intro pinned pin
    exact absurd (unpinned.symm.trans pin) (by simp)

/-- The initiator accepts the answer. -/
structure SecondAccepted (crypto : Crypto) (n : Noise) (message ee rs es payload : Bytes) :
    Prop where
  large : 96 ≤ message.length
  fits : message.length ≤ maxMessage
  secret : crypto.sharedSecret n.e.privateKey (message.take 32) = some ee
  identity : (({ n with re := some (message.take 32) }.hashed crypto (message.take 32)).keyed
    crypto ee).Identifies crypto ((message.drop 32).take 48) rs es
  found : ((((({ n with re := some (message.take 32) }.hashed crypto (message.take 32)).keyed
    crypto ee).took crypto ((message.drop 32).take 48)).identified rs).keyed crypto es).plaintext
    crypto (message.drop 80) = some payload

theorem SecondAccepted.unique {message ee rs es payload ee' rs' es' payload' : Bytes}
    (accepted : n.SecondAccepted crypto message ee rs es payload)
    (accepted' : n.SecondAccepted crypto message ee' rs' es' payload') :
    ee = ee' ∧ rs = rs' ∧ es = es' ∧ payload = payload' := by
  have one : ee = ee' := Option.some.inj (accepted.secret.symm.trans accepted'.secret)
  subst one
  obtain ⟨rfl, rfl⟩ := accepted.identity.unique accepted'.identity
  exact ⟨rfl, rfl, rfl, Option.some.inj (accepted.found.symm.trans accepted'.found)⟩

theorem meets_readBody_second {message : Bytes} (second : n.step = 1)
    (refused : (¬ ∃ ee rs es payload, n.SecondAccepted crypto message ee rs es payload) →
      ∀ e, E e)
    (next : ∀ ee rs es payload, n.SecondAccepted crypto message ee rs es payload →
      R payload (n.secondRead crypto ee es rs (message.take 32) ((message.drop 32).take 48)
        (message.drop 80))) :
    Meets E (readBody crypto message) n R := by
  have below : n.step < 2 := by omega
  have later : 0 < n.step := by omega
  have notFirst : ¬ n.step = 0 := by omega
  simp only [readBody, readParts, meets_bind, meets_get, meets_refuse, meets_ite, meets_when,
    meets_modify, meets_mixHash, meets_pure]
  simp only [overhead, eq_true below, eq_true later, eq_true second, eq_false notFirst, if_true,
    if_false, true_implies, not_true, false_implies, and_true]
  refine ⟨?_, fun size => ?_⟩
  · rintro (small | big) <;> apply refused <;> rintro ⟨_, _, _, _, accepted⟩
    · exact absurd accepted.large (Nat.not_le.mpr small)
    · exact absurd accepted.fits (Nat.not_le.mpr big)
  simp only [not_or, Nat.not_lt] at size
  apply meets_mixKey
  · intro alien
    apply refused
    rintro ⟨ee, _, _, _, accepted⟩
    exact absurd (alien.symm.trans accepted.secret) (by simp)
  intro ee secret
  apply meets_readIdentity ready_keyed (List.length_take_le ..)
  · intro unknown
    apply refused
    rintro ⟨ee', rs, es, _, accepted⟩
    have one : ee = ee' := Option.some.inj (secret.symm.trans accepted.secret)
    exact unknown ⟨rs, es, one ▸ accepted.identity⟩
  intro rs es identity
  refine meets_cryptRead ready_keyed ?_ ?_ ?_
  · intro big
    simp only [List.length_drop] at big
    omega
  · intro forged
    apply refused
    rintro ⟨ee', rs', es', payload, accepted⟩
    have one : ee = ee' := Option.some.inj (secret.symm.trans accepted.secret)
    subst one
    obtain ⟨rfl, rfl⟩ := identity.unique accepted.identity
    exact absurd (forged.symm.trans accepted.found) (by simp)
  · intro payload found
    rw [meets_finish (by exact below)]
    have last := next ee rs es payload ⟨size.1, size.2, secret, identity, found⟩
    simpa [secondRead, second, took, keyed, identified, hashed] using last

theorem meets_writeBody_third {payload re rs : Bytes} (third : n.step = 2) (heard : n.re = some re)
    (known : n.rs = some rs) (ready : n.Ready) (short : n.s.publicKey.length = 32)
    (big : maxMessage < payload.length + 64 → ∀ e, E e)
    (alien : crypto.sharedSecret n.s.privateKey re = none → ∀ e, E e)
    (next : ∀ se identity output,
      crypto.sharedSecret n.s.privateKey re = some se →
      identity = n.ciphertext crypto n.s.publicKey →
      output = ((n.wrote crypto identity).keyed crypto se).ciphertext crypto payload →
      R (identity ++ output) (n.thirdWritten crypto se rs identity output)) :
    Meets E (writeBody crypto payload) n R := by
  have notFirst : ¬ n.step = 0 := by omega
  have notSecond : ¬ n.step = 1 := by omega
  simp only [writeBody, writeParts, meets_bind, meets_get, meets_refuse, meets_ite,
    meets_mixHash, meets_pure]
  simp only [overhead, eq_false notFirst, eq_false notSecond, heard, if_false, false_implies,
    true_and, not_false_iff, true_implies]
  refine ⟨fun tooBig => big tooBig _, fun fits => ?_⟩
  apply meets_cryptWrite ready
  · intro tooBig
    rw [short] at tooBig
    exact absurd tooBig (by decide)
  apply meets_mixKey alien
  intro se secret
  apply meets_cryptWrite ready_keyed
  · intro tooBig
    exact absurd (show maxMessage < payload.length + 64 by omega) fits
  rw [meets_finish_last (by exact third) (by exact known)]
  exact next se _ _ secret rfl rfl

/-- The responder accepts the initiator's identity. -/
structure ThirdAccepted (crypto : Crypto) (n : Noise) (message rs se payload : Bytes) : Prop where
  large : 64 ≤ message.length
  fits : message.length ≤ maxMessage
  identity : n.Identifies crypto (message.take 48) rs se
  found : (((n.took crypto (message.take 48)).identified rs).keyed crypto se).plaintext crypto
    (message.drop 48) = some payload

theorem ThirdAccepted.unique {message rs se payload rs' se' payload' : Bytes}
    (accepted : n.ThirdAccepted crypto message rs se payload)
    (accepted' : n.ThirdAccepted crypto message rs' se' payload') :
    rs = rs' ∧ se = se' ∧ payload = payload' := by
  obtain ⟨rfl, rfl⟩ := accepted.identity.unique accepted'.identity
  exact ⟨rfl, rfl, Option.some.inj (accepted.found.symm.trans accepted'.found)⟩

theorem meets_readBody_third {message : Bytes} (third : n.step = 2) (ready : n.Ready)
    (refused : (¬ ∃ rs se payload, n.ThirdAccepted crypto message rs se payload) → ∀ e, E e)
    (next : ∀ rs se payload, n.ThirdAccepted crypto message rs se payload →
      R payload (n.thirdRead crypto se rs (message.take 48) (message.drop 48))) :
    Meets E (readBody crypto message) n R := by
  have notBelow : ¬ n.step < 2 := by omega
  have later : 0 < n.step := by omega
  have notFirst : ¬ n.step = 0 := by omega
  have notSecond : ¬ n.step = 1 := by omega
  simp only [readBody, readParts, meets_bind, meets_get, meets_refuse, meets_ite, meets_when,
    meets_modify, meets_mixHash, meets_pure]
  simp only [overhead, eq_false notBelow, eq_true later, eq_false notSecond, eq_false notFirst,
    if_false, true_implies, not_true, false_implies, and_true, true_and, not_false_iff,
    List.drop_zero, Nat.zero_add]
  refine ⟨?_, fun size => ?_⟩
  · rintro (small | big) <;> apply refused <;> rintro ⟨_, _, _, accepted⟩
    · exact absurd accepted.large (Nat.not_le.mpr small)
    · exact absurd accepted.fits (Nat.not_le.mpr big)
  simp only [not_or, Nat.not_lt] at size
  apply meets_readIdentity ready (List.length_take_le ..)
  · intro unknown
    apply refused
    rintro ⟨rs, se, _, accepted⟩
    exact unknown ⟨rs, se, accepted.identity⟩
  intro rs se identity
  refine meets_cryptRead ready_keyed ?_ ?_ ?_
  · intro big
    simp only [List.length_drop] at big
    omega
  · intro forged
    apply refused
    rintro ⟨rs', se', payload, accepted⟩
    obtain ⟨rfl, rfl⟩ := identity.unique accepted.identity
    exact absurd (forged.symm.trans accepted.found) (by simp)
  · intro payload found
    rw [meets_finish_last (by exact third) rfl]
    exact next rs se payload ⟨size.1, size.2, identity, found⟩

end Moves

end Noise

end Ace.SecureChannel
