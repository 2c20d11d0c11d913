import Ace.Script.Command
import Mathlib.Algebra.Group.Nat.Defs

/-!
# The Noise XX handshake

Two sides exchange three messages, `-> e`, `<- e, ee, s, es`, `-> s, se`, and derive one
cipher for each direction. Both roles run one state machine. The primitives are a library's:
a `Crypto` is any choice of them, and those that throw return nothing.
-/

namespace Ace.SecureChannel

open Script Script.Command

abbrev Bytes := List UInt8

/-- `x25519`, `sha256`, `hkdf` of 64 bytes and `chacha20poly1305`. -/
structure Crypto where
  publicKey : Bytes → Bytes
  sharedSecret : Bytes → Bytes → Option Bytes
  sha256 : Bytes → Bytes
  /-- Input key material and salt. -/
  hkdf : Bytes → Bytes → Bytes
  /-- Key, nonce, associated data and plaintext. -/
  encrypt : Bytes → Nat → Bytes → Bytes → Bytes
  /-- Key, nonce, associated data and ciphertext. -/
  decrypt : Bytes → Nat → Bytes → Bytes → Option Bytes

def derive (crypto : Crypto) (ck input : Bytes) : Bytes × Bytes :=
  let result := crypto.hkdf input ck
  (result.take 32, result.drop 32)

structure KeyPair where
  privateKey : Bytes
  publicKey : Bytes
  deriving DecidableEq, Repr

def keyPair (crypto : Crypto) (privateKey : Bytes) : KeyPair where
  privateKey
  publicKey := crypto.publicKey privateKey

/-! ### Fingerprints -/

def alphabet : List Char := "ABCDEFGHIJKLMNOPQRSTUVWXYZ234567".toList

/-- The digits of `bits` pending bits, five at a time; the bits that stay. -/
def base32Digits (value : UInt32) : Nat → Nat → List Char × Nat
  | 0, bits => ([], bits)
  | fuel + 1, bits =>
    if bits < 5 then ([], bits)
    else
      let digit := ((value >>> (bits - 5).toUInt32) &&& 31).toNat
      let (digits, left) := base32Digits value fuel (bits - 5)
      (alphabet.getD digit 'A' :: digits, left)

def base32 : List UInt8 → UInt32 → Nat → List Char
  | [], value, bits =>
    if bits = 0 then []
    else [alphabet.getD ((value <<< (5 - bits).toUInt32) &&& 31).toNat 'A']
  | byte :: rest, value, bits =>
    let value := (value <<< 8) ||| byte.toUInt32
    let (digits, left) := base32Digits value (bits + 8) (bits + 8)
    digits ++ base32 rest value left

/-- Of a key that is not 32 bytes long there is none. -/
def fingerprint (crypto : Crypto) (publicKey : Bytes) : Except String String :=
  if publicKey.length ≠ 32 then .error "Invalid static public key"
  else .ok (String.ofList (base32 (crypto.sha256 publicKey) 0 0))

/-! ### Ciphers -/

def maxMessage : Nat := 65535

def maxNonce : Nat := 2 ^ 64 - 1

structure Cipher where
  key : Option Bytes := none
  nonce : Nat := 0
  closed : Bool := false
  deriving DecidableEq, Repr

namespace Cipher

def check (cipher : Cipher) (length : Nat) : Except String Unit :=
  if cipher.closed ∨ maxNonce ≤ cipher.nonce then .error "Cipher exhausted or closed"
  else if maxMessage < length then .error "Noise message too large"
  else .ok ()

def encrypt (crypto : Crypto) (cipher : Cipher) (plaintext ad : Bytes) :
    Except String (Bytes × Cipher) := do
  cipher.check (plaintext.length + if cipher.key.isSome then 16 else 0)
  match cipher.key with
  | none => return (plaintext, cipher)
  | some key =>
    return (crypto.encrypt key cipher.nonce ad plaintext, { cipher with nonce := cipher.nonce + 1 })

def decrypt (crypto : Crypto) (cipher : Cipher) (ciphertext ad : Bytes) :
    Except String (Bytes × Cipher) := do
  cipher.check ciphertext.length
  match cipher.key with
  | none => return (ciphertext, cipher)
  | some key =>
    match crypto.decrypt key cipher.nonce ad ciphertext with
    | none => throw "invalid tag"
    | some plaintext => return (plaintext, { cipher with nonce := cipher.nonce + 1 })

def destroy (cipher : Cipher) : Cipher := { cipher with key := none, closed := true }

end Cipher

/-! ### The state machine -/

structure Transport where
  send : Cipher
  receive : Cipher
  handshakeHash : Bytes
  remoteStatic : Bytes
  deriving DecidableEq, Repr

def Transport.destroy (transport : Transport) : Transport :=
  { transport with send := transport.send.destroy, receive := transport.receive.destroy }

/-- One call of the cipher: the ciphertext of some plaintext. -/
structure Sealing where
  key : Bytes
  nonce : Nat
  ad : Bytes
  ciphertext : Bytes
  deriving DecidableEq, Repr

structure Noise where
  initiator : Bool
  pinnedFingerprint : Option String
  s : KeyPair
  e : KeyPair
  rs : Option Bytes := none
  re : Option Bytes := none
  h : Bytes
  ck : Bytes
  cipher : Cipher := {}
  step : Nat := 0
  failed : Bool := false
  transport : Option Transport := none
  /-- What was encrypted and what was decrypted so far. The code keeps no such record. -/
  sealed : List Sealing := []
  opened : List Sealing := []
  deriving DecidableEq, Repr

/-- The protocol's name, all of it one-byte characters, hashed or filled up to 32 bytes. -/
def initialHash (crypto : Crypto) : Bytes :=
  let name := "Noise_XX_25519_ChaChaPoly_SHA256".toList.map fun c => c.toNat.toUInt8
  if 32 < name.length then crypto.sha256 name
  else name ++ List.replicate (32 - name.length) 0

structure HandshakeOptions where
  initiator : Bool
  /-- The private static and ephemeral keys. -/
  staticKey : Bytes
  ephemeralKey : Bytes
  prologue : Bytes := []
  pinnedFingerprint : Option String := none
  deriving DecidableEq, Repr

def newNoise (crypto : Crypto) (options : HandshakeOptions) : Noise where
  initiator := options.initiator
  pinnedFingerprint := options.pinnedFingerprint
  s := keyPair crypto options.staticKey
  e := keyPair crypto options.ephemeralKey
  h := crypto.sha256 (initialHash crypto ++ options.prologue)
  ck := initialHash crypto

namespace Noise

variable (crypto : Crypto)

def hashed (n : Noise) (data : Bytes) : Noise := { n with h := crypto.sha256 (n.h ++ data) }

def keyed (n : Noise) (shared : Bytes) : Noise :=
  { n with
    ck := (derive crypto n.ck shared).1
    cipher := { key := some (derive crypto n.ck shared).2 } }

def mixHash (data : Bytes) : Command Noise String PUnit := modify fun n => n.hashed crypto data

def mixKey (own : KeyPair) (remote : Option Bytes) : Command Noise String PUnit := do
  match remote with
  | none => throw "Missing remote key"
  | some remote =>
    match crypto.sharedSecret own.privateKey remote with
    | none => throw "invalid private or public key received"
    | some shared => modify fun n => n.keyed crypto shared

/-- The call of the cipher that a ciphertext comes from, if there is a key. -/
def sealing (n : Noise) (ciphertext : Bytes) : List Sealing :=
  (n.cipher.key.map fun key => { key, nonce := n.cipher.nonce, ad := n.h, ciphertext }).toList

/-- `#crypt(data, true)`. -/
def cryptWrite (data : Bytes) : Command Noise String Bytes := do
  let n ← get
  match n.cipher.encrypt crypto data n.h with
  | .error e => throw e
  | .ok (output, cipher) =>
    set { n with cipher, sealed := n.sealed ++ n.sealing output }
    mixHash crypto output
    return output

/-- `#crypt(data, false)`. -/
def cryptRead (data : Bytes) : Command Noise String Bytes := do
  let n ← get
  match n.cipher.decrypt crypto data n.h with
  | .error e => throw e
  | .ok (output, cipher) =>
    set { n with cipher, opened := n.opened ++ n.sealing data }
    mixHash crypto data
    return output

def check (n : Noise) (writing : Bool) : Except String Unit :=
  if n.failed ∨ n.step = 3 then .error "Handshake closed"
  else if writing ≠ (n.initiator == (n.step != 1)) then .error "Wrong handshake turn"
  else .ok ()

/-- The secrets are overwritten. -/
def erase (n : Noise) : Noise :=
  { n with
    s := { n.s with privateKey := n.s.privateKey.map fun _ => 0 }
    e := { n.e with privateKey := n.e.privateKey.map fun _ => 0 }
    ck := n.ck.map fun _ => 0
    cipher := n.cipher.destroy }

/-- The ciphers of the two directions. -/
def split (n : Noise) (rs : Bytes) : Transport :=
  let (k₁, k₂) := derive crypto n.ck []
  { send := { key := some (if n.initiator then k₁ else k₂) }
    receive := { key := some (if n.initiator then k₂ else k₁) }
    handshakeHash := n.h
    remoteStatic := rs }

def finish : Command Noise String PUnit := do
  modify fun n => { n with step := n.step + 1 }
  let n ← get
  when (n.step = 3) do
    match n.rs with
    | none => throw "Missing remote identity"
    | some rs => modify fun n => erase { n with transport := some (n.split crypto rs) }

def destroy (n : Noise) : Noise :=
  { n.erase with failed := true, transport := n.transport.map Transport.destroy }

/-- The bytes that a message has beside its payload. -/
def overhead (step : Nat) : Nat := if step = 0 then 32 else if step = 1 then 96 else 64

/-- The parts of a message that come before its payload, as they are written. -/
def writeParts : Command Noise String Bytes := do
  let n ← get
  if n.step = 0 then do
    mixHash crypto n.e.publicKey
    return n.e.publicKey
  else if n.step = 1 then do
    mixHash crypto n.e.publicKey
    mixKey crypto n.e n.re
    let identity ← cryptWrite crypto n.s.publicKey
    mixKey crypto n.s n.re
    return n.e.publicKey ++ identity
  else do
    let identity ← cryptWrite crypto n.s.publicKey
    mixKey crypto n.s n.re
    return identity

/-- The body of `writeMessage`'s `try`. -/
def writeBody (payload : Bytes) : Command Noise String Bytes := do
  let n ← get
  refuse (maxMessage < payload.length + overhead n.step) "Noise message too large"
  let parts ← writeParts crypto
  let output ← cryptWrite crypto payload
  finish crypto
  return parts ++ output

/-- The peer's identity, checked against the pin. -/
def readIdentity (part : Bytes) : Command Noise String PUnit := do
  let rs ← cryptRead crypto part
  modify fun n => { n with rs := some rs }
  let n ← get
  whenSome n.pinnedFingerprint fun pinned => do
    match fingerprint crypto rs with
    | .error e => throw e
    | .ok found => refuse (found ≠ pinned) "Pinned fingerprint mismatch"
  mixKey crypto n.e (some rs)

/-- The parts before the payload, as they are read; the offset of the payload. -/
def readParts (message : Bytes) : Command Noise String Nat := do
  let n ← get
  when (n.step < 2) do
    modify fun n => { n with re := some (message.take 32) }
    mixHash crypto (message.take 32)
  let offset := if n.step < 2 then 32 else 0
  when (n.step = 1) (mixKey crypto n.e (some (message.take 32)))
  if 0 < n.step then do
    readIdentity crypto ((message.drop offset).take 48)
    return offset + 48
  else return offset

/-- The body of `readMessage`'s `try`. -/
def readBody (message : Bytes) : Command Noise String Bytes := do
  let n ← get
  refuse (message.length < overhead n.step ∨ maxMessage < message.length)
    "Invalid Noise message size"
  let offset ← readParts crypto message
  let payload ← cryptRead crypto (message.drop offset)
  finish crypto
  return payload

/-- A guard, and a body whose failure destroys the handshake. The state after it and what it
returned. -/
def attempt (writing : Bool) (body : Command Noise String Bytes) (n : Noise) :
    Noise × Except String Bytes :=
  match n.check writing with
  | .error e => (n, .error e)
  | .ok _ =>
    match body n with
    | .ok (output, n') => (n', .ok output)
    | .error e => (n.destroy, .error e)

def writeMessage (payload : Bytes) : Noise → Noise × Except String Bytes :=
  attempt true (writeBody crypto payload)

def readMessage (message : Bytes) : Noise → Noise × Except String Bytes :=
  attempt false (readBody crypto message)

def getTransport (n : Noise) : Except String Transport :=
  match n.transport with
  | some transport => if n.failed then .error "Handshake incomplete" else .ok transport
  | none => .error "Handshake incomplete"

end Noise

end Ace.SecureChannel
