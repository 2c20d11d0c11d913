import Ace.Properties.Handshake

/-!
# Transcripts of the Noise handshake

One side under any calls. `Party` records the messages that it wrote or accepted, and
`transcript` cuts them into the parts that are hashed. The hash of the side is the hash of its
transcript, and every call of its cipher stands at a place of it: the associated data is the
hash of the parts before that place, the ciphertext is the part there.
-/

namespace Ace.SecureChannel

open Script Script.Command Noise

variable {crypto : Crypto}

/-! ### Parties -/

inductive Action where
  | write (payload : Bytes)
  | read (message : Bytes)
  | destroy
  deriving DecidableEq, Repr

/-- A side and the messages that it wrote or accepted. -/
structure Party where
  noise : Noise
  messages : List Bytes
  deriving DecidableEq, Repr

namespace Party

/-- A message counts if the call that it belongs to has not failed. -/
def record (party : Party) (message : Bytes → Bytes) : Noise × Except String Bytes → Party
  | (noise, .ok output) => ⟨noise, party.messages ++ [message output]⟩
  | (noise, .error _) => ⟨noise, party.messages⟩

theorem record_noise (party : Party) (message : Bytes → Bytes)
    (result : Noise × Except String Bytes) : (party.record message result).noise = result.1 := by
  obtain ⟨noise, output⟩ := result
  cases output <;> rfl

def act (crypto : Crypto) (party : Party) : Action → Party
  | .write payload => party.record id (party.noise.writeMessage crypto payload)
  | .read message => party.record (fun _ => message) (party.noise.readMessage crypto message)
  | .destroy => ⟨party.noise.destroy, party.messages⟩

def start (crypto : Crypto) (options : HandshakeOptions) : Party := ⟨newNoise crypto options, []⟩

def run (crypto : Crypto) (party : Party) (actions : List Action) : Party :=
  actions.foldl (act crypto) party

end Party

/-! ### Transcripts -/

/-- The parts of a message, in the order in which they are hashed. -/
def parts (step : Nat) (message : Bytes) : List Bytes :=
  match step with
  | 0 => [message.take 32, message.drop 32]
  | 1 => [message.take 32, (message.drop 32).take 48, message.drop 80]
  | _ => [message.take 48, message.drop 48]

def partsFrom (step : Nat) : List Bytes → List Bytes
  | [] => []
  | message :: rest => parts step message ++ partsFrom (step + 1) rest

def transcript (prologue : Bytes) (messages : List Bytes) : List Bytes :=
  prologue :: partsFrom 0 messages

/-- The hash after data was mixed in. -/
def absorb (crypto : Crypto) (data : List Bytes) : Bytes :=
  data.foldl (fun h x => crypto.sha256 (h ++ x)) (initialHash crypto)

theorem absorb_append_one (data : List Bytes) (x : Bytes) :
    absorb crypto (data ++ [x]) = crypto.sha256 (absorb crypto data ++ x) := by
  simp [absorb]

theorem partsFrom_append (step : Nat) (messages : List Bytes) (message : Bytes) :
    partsFrom step (messages ++ [message]) =
      partsFrom step messages ++ parts (step + messages.length) message := by
  induction messages generalizing step with
  | nil => simp [partsFrom]
  | cons first rest ih =>
    simp only [List.cons_append, partsFrom, ih, List.append_assoc, List.length_cons]
    rw [Nat.add_right_comm, Nat.add_assoc]

theorem transcript_append (prologue : Bytes) (messages : List Bytes) (message : Bytes) :
    transcript prologue (messages ++ [message]) =
      transcript prologue messages ++ parts messages.length message := by
  simp [transcript, partsFrom_append]

/-! ### Calls of the cipher -/

/-- A call of the cipher belongs to a place of a transcript. -/
structure Sealing.Stands (crypto : Crypto) (sealing : Sealing) (data : List Bytes) (i : Nat) :
    Prop where
  ad : sealing.ad = absorb crypto (data.take i)
  ciphertext : data[i]? = some sealing.ciphertext

theorem Sealing.Stands.append {sealing : Sealing} {data : List Bytes} {i : Nat}
    (stands : sealing.Stands crypto data i) (more : List Bytes) :
    sealing.Stands crypto (data ++ more) i := by
  have below : i < data.length := (List.getElem?_eq_some_iff.mp stands.ciphertext).1
  constructor
  · rw [List.take_append_of_le_length (Nat.le_of_lt below)]
    exact stands.ad
  · rw [List.getElem?_append_left below]
    exact stands.ciphertext

theorem Sealing.stands_last {data : List Bytes} {h : Bytes} (h_eq : h = absorb crypto data)
    (key : Bytes) (nonce : Nat) (part : Bytes) :
    Sealing.Stands crypto ⟨key, nonce, h, part⟩ (data ++ [part]) data.length := by
  constructor
  · rw [List.take_left']
    · exact h_eq
    · rfl
  · simp

def opens (initiator : Bool) (i : Nat) : Prop := if initiator then i = 4 ∨ i = 5 else i = 6 ∨ i = 7

def seals (initiator : Bool) (i : Nat) : Prop := if initiator then i = 6 ∨ i = 7 else i = 4 ∨ i = 5

/-- The hash and the calls of a side are those of a transcript. -/
structure Follows (crypto : Crypto) (initiator : Bool) (data : List Bytes) (n : Noise) : Prop where
  h : n.h = absorb crypto data
  sealed : ∀ x ∈ n.sealed, ∃ i, seals initiator i ∧ x.Stands crypto data i
  opened : ∀ i < data.length, opens initiator i → ∃ x ∈ n.opened, x.Stands crypto data i

namespace Follows

variable {initiator : Bool} {data : List Bytes} {n : Noise}

theorem hashed (follows : Follows crypto initiator data n) (x : Bytes)
    (plain : ¬ opens initiator data.length) :
    Follows crypto initiator (data ++ [x]) (n.hashed crypto x) := by
  constructor
  · rw [absorb_append_one, ← follows.h]
    rfl
  · intro y member
    obtain ⟨i, seals, stands⟩ := follows.sealed y member
    exact ⟨i, seals, stands.append [x]⟩
  · intro i below place
    rcases Nat.lt_or_ge i data.length with old | new
    · obtain ⟨y, member, stands⟩ := follows.opened i old place
      exact ⟨y, member, stands.append [x]⟩
    · have last : i = data.length := by simp at below; omega
      exact absurd (last ▸ place) plain

theorem keyed (follows : Follows crypto initiator data n) (shared : Bytes) :
    Follows crypto initiator data (n.keyed crypto shared) :=
  ⟨follows.h, follows.sealed, follows.opened⟩

theorem wrote (follows : Follows crypto initiator data n) (x : Bytes)
    (place : seals initiator data.length) (plain : ¬ opens initiator data.length) :
    Follows crypto initiator (data ++ [x]) (n.wrote crypto x) := by
  obtain ⟨h, sealed, opened⟩ := follows.hashed x plain
  refine ⟨h, ?_, opened⟩
  intro y member
  rcases List.mem_append.mp member with old | new
  · exact sealed y old
  · rw [List.mem_singleton] at new
    rw [new]
    exact ⟨data.length, place, Sealing.stands_last follows.h ..⟩

theorem took (follows : Follows crypto initiator data n) (x : Bytes) :
    Follows crypto initiator (data ++ [x]) (n.took crypto x) := by
  constructor
  · rw [absorb_append_one, ← follows.h]
    rfl
  · intro y member
    obtain ⟨i, seals, stands⟩ := follows.sealed y member
    exact ⟨i, seals, stands.append [x]⟩
  · intro i below place
    rcases Nat.lt_or_ge i data.length with old | new
    · obtain ⟨y, member, stands⟩ := follows.opened i old place
      exact ⟨y, List.mem_append_left _ member, stands.append [x]⟩
    · have last : i = data.length := by simp at below; omega
      rw [last]
      exact ⟨_, List.mem_append_right _ (List.mem_singleton_self _),
        Sealing.stands_last follows.h ..⟩

theorem congr (follows : Follows crypto initiator data n) {n' : Noise} (h : n'.h = n.h)
    (sealed : n'.sealed = n.sealed) (opened : n'.opened = n.opened) :
    Follows crypto initiator data n' :=
  ⟨h.trans follows.h, sealed ▸ follows.sealed, opened ▸ follows.opened⟩

theorem heard (follows : Follows crypto initiator data n) (re : Bytes) :
    Follows crypto initiator data { n with re := some re } := follows.congr rfl rfl rfl

theorem identified (follows : Follows crypto initiator data n) (rs : Bytes) :
    Follows crypto initiator data (n.identified rs) := follows.congr rfl rfl rfl

/-! The six messages. -/

theorem firstWritten (follows : Follows crypto true data n) (place : data.length = 1)
    (e payload : Bytes) :
    Follows crypto true (data ++ [e, payload]) (n.firstWritten crypto e payload) := by
  have first := follows.hashed e (by simp [opens, place])
  have second := first.hashed payload (by simp [opens, place])
  rw [List.append_assoc] at second
  exact second.congr rfl rfl rfl

theorem firstRead (follows : Follows crypto false data n) (place : data.length = 1)
    (e payload : Bytes) :
    Follows crypto false (data ++ [e, payload]) (n.firstRead crypto e payload) := by
  have first := (follows.heard e).hashed e (by simp [opens, place])
  have second := first.hashed payload (by simp [opens, place])
  rw [List.append_assoc] at second
  exact second.congr rfl rfl rfl

theorem secondWritten (follows : Follows crypto false data n) (place : data.length = 3)
    (ee es e identity payload : Bytes) :
    Follows crypto false (data ++ [e, identity, payload])
      (n.secondWritten crypto ee es e identity payload) := by
  have first := follows.hashed e (by simp [opens, place])
  have second := (first.keyed ee).wrote identity (by simp [seals, place]) (by simp [opens, place])
  have third := (second.keyed es).wrote payload (by simp [seals, place]) (by simp [opens, place])
  simp only [List.append_assoc, List.cons_append, List.nil_append] at third
  exact third.congr rfl rfl rfl

theorem secondRead (follows : Follows crypto true data n) (place : data.length = 3)
    (ee es rs e identity payload : Bytes) :
    Follows crypto true (data ++ [e, identity, payload])
      (n.secondRead crypto ee es rs e identity payload) := by
  have first := (follows.heard e).hashed e (by simp [opens, place])
  have second := (first.keyed ee).took identity
  have third := ((second.identified rs).keyed es).took payload
  simp only [List.append_assoc, List.cons_append, List.nil_append] at third
  exact third.congr rfl rfl rfl

theorem thirdWritten (follows : Follows crypto true data n) (place : data.length = 6)
    (se rs identity payload : Bytes) :
    Follows crypto true (data ++ [identity, payload])
      (n.thirdWritten crypto se rs identity payload) := by
  have first := follows.wrote identity (by simp [seals, place]) (by simp [opens, place])
  have second := (first.keyed se).wrote payload (by simp [seals, place]) (by simp [opens, place])
  rw [List.append_assoc] at second
  exact second.congr rfl rfl rfl

theorem thirdRead (follows : Follows crypto false data n) (se rs identity payload : Bytes) :
    Follows crypto false (data ++ [identity, payload])
      (n.thirdRead crypto se rs identity payload) := by
  have first := follows.took identity
  have second := ((first.identified rs).keyed se).took payload
  rw [List.append_assoc] at second
  exact second.congr rfl rfl rfl

end Follows

/-! ### A side under any calls -/

/-- A side that has not failed, after so many messages. -/
structure Live (crypto : Crypto) (options : HandshakeOptions) (count : Nat) (n : Noise) :
    Prop where
  bound : count ≤ 3
  step_eq : n.step = count
  phase : count < 3 → Phase crypto options count n
  plain : count = 0 → n.cipher = {}
  heard : count = 1 → options.initiator = false → ∃ re, n.re = some re
  known : count = 2 → options.initiator = true → (∃ re, n.re = some re) ∧ ∃ rs, n.rs = some rs
  ready : count = 2 → n.Ready
  allowed : ∀ rs, n.rs = some rs → options.Allows crypto rs
  transport : ∀ transport, n.transport = some transport →
    count = 3 ∧ options.Allows crypto transport.remoteStatic

/-- The run of a side, whether it has failed or not. -/
structure Trace (crypto : Crypto) (options : HandshakeOptions) (party : Party) : Prop where
  follows : Follows crypto options.initiator (transcript options.prologue party.messages)
    party.noise
  live : party.noise.failed = false → Live crypto options party.messages.length party.noise

variable {options : HandshakeOptions}

theorem trace_start : Trace crypto options (Party.start crypto options) := by
  refine ⟨⟨rfl, by simp [Party.start, newNoise], ?_⟩, fun _ => ?_⟩
  · intro i below place
    simp only [Party.start, transcript, partsFrom, List.length_singleton] at below
    cases initiator : options.initiator <;> simp [opens, initiator] at place <;> omega
  · constructor <;> simp [Party.start, newNoise]
    exact phase_newNoise options

theorem parts_first {e : Bytes} (payload : Bytes) (short : e.length = 32) :
    parts 0 (e ++ payload) = [e, payload] := by
  simp [parts, ← short]

theorem parts_second {e identity : Bytes} (payload : Bytes) (short : e.length = 32)
    (long : identity.length = 48) : parts 1 (e ++ identity ++ payload) = [e, identity, payload] := by
  obtain ⟨part, part', part''⟩ := second_parts payload short long
  simp only [parts, part, part', part'']

theorem parts_third {identity : Bytes} (payload : Bytes) (long : identity.length = 48) :
    parts 2 (identity ++ payload) = [identity, payload] := by
  simp [parts, ← long]

variable {n : Noise} {messages : List Bytes}

theorem transcript_length (prologue : Bytes) (messages : List Bytes) (few : messages.length < 3) :
    (transcript prologue messages).length =
      if messages.length = 0 then 1 else if messages.length = 1 then 3 else 6 := by
  match messages with
  | [] => rfl
  | [_] => rfl
  | [_, _] => rfl
  | _ :: _ :: _ :: _ => simp only [List.length_cons] at few; omega

theorem secondWritten_rs {ee es e identity payload : Bytes} :
    (n.secondWritten crypto ee es e identity payload).rs = n.rs := by
  simp only [secondWritten, wrote, keyed, hashed]

theorem secondWritten_transport {ee es e identity payload : Bytes} :
    (n.secondWritten crypto ee es e identity payload).transport = n.transport := by
  simp only [secondWritten, wrote, keyed, hashed]

theorem secondRead_transport {ee es rs e identity payload : Bytes} :
    (n.secondRead crypto ee es rs e identity payload).transport = n.transport := by
  simp only [secondRead, took, identified, keyed, hashed]

theorem Live.no_transport {count : Nat} (live : Live crypto options count n) (early : count < 3)
    (transport : Transport) (there : n.transport = some transport) (p : Prop) : p := by
  have last := (live.transport transport there).1
  omega

theorem Live.firstWritten (live : Live crypto options 0 n) (role : options.initiator = true)
    (e payload : Bytes) : Live crypto options 1 (n.firstWritten crypto e payload) where
  bound := by decide
  step_eq := rfl
  phase _ := (((live.phase (by decide)).hashed e).hashed payload).advance 1
  plain := nofun
  heard _ other := absurd (role.symm.trans other) nofun
  known := nofun
  ready := nofun
  allowed := live.allowed
  transport transport there := live.no_transport (by decide) transport there _

theorem Live.firstRead (live : Live crypto options 0 n) (e payload : Bytes) :
    Live crypto options 1 (n.firstRead crypto e payload) where
  bound := by decide
  step_eq := rfl
  phase _ := ((((live.phase (by decide)).heard e).hashed e).hashed payload).advance 1
  plain := nofun
  heard _ _ := ⟨e, rfl⟩
  known := nofun
  ready := nofun
  allowed := live.allowed
  transport transport there := live.no_transport (by decide) transport there _

theorem Live.secondWritten (live : Live crypto options 1 n) (role : options.initiator = false)
    (ee es e identity payload : Bytes) :
    Live crypto options 2 (n.secondWritten crypto ee es e identity payload) where
  bound := by decide
  step_eq := rfl
  phase _ := (((((live.phase (by decide)).hashed e).keyed ee).wrote identity).keyed es).wrote
    payload |>.advance 2
  plain := nofun
  heard := nofun
  known _ other := absurd (role.symm.trans other) nofun
  ready _ := ready_wrote
  allowed rs found := live.allowed rs (secondWritten_rs.symm.trans found)
  transport transport there :=
    live.no_transport (by decide) transport (secondWritten_transport.symm.trans there) _

theorem Live.secondRead (live : Live crypto options 1 n) {rs : Bytes}
    (allows : options.Allows crypto rs) (ee es e identity payload : Bytes) :
    Live crypto options 2 (n.secondRead crypto ee es rs e identity payload) where
  bound := by decide
  step_eq := rfl
  phase _ := (((((((live.phase (by decide)).heard e).hashed e).keyed ee).took
    identity).identified rs).keyed es).took payload |>.advance 2
  plain := nofun
  heard := nofun
  known _ _ := ⟨⟨e, rfl⟩, rs, rfl⟩
  ready _ := ready_took
  allowed found same := Option.some.inj same ▸ allows
  transport transport there :=
    live.no_transport (by decide) transport (secondRead_transport.symm.trans there) _

theorem Live.thirdWritten (live : Live crypto options 2 n) {rs : Bytes} (known : n.rs = some rs)
    (se identity payload : Bytes) :
    Live crypto options 3 (n.thirdWritten crypto se rs identity payload) where
  bound := by decide
  step_eq := rfl
  phase := by simp
  plain := nofun
  heard := nofun
  known := nofun
  ready := nofun
  allowed := live.allowed
  transport transport there :=
    ⟨rfl, Option.some.inj there ▸ live.allowed rs known⟩

theorem Live.thirdRead {rs : Bytes} (allows : options.Allows crypto rs)
    (se identity payload : Bytes) :
    Live crypto options 3 (n.thirdRead crypto se rs identity payload) where
  bound := by decide
  step_eq := rfl
  phase := by simp
  plain := nofun
  heard := nofun
  known := nofun
  ready := nofun
  allowed found same := Option.some.inj same ▸ allows
  transport transport there := ⟨rfl, Option.some.inj there ▸ allows⟩

theorem Trace.turn (trace : Trace crypto options ⟨n, messages⟩) {writing : Bool}
    (allowed : n.check writing = .ok ()) :
    Live crypto options messages.length n ∧ messages.length < 3 ∧
      writing = (options.initiator == (messages.length != 1)) := by
  unfold check at allowed
  split at allowed
  next => cases allowed
  next open_ =>
    split at allowed
    next => cases allowed
    next turn =>
      simp only [not_or, Bool.not_eq_true] at open_
      have live := trace.live open_.1
      have step_eq : n.step = messages.length := live.step_eq
      have bound := live.bound
      have few : messages.length < 3 := by
        have := open_.2
        simp only at bound
        omega
      refine ⟨live, few, ?_⟩
      have phase := live.phase few
      rw [← phase.initiator, ← step_eq]
      simpa using turn

theorem Trace.write (sound : crypto.Sound) (valid : options.Valid)
    (trace : Trace crypto options ⟨n, messages⟩) (allowed : n.check true = .ok ())
    (payload : Bytes) :
    Meets (fun _ => True) (writeBody crypto payload) n fun message n' =>
      Trace crypto options ⟨n', messages ++ [message]⟩ := by
  obtain ⟨live, few, turn⟩ := trace.turn allowed
  have phase := live.phase few
  have long := transcript_length options.prologue messages few
  have e : n.e.publicKey.length = 32 := phase.e ▸ sound.short _ valid.ephemeralKey
  have s : n.s.publicKey.length = 32 := phase.s ▸ sound.short _ valid.staticKey
  have follows := trace.follows
  rcases (by omega : messages.length = 0 ∨ messages.length = 1 ∨ messages.length = 2) with
    count | count | count <;> rw [count] at live phase turn long
  · have role : options.initiator = true := by simpa using turn.symm
    rw [role] at follows
    apply meets_writeBody_first phase.step_eq (live.plain rfl) (by simp)
    constructor
    · rw [role, transcript_append, count, parts_first payload e]
      exact follows.firstWritten long _ _
    · intro _
      simp only [List.length_append, List.length_singleton, count]
      exact live.firstWritten role _ _
  · have role : options.initiator = false := by simpa using turn.symm
    rw [role] at follows
    obtain ⟨re, heard⟩ := live.heard rfl role
    apply meets_writeBody_second phase.step_eq heard s (by simp) (by simp)
    intro ee es identity output _ _ identity_eq _
    have tagged : identity.length = 48 := by rw [identity_eq, ciphertext, sound.tag, s]
    constructor
    · rw [role, transcript_append, count, parts_second output e tagged]
      exact follows.secondWritten long ..
    · intro _
      simp only [List.length_append, List.length_singleton, count]
      exact live.secondWritten role ..
  · have role : options.initiator = true := by simpa using turn.symm
    rw [role] at follows
    obtain ⟨⟨re, heard⟩, rs, known⟩ := live.known rfl role
    apply meets_writeBody_third phase.step_eq heard known (live.ready rfl) s (by simp) (by simp)
    intro se identity output _ identity_eq _
    have tagged : identity.length = 48 := by rw [identity_eq, ciphertext, sound.tag, s]
    constructor
    · rw [role, transcript_append, count, parts_third output tagged]
      exact follows.thirdWritten long ..
    · intro _
      simp only [List.length_append, List.length_singleton, count]
      exact live.thirdWritten known ..

theorem Trace.read (trace : Trace crypto options ⟨n, messages⟩)
    (allowed : n.check false = .ok ()) (message : Bytes) :
    Meets (fun _ => True) (readBody crypto message) n fun _ n' =>
      Trace crypto options ⟨n', messages ++ [message]⟩ := by
  obtain ⟨live, few, turn⟩ := trace.turn allowed
  have phase := live.phase few
  have long := transcript_length options.prologue messages few
  have follows := trace.follows
  rcases (by omega : messages.length = 0 ∨ messages.length = 1 ∨ messages.length = 2) with
    count | count | count <;> rw [count] at live phase turn long
  · have role : options.initiator = false := by simpa using turn.symm
    rw [role] at follows
    apply meets_readBody_first phase.step_eq (live.plain rfl) (by simp) (by simp)
    constructor
    · rw [role, transcript_append, count]
      exact follows.firstRead long _ _
    · intro _
      simp only [List.length_append, List.length_singleton, count]
      exact live.firstRead _ _
  · have role : options.initiator = true := by simpa using turn.symm
    rw [role] at follows
    apply meets_readBody_second phase.step_eq (by simp)
    intro ee rs es payload accepted
    have allows : options.Allows crypto rs := by
      intro pinned pin
      exact accepted.identity.pinned pinned (phase.pinned.trans pin)
    constructor
    · rw [role, transcript_append, count]
      exact follows.secondRead long ..
    · intro _
      simp only [List.length_append, List.length_singleton, count]
      exact live.secondRead allows ..
  · have role : options.initiator = false := by simpa using turn.symm
    rw [role] at follows
    apply meets_readBody_third phase.step_eq (live.ready rfl) (by simp)
    intro rs se payload accepted
    have allows : options.Allows crypto rs := by
      intro pinned pin
      exact accepted.identity.pinned pinned (phase.pinned.trans pin)
    constructor
    · rw [role, transcript_append, count]
      exact follows.thirdRead ..
    · intro _
      simp only [List.length_append, List.length_singleton, count]
      exact Live.thirdRead allows ..

theorem Trace.record {writing : Bool} {body : Command Noise String Bytes}
    {message : Bytes → Bytes} (trace : Trace crypto options ⟨n, messages⟩)
    (kept : n.check writing = .ok () → Meets (fun _ => True) body n fun output n' =>
      Trace crypto options ⟨n', messages ++ [message output]⟩) :
    Trace crypto options (Party.record ⟨n, messages⟩ message (attempt writing body n)) := by
  unfold attempt
  split
  next => exact trace
  next allowed =>
    have meets := kept allowed
    unfold Meets at meets
    split at meets
    next output n' run =>
      simp only [run]
      exact meets
    next e run =>
      simp only [run]
      exact ⟨trace.follows.congr rfl rfl rfl, nofun⟩

theorem Trace.act {party : Party} (sound : crypto.Sound) (valid : options.Valid)
    (trace : Trace crypto options party) (action : Action) :
    Trace crypto options (party.act crypto action) := by
  cases action with
  | write payload => exact trace.record fun allowed => trace.write sound valid allowed payload
  | read message => exact trace.record fun allowed => trace.read allowed message
  | destroy => exact ⟨trace.follows.congr rfl rfl rfl, nofun⟩

theorem trace_run (sound : crypto.Sound) (valid : options.Valid) (actions : List Action) :
    Trace crypto options ((Party.start crypto options).run crypto actions) := by
  have kept {party : Party} (trace : Trace crypto options party) :
      Trace crypto options (party.run crypto actions) := by
    induction actions generalizing party with
    | nil => exact trace
    | cons action rest ih => exact ih (trace.act sound valid action)
  exact kept trace_start

/-! ### Two sides -/

/-- No two prefixes of the two transcripts have the same hash. -/
def NoCollision (crypto : Crypto) (data data' : List Bytes) : Prop :=
  ∀ t ∈ [data, data'], ∀ t' ∈ [data, data'], ∀ i j,
    absorb crypto (t.take i) = absorb crypto (t'.take j) → t.take i = t'.take j

/-- Whatever one of two sides decrypted, one of them had encrypted: with that key and nonce,
for that associated data. -/
def Unforged (a b : Noise) : Prop :=
  ∀ x ∈ a.opened ++ b.opened, x ∈ a.sealed ++ b.sealed

theorem Sealing.Stands.unique {x : Sealing} {data data' : List Bytes} {i j : Nat}
    (stands : x.Stands crypto data i) (stands' : x.Stands crypto data' j)
    (inject : absorb crypto (data.take i) = absorb crypto (data'.take j) →
      data.take i = data'.take j) : i = j ∧ data.take (i + 1) = data'.take (i + 1) := by
  have same := inject (stands.ad.symm.trans stands'.ad)
  have below : i < data.length := (List.getElem?_eq_some_iff.mp stands.ciphertext).1
  have below' : j < data'.length := (List.getElem?_eq_some_iff.mp stands'.ciphertext).1
  have place : i = j := by
    have lengths := congrArg List.length same
    simp only [List.length_take] at lengths
    omega
  subst place
  refine ⟨rfl, ?_⟩
  rw [List.take_add_one, List.take_add_one, same, stands.ciphertext, stands'.ciphertext]

theorem Follows.agree {role : Bool} {data data' : List Bytes} {n n' : Noise} {i : Nat}
    (own : Follows crypto role data n) (other : Follows crypto (!role) data' n')
    (inject : NoCollision crypto data data')
    (unforged : ∀ x ∈ n.opened, x ∈ n.sealed ++ n'.sealed) (below : i < data.length)
    (place : opens role i) : data.take (i + 1) = data'.take (i + 1) := by
  obtain ⟨x, member, stands⟩ := own.opened i below place
  rcases List.mem_append.mp (unforged x member) with reflected | received
  · -- A side does not decrypt at the places at which it encrypts.
    obtain ⟨j, sealed, stands'⟩ := own.sealed x reflected
    obtain ⟨same, -⟩ := stands.unique stands' (inject _ (by simp) _ (by simp) i j)
    subst same
    cases role <;> simp only [opens, seals, if_true, Bool.false_eq_true, if_false] at place sealed
      <;> omega
  · obtain ⟨j, -, stands'⟩ := other.sealed x received
    exact (stands.unique stands' (inject _ (by simp) _ (by simp) i j)).2

theorem NoCollision.symm {data data' : List Bytes} (inject : NoCollision crypto data data') :
    NoCollision crypto data' data := by
  intro t member t' member'
  exact inject t (by simpa [or_comm] using member) t' (by simpa [or_comm] using member')

end Ace.SecureChannel
