import Ace.SecureChannel.FlowCredit
import Ace.SecureChannel.Noise

/-!
# The encrypted channel over a relay

`createChannel` of `apps/relay/src/channel.ts`. Messages are cut into fragments that are encrypted
one after another, and credits travel between them. An end sends what its peer's credit allows,
decrypts what arrives as it arrives, and its reader puts fragments together again.

What an end does is a list of actions, each as much as the source does between two waits. An
action that cannot happen is none.
-/

namespace Ace.SecureChannel

/-- The next key: the start of the encryption of zeros under the last nonce. -/
def Cipher.rekey (crypto : Crypto) (cipher : Cipher) : Except String Cipher := do
  cipher.check 0
  match cipher.key with
  | none => throw "No cipher key"
  | some key =>
    let next := crypto.encrypt key maxNonce [] (List.replicate 32 0)
    return { cipher with key := some (next.take 32) }

end Ace.SecureChannel

namespace Ace.Channel

open SecureChannel

def binaryMessageLimit : Nat := 64 * 1024 + 16

def logicalMessageLimit : Nat := 16 * 1024 * 1024

def rekeyInterval : Nat := 2 ^ 20

/-- Bytes of queued fragments past which an end stops reading a peer that it does not count. -/
def plainHighWater : Nat := 256 * 1024

/-- Smaller JSON messages gain too little to be worth a deflate. -/
def deflateThreshold : Nat := 1024

def chunkSize : Nat := maxMessage - 17

inductive FragmentKind where
  | json
  | binary
  | deflated
  deriving DecidableEq, Repr

def FragmentKind.flag : FragmentKind → Nat
  | .json => 0
  | .binary => 2
  | .deflated => 4

/-! ### What is sent and received -/

/-- The cipher, and `node:zlib`. An inflate past its limit throws. -/
structure Codec where
  crypto : Crypto
  deflateRaw : Bytes → Bytes
  inflateRaw : Nat → Bytes → Option Bytes

def encodeText (text : String) : Bytes := text.toByteArray.data.toList

/-- A fatal decoder, which takes a byte order mark at the start away. -/
def decodeText (bytes : Bytes) : Option String :=
  (String.fromUTF8? (ByteArray.mk bytes.toArray)).map fun text =>
    match text.toList with
    | c :: rest => if c.toNat = 0xFEFF then String.ofList rest else text
    | [] => text

/-- A JSON message deflated alone, or none when that would not make it smaller. -/
def deflateMessage (codec : Codec) (json : Bytes) : Option Bytes :=
  if json.length < deflateThreshold then none
  else
    let deflated := codec.deflateRaw json
    if deflated.length < json.length then some deflated else none

def inflateMessage (codec : Codec) (deflated : Bytes) : Option Bytes :=
  codec.inflateRaw logicalMessageLimit deflated

inductive Received where
  | text (text : String)
  | binary (bytes : Bytes)
  deriving DecidableEq

/-- `sendText` and `sendBinary`. `send` is `sendText` of the JSON of a parsed message, with what
`compressible` says of it. -/
inductive Call where
  | text (text : String) (compress : Bool)
  | binary (bytes : Bytes)
  deriving DecidableEq

/-- What the other end should receive. -/
def Call.content : Call → Received
  | .text json _ => .text json
  | .binary bytes => .binary bytes

/-- The data of a call and its kind, unless the call rejects it. -/
def Call.payload (codec : Codec) : Call → Option (Bytes × FragmentKind)
  | .text source compress =>
    let json := encodeText source
    match if compress then deflateMessage codec json else none with
    | none => some (json, .json)
    | some deflated => some (deflated, .deflated)
  | .binary bytes =>
    if bytes.length = 0 ∨ binaryMessageLimit < bytes.length then none else some (bytes, .binary)

/-! ### The reader -/

/-- The fragments of a message so far. -/
structure Partial where
  kind : Option Nat := none
  data : Bytes := []
  deriving DecidableEq

/-- A whole message: binary bytes, or its text. -/
def finish (codec : Codec) (kind : Nat) (data : Bytes) : Except String Received :=
  if kind = FragmentKind.binary.flag then .ok (.binary data)
  else
    let json := if kind = FragmentKind.deflated.flag then inflateMessage codec data else some data
    match json with
    | none => .error "Cannot create a Buffer larger than the limit"
    | some json =>
      match decodeText json with
      | none => .error "The encoded data was not valid"
      | some text => .ok (.text text)

/-- One turn of the loop of `receivePayload`: the message, if this was its last fragment. -/
def Partial.take (codec : Codec) (part : Partial) (plain : Bytes) :
    Except String (Partial × Option Received) :=
  match plain with
  | [] => .error "Invalid encrypted fragment"
  | flag :: chunk =>
    let flag := flag.toNat
    if plain.length < 2 ∨ 5 < flag ∨ (flag % 2 = 0 ∧ plain.length ≠ maxMessage - 16) then
      .error "Invalid encrypted fragment"
    else
      let kind := flag - flag % 2
      let data := part.data ++ chunk
      if part.kind ≠ none ∧ part.kind ≠ some kind then .error "Mixed fragment kinds"
      else if kind = FragmentKind.binary.flag ∧ binaryMessageLimit < data.length then
        .error "Binary message too large"
      else if logicalMessageLimit < data.length then .error "Logical message too large"
      else if flag % 2 = 1 then (finish codec kind data).map fun message => ({}, some message)
      else .ok ({ kind := some kind, data }, none)

/-! ### An end -/

/-- A message that was admitted, with how much of it is sent. -/
structure Task where
  data : Bytes
  kind : FragmentKind
  offset : Nat := 0
  deriving DecidableEq

/-- One end. `inbound` are the frames on their way to it or in its socket's reader; `admitted` the
calls that it did not reject; `received` what its `receiveRaw` gave so far. -/
structure End where
  flow : FlowCredit := {}
  tasks : List Task := []
  send : Cipher
  sendCount : Nat := 0
  receive : Cipher
  receiveCount : Nat := 0
  inbound : List Bytes := []
  waiting : Bool := false
  plainQueue : List Bytes := []
  reader : Partial := {}
  ended : Option String := none
  admitted : List Call := []
  received : List Received := []
  deriving DecidableEq

namespace End

def pendingBytes (e : End) : Nat := (e.tasks.map (·.data.length)).sum

def plainBytes (e : End) : Nat := (e.plainQueue.map List.length).sum

def endWith (e : End) (error : String) : End :=
  { e with ended := some error, send := e.send.destroy, receive := e.receive.destroy,
           inbound := [], plainQueue := [] }

/-- Encrypt the next outgoing fragment; rekeys right after the frame that reaches the interval. -/
def sealFragment (codec : Codec) (e : End) (plain : Bytes) : Except String (End × Bytes) := do
  let (frame, cipher) ← e.send.encrypt codec.crypto plain []
  let sendCount := e.sendCount + 1
  let cipher ← if sendCount % rekeyInterval = 0 then cipher.rekey codec.crypto else pure cipher
  return ({ e with send := cipher, sendCount }, frame)

/-- The other way around. -/
def openFrame (codec : Codec) (e : End) (frame : Bytes) : Except String (End × Bytes) := do
  let (plain, cipher) ← e.receive.decrypt codec.crypto frame []
  let receiveCount := e.receiveCount + 1
  let cipher ← if receiveCount % rekeyInterval = 0 then cipher.rekey codec.crypto else pure cipher
  return ({ e with receive := cipher, receiveCount }, plain)

/-- A credit goes out at once, ahead of data that waits for the peer's credit. -/
def sendCredit (codec : Codec) (e : End) (plain : Option Fragment) :
    Except String (End × List Bytes) :=
  match plain with
  | none => .ok (e, [])
  | some plain =>
    if e.ended.isSome then .ok (e, [])
    else (e.sealFragment codec (plain.map UInt8.ofNat)).map fun (e, frame) => (e, [frame])

/-- The pump waits for the reader. -/
def held (e : End) : Bool := e.ended.isNone && !e.flow.counting && plainHighWater ≤ e.plainBytes

end End

/-- What an end can do: admit a call, start its flow control, write the next fragment of what it
sends, let a call whose fragments are written go, let the pump wait or take the next frame, and
let the reader take the next fragment. -/
inductive Action where
  | submit (call : Call)
  | flowControl
  | transmit
  | settle
  | pause
  | pump
  | take
  deriving DecidableEq

namespace End

def submit (codec : Codec) (e : End) (call : Call) : Option (End × List Bytes) :=
  if e.ended.isSome then none
  else match call.payload codec with
    | none => none
    | some (data, kind) =>
      if logicalMessageLimit < data.length ∨ logicalMessageLimit < e.pendingBytes + data.length then
        none
      else some ({ e with tasks := e.tasks ++ [{ data, kind }], admitted := e.admitted ++ [call] },
        [])

/-- What throws here is the caller's; the cipher that threw is gone. -/
def flowControl (codec : Codec) (e : End) : Option (End × List Bytes) :=
  let (flow, start) := e.flow.start
  let e := { e with flow }
  match e.sendCredit codec start with
  | .ok sent => some sent
  | .error _ => some ({ e with send := e.send.destroy }, [])

def transmit (codec : Codec) (e : End) : Option (End × List Bytes) :=
  if e.ended.isSome then none
  else match e.tasks with
    | [] => none
    | task :: tasks =>
      if task.data.length ≤ task.offset then none
      else
        let chunk := (task.data.drop task.offset).take chunkSize
        let cost := fragmentCost (chunk.length + 1)
        if !e.flow.allows cost then none
        else
          let e := { e with flow := e.flow.spend cost }
          let last := if task.offset + chunk.length = task.data.length then 1 else 0
          match e.sealFragment codec (UInt8.ofNat (task.kind.flag + last) :: chunk) with
          | .ok (e, frame) =>
            some ({ e with tasks := { task with offset := task.offset + chunkSize } :: tasks },
              [frame])
          | .error error => some (e.endWith error, [])

def settle (e : End) : Option (End × List Bytes) :=
  if e.ended.isSome then none
  else match e.tasks with
    | [] => none
    | task :: tasks =>
      if task.data.length ≤ task.offset then some ({ e with tasks }, []) else none

def pause (e : End) : Option (End × List Bytes) :=
  if !e.waiting && e.held then some ({ e with waiting := true }, []) else none

/-- One turn of the loop that decrypts. -/
def pump (codec : Codec) (e : End) : Option (End × List Bytes) :=
  if e.ended.isSome || e.waiting || e.held then none
  else match e.inbound with
    | [] => none
    | frame :: inbound =>
      let e := { e with inbound }
      match e.openFrame codec frame with
      | .error error => some (e.endWith error, [])
      | .ok (e, plain) =>
        if plain.head? = some (UInt8.ofNat creditFlag) then
          match readCredit (plain.map UInt8.toNat) with
          | none => some (e.endWith "Invalid credit fragment", [])
          | some amount =>
            let (flow, reply) := e.flow.credited amount
            let e := { e with flow }
            match e.sendCredit codec reply with
            | .ok sent => some sent
            | .error error => some (e.endWith error, [])
        else
          let (flow, within) := e.flow.received (fragmentCost plain.length)
          let e := { e with flow }
          if within then some ({ e with plainQueue := e.plainQueue ++ [plain] }, [])
          else some (e.endWith "Peer overran its flow window", [])

/-- `nextPlain`, and what `receivePayload` does with the fragment. -/
def take (codec : Codec) (e : End) : Option (End × List Bytes) :=
  if e.ended.isSome then none
  else match e.plainQueue with
    | [] => none
    | plain :: plainQueue =>
      let e := { e with plainQueue }
      let e := if e.plainBytes < plainHighWater / 2 then { e with waiting := false } else e
      let (flow, credit) := e.flow.consumed (fragmentCost plain.length)
      let e := { e with flow }
      match e.sendCredit codec credit with
      | .error error => some (e.endWith error, [])
      | .ok (e, frames) =>
        match e.reader.take codec plain with
        | .error error => some (e.endWith error, frames)
        | .ok (reader, message) =>
          some ({ e with reader, received := e.received ++ message.toList }, frames)

/-- What an end does, and the frames that it writes. -/
def act (codec : Codec) (e : End) : Action → Option (End × List Bytes)
  | .submit call => e.submit codec call
  | .flowControl => e.flowControl codec
  | .transmit => e.transmit codec
  | .settle => e.settle
  | .pause => e.pause
  | .pump => e.pump codec
  | .take => e.take codec

end End

/-! ### Two ends -/

inductive Side where
  | left
  | right
  deriving DecidableEq, Repr

/-- Two ends whose transport delivers every frame in order. -/
structure Joint where
  left : End
  right : End
  deriving DecidableEq

namespace Joint

/-- The ciphers of a transport are crossed: one key for each direction. -/
def opened (out back : Bytes) : Joint where
  left := { send := { key := some out }, receive := { key := some back } }
  right := { send := { key := some back }, receive := { key := some out } }

def side (joint : Joint) : Side → End
  | .left => joint.left
  | .right => joint.right

/-- A side acts, and its frames are on their way to the other. -/
def step (codec : Codec) (joint : Joint) (side : Side) (action : Action) : Option Joint :=
  match side with
  | .left => (joint.left.act codec action).map fun (e, frames) =>
    { left := e, right := { joint.right with inbound := joint.right.inbound ++ frames } }
  | .right => (joint.right.act codec action).map fun (e, frames) =>
    { left := { joint.left with inbound := joint.left.inbound ++ frames }, right := e }

/-- An action that cannot happen does nothing. -/
def run (codec : Codec) (joint : Joint) (actions : List (Side × Action)) : Joint :=
  actions.foldl (fun joint action => (joint.step codec action.1 action.2).getD joint) joint

end Joint

end Ace.Channel
