import Ace.Script.Hex

/-!
# Ids in the order of time

`apps/daemon/src/time-ordered-id.ts`: UUIDs of version 7 whose first bits are a millisecond
timestamp and a counter. The clock and the random bytes are what every call reads.
-/

namespace Ace.TimeOrderedId

open Script
open Json (hexValue)
open Value (hexDigit)

/-- What a call reads: the clock, two random bytes if it needs them and eight for the end. -/
structure Reading where
  clock : ℚ
  seed : List UInt8
  tail : List UInt8

/-- What a generator keeps between calls. -/
structure Generator where
  lastMs : Int := -1
  counter : Nat := 0
  deriving DecidableEq

/-- `bytes[index] ?? 0` -/
def byteAt (bytes : List UInt8) (index : Nat) : Nat := ((bytes[index]?).map UInt8.toNat).getD 0

/-- The loop that fills in the timestamp, from byte `count - 1` to the first. -/
def timeBytes : Nat → Nat → List Nat → List Nat
  | 0, _, bytes => bytes
  | count + 1, rest, bytes => timeBytes count (rest / 256) (rest % 256 :: bytes)

/-- `Buffer.from(bytes).toString("hex")` -/
def hexOf (bytes : List Nat) : List Char :=
  bytes.flatMap fun b => [hexDigit (b / 16), hexDigit (b % 16)]

def slice (text : List Char) (start stop : Nat) : List Char := (text.take stop).drop start

/-- Lays out one UUIDv7 from its timestamp, its 12-bit counter and 8 random bytes. -/
def formatUuidV7 (ms : Int) (counter : Nat) (tail : List UInt8) : Except String String :=
  if 2 ^ 53 - 1 < ms.natAbs ∨ ms < 0 ∨ 2 ^ 48 ≤ ms then .error "Invalid timestamp"
  else
    let bytes :=
      timeBytes 6 ms.toNat [] ++
        [0x70 ||| ((counter >>> 8) &&& 0x0f), counter &&& 0xff,
          0x80 ||| (byteAt tail 0 &&& 0x3f)] ++
        (List.range 7).map fun index => byteAt tail (index + 1)
    let hex := hexOf bytes
    .ok (String.ofList
      (slice hex 0 8 ++ '-' :: slice hex 8 12 ++ '-' :: slice hex 12 16 ++
        '-' :: slice hex 16 20 ++ '-' :: hex.drop 20))

/-- The millisecond timestamp a UUIDv7 was made at, or `none` when `id` is not one. -/
def uuidV7Time (id : String) : Option Nat :=
  let hex := id.toList.filter (· ≠ '-')
  -- `/^[0-9a-f]{12}7[0-9a-f]{19}$/i`
  if hex.length = 32 ∧ hex.all (fun c => (hexValue c).isSome) ∧ hex[12]? = some '7' then
    some (Hex.parse (hex.take 12))
  else none

/-- What the generator keeps after a call. -/
def advance (g : Generator) (reading : Reading) : Generator :=
  if g.lastMs < ⌊reading.clock⌋ then
    -- A random start within the lower half leaves room to count up in the same millisecond.
    { lastMs := ⌊reading.clock⌋
      counter := ((byteAt reading.seed 0 <<< 8) ||| byteAt reading.seed 1) &&& 0x7ff }
  else if 0xfff < g.counter + 1 then { lastMs := g.lastMs + 1, counter := 0 }
  else { g with counter := g.counter + 1 }

/-- One call of what `timeOrderedIds` gives. -/
def next (g : Generator) (reading : Reading) : Except String String × Generator :=
  let g := advance g reading
  (formatUuidV7 g.lastMs g.counter reading.tail, g)

/-- The ids of calls in turn, or their errors, each with the generator after it. -/
def trace (g : Generator) : List Reading → List (Except String String × Generator)
  | [] => []
  | reading :: readings => next g reading :: trace (next g reading).2 readings

def after (g : Generator) (readings : List Reading) : Generator := readings.foldl advance g

end Ace.TimeOrderedId
