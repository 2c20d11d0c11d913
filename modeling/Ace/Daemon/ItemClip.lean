import Ace.Protocol.Schemas
import Ace.Script.Stringify

/-!
# Items cut to fit

An item that alone exceeds a page is shown with its long strings cut.
-/

namespace Ace.ItemClip

open Script

/-- Strings at most this long are never cut. -/
def floor : Nat := 256

/-- The characters of a text that lie within its first `cap` code units. -/
def within : Nat → List Char → List Char
  | _, [] => []
  | cap, c :: rest =>
    let units := if c.val < 0x10000 then 1 else 2
    if units ≤ cap then c :: within (cap - units) rest else []

def cut (text : String) (cap : Nat) : String :=
  let length := utf16Length text
  if length ≤ cap then text
  else
    let kept := String.ofList (within cap text.toList)
    kept ++ "… [" ++ toString (length - utf16Length kept) ++ " more characters not shown]"

mutual
def clipValue (cap : Nat) : Value → Value
  | .str text => .str (cut text cap)
  | .arr elements => .arr (clipElements cap elements)
  | .obj fields => .obj (clipFields cap fields)
  | value => value

def clipElements (cap : Nat) : List Value → List Value
  | [] => []
  | element :: rest => clipValue cap element :: clipElements cap rest

def clipFields (cap : Nat) : List (String × Value) → List (String × Value)
  | [] => []
  | (key, value) :: rest => (key, clipValue cap value) :: clipFields cap rest
end

mutual
def longest : Value → Nat
  | .str text => utf16Length text
  | .arr elements => longestElement elements
  | .obj fields => longestField fields
  | _ => 0

def longestElement : List Value → Nat
  | [] => 0
  | element :: rest => max (longest element) (longestElement rest)

def longestField : List (String × Value) → Nat
  | [] => 0
  | (_, value) :: rest => max (longest value) (longestField rest)
end

variable (numberText : ℚ → List Char)

/-- The largest cap from `low` to `high` whose clipped item fits; every round halves the rest. -/
def largestCap (item : Value) (maxBytes : Int) : Nat → Nat → Nat → Nat
  | 0, low, _ => low
  | fuel + 1, low, high =>
    if low < high then
      let middle := (low + high + 1) / 2
      if ((clipValue middle item).jsonBytes numberText : Int) ≤ maxBytes then
        largestCap item maxBytes fuel middle high
      else largestCap item maxBytes fuel low (middle - 1)
    else low

/-- The item with every long string cut to the longest length that fits `maxBytes` of JSON. -/
def clipItem (item : Value) (maxBytes : Int) : Option Value :=
  let high := longest item
  if high ≤ floor ∨ maxBytes < ((clipValue floor item).jsonBytes numberText : Int) then none
  else
    let low := largestCap numberText item maxBytes high floor high
    (Protocol.item (clipValue low item)).bind fun parsed =>
      if (parsed.jsonBytes numberText : Int) ≤ maxBytes then some parsed else none

end Ace.ItemClip
