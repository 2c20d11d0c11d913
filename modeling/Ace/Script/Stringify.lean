import Ace.Script.Text
import Ace.Script.Value

/-!
# Writing JSON

`JSON.stringify` of JSON data. How a number is written is a parameter; an undefined member is
left out.
-/

namespace Script.Value

/-- The digits of `\u00xx`. -/
def hexDigit (n : Nat) : Char := Char.ofNat (if n < 10 then 0x30 + n else 0x57 + n)

def quoteChar (c : Char) : List Char :=
  match c.toNat with
  | 0x22 => ['\\', '"']
  | 0x5C => ['\\', '\\']
  | 8 => ['\\', 'b']
  | 9 => ['\\', 't']
  | 10 => ['\\', 'n']
  | 12 => ['\\', 'f']
  | 13 => ['\\', 'r']
  | n => if n < 0x20 then ['\\', 'u', '0', '0', hexDigit (n / 16), hexDigit (n % 16)] else [c]

def quote (s : String) : List Char := '"' :: (s.toList.flatMap quoteChar ++ ['"'])

mutual
def stringify (numberText : ℚ → List Char) : Value → List Char
  | .bool b => (if b then "true" else "false").toList
  | .num q => numberText q
  | .str s => quote s
  | .arr elements => '[' :: (List.intercalate [','] (stringifyElements numberText elements) ++ [']'])
  | .obj fields => '{' :: (List.intercalate [','] (stringifyFields numberText fields) ++ ['}'])
  | _ => "null".toList

def stringifyElements (numberText : ℚ → List Char) : List Value → List (List Char)
  | [] => []
  | element :: rest => stringify numberText element :: stringifyElements numberText rest

def stringifyFields (numberText : ℚ → List Char) : List (String × Value) → List (List Char)
  | [] => []
  | (key, value) :: rest =>
    if value.isUndefined then stringifyFields numberText rest
    else (quote key ++ ':' :: stringify numberText value) :: stringifyFields numberText rest
end

/-- `Buffer.byteLength(JSON.stringify(value))` -/
def jsonBytes (numberText : ℚ → List Char) (value : Value) : Nat :=
  Text.byteLength (stringify numberText value)

end Script.Value
