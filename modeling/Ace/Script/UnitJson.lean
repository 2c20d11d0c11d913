import Ace.Script.Utf16
import Mathlib.Algebra.Order.Field.Rat
import Mathlib.Data.Int.Log
import Mathlib.Data.Rat.Floor

/-!
# JSON over code units

`JSON.parse` and `JSON.stringify` on texts whose code units matter. A number is the text of
its token; what a program can tell about it is its double, `UnitJson.double`. The text is read by
recursive descent with fuel: a value consumes at least one code unit, so the length of the
text is fuel enough.
-/

namespace Script

inductive UnitJson where
  | null
  | bool (b : Bool)
  | num (token : CodeUnits)
  | str (text : CodeUnits)
  | arr (elements : List UnitJson)
  | obj (members : List (CodeUnits × UnitJson))

namespace UnitJson

instance : Inhabited UnitJson := ⟨null⟩

/-! ### Reading -/

def isSpace (u : Nat) : Bool := u == 0x20 || u == 9 || u == 10 || u == 13

def skipSpace (text : CodeUnits) : CodeUnits := text.dropWhile isSpace

def isDigit (u : Nat) : Bool := between '0' '9' u

def digitsValue (digits : CodeUnits) : Nat := digits.foldl (fun n u => n * 10 + (u - '0'.toNat)) 0

def hexValue (u : Nat) : Option Nat :=
  if isDigit u then some (u - '0'.toNat)
  else if between 'a' 'f' u then some (u - 'a'.toNat + 10)
  else if between 'A' 'F' u then some (u - 'A'.toNat + 10)
  else none

/-- The code unit of an escape, after its backslash. -/
def readEscape : CodeUnits → Option (Nat × CodeUnits)
  | [] => none
  | u :: rest =>
    if u = '"'.toNat ∨ u = '\\'.toNat ∨ u = '/'.toNat then some (u, rest)
    else if u = 'b'.toNat then some (8, rest)
    else if u = 'f'.toNat then some (12, rest)
    else if u = 'n'.toNat then some (10, rest)
    else if u = 'r'.toNat then some (13, rest)
    else if u = 't'.toNat then some (9, rest)
    else if u = 'u'.toNat then
      match rest with
      | a :: b :: c :: d :: rest => do
        let value := ((← hexValue a) * 16 + (← hexValue b)) * 16 + (← hexValue c)
        return (value * 16 + (← hexValue d), rest)
      | _ => none
    else none

/-- The text of a string, after its opening quote. -/
def readString : Nat → CodeUnits → CodeUnits → Option (CodeUnits × CodeUnits)
  | 0, _, _ => none
  | _ + 1, _, [] => none
  | fuel + 1, read, u :: rest =>
    if u = '"'.toNat then some (read.reverse, rest)
    else if u = '\\'.toNat then
      match readEscape rest with
      | some (v, rest) => readString fuel (v :: read) rest
      | none => none
    else if u < 0x20 then none
    else readString fuel (u :: read) rest

/-- The digits in front of a text and what follows them. -/
def readDigits (text : CodeUnits) : CodeUnits × CodeUnits := text.span isDigit

/-- A fraction, `some ([], text)` when there is none. -/
def readFraction (text : CodeUnits) : Option (CodeUnits × CodeUnits) :=
  match text with
  | [] => some ([], [])
  | u :: rest =>
    if u = '.'.toNat then
      let (digits, after) := readDigits rest
      if digits.isEmpty then none else some (u :: digits, after)
    else some ([], u :: rest)

def readExponent (text : CodeUnits) : Option (CodeUnits × CodeUnits) :=
  match text with
  | [] => some ([], [])
  | u :: rest =>
    if u = 'e'.toNat ∨ u = 'E'.toNat then
      let (sign, rest) := match rest with
        | s :: rest => if s = '+'.toNat ∨ s = '-'.toNat then ([s], rest) else ([], s :: rest)
        | [] => ([], [])
      let (digits, after) := readDigits rest
      if digits.isEmpty then none else some (u :: (sign ++ digits), after)
    else some ([], u :: rest)

/-- The token of a number. -/
def readNumber (text : CodeUnits) : Option (CodeUnits × CodeUnits) := do
  let (sign, text) := match text with
    | u :: rest => if u = '-'.toNat then ([u], rest) else ([], u :: rest)
    | [] => ([], [])
  let (digits, text) := readDigits text
  if digits.isEmpty ∨ (digits.head? = some '0'.toNat ∧ digits.length ≠ 1) then none
  else
    let (fraction, text) ← readFraction text
    let (exponent, text) ← readExponent text
    return (sign ++ digits ++ fraction ++ exponent, text)

def readWord (word : String) (value : UnitJson) (text : CodeUnits) : Option (UnitJson × CodeUnits) :=
  if (units word).isPrefixOf text then some (value, text.drop (units word).length) else none

/-- The number of an array index, which an object enumerates before its other keys. -/
def indexKey (key : CodeUnits) : Option Nat :=
  if key.isEmpty || !key.all isDigit || (key.head? == some '0'.toNat && key.length != 1) then none
  else if digitsValue key < 4294967295 then some (digitsValue key) else none

/-- A later member of one key takes the place of the earlier. -/
def putMember (key : CodeUnits) (value : UnitJson) : List (CodeUnits × UnitJson) → List (CodeUnits × UnitJson)
  | [] => [(key, value)]
  | m :: ms => if m.1 = key then (key, value) :: ms else m :: putMember key value ms

/-- The members of an object in enumeration order. -/
def enumerate (members : List (CodeUnits × UnitJson)) : List (CodeUnits × UnitJson) :=
  (members.filter fun m => (indexKey m.1).isSome).mergeSort
      (fun a b => (indexKey a.1).getD 0 ≤ (indexKey b.1).getD 0) ++
    members.filter fun m => (indexKey m.1).isNone

mutual
def readValue : Nat → CodeUnits → Option (UnitJson × CodeUnits)
  | 0, _ => none
  | fuel + 1, text =>
    match skipSpace text with
    | [] => none
    | u :: rest =>
      if u = '\x7b'.toNat then
        match skipSpace rest with
        | v :: after => if v = '\x7d'.toNat then some (obj [], after) else readMembers fuel [] rest
        | [] => none
      else if u = '['.toNat then
        match skipSpace rest with
        | v :: after => if v = ']'.toNat then some (arr [], after) else readElements fuel [] rest
        | [] => none
      else if u = '"'.toNat then
        (readString (rest.length + 1) [] rest).map fun (text, after) => (str text, after)
      else if u = 't'.toNat then readWord "true" (bool true) (u :: rest)
      else if u = 'f'.toNat then readWord "false" (bool false) (u :: rest)
      else if u = 'n'.toNat then readWord "null" null (u :: rest)
      else (readNumber (u :: rest)).map fun (token, after) => (num token, after)

/-- The members of an object, after its brace or a comma. -/
def readMembers : Nat → List (CodeUnits × UnitJson) → CodeUnits → Option (UnitJson × CodeUnits)
  | 0, _, _ => none
  | fuel + 1, read, text =>
    match skipSpace text with
    | [] => none
    | u :: rest =>
      if u = '"'.toNat then
        match readString (rest.length + 1) [] rest with
        | none => none
        | some (key, rest) =>
          match skipSpace rest with
          | [] => none
          | colon :: rest =>
            if colon = ':'.toNat then
              match readValue fuel rest with
              | none => none
              | some (value, rest) =>
                match skipSpace rest with
                | [] => none
                | v :: rest =>
                  if v = ','.toNat then readMembers fuel (putMember key value read) rest
                  else if v = '\x7d'.toNat then
                    some (obj (enumerate (putMember key value read)), rest)
                  else none
            else none
      else none

/-- The elements of an array, after its bracket or a comma. -/
def readElements : Nat → List UnitJson → CodeUnits → Option (UnitJson × CodeUnits)
  | 0, _, _ => none
  | fuel + 1, read, text =>
    match readValue fuel text with
    | none => none
    | some (value, rest) =>
      match skipSpace rest with
      | [] => none
      | v :: rest =>
        if v = ','.toNat then readElements fuel (value :: read) rest
        else if v = ']'.toNat then some (arr (value :: read).reverse, rest)
        else none
end

/-- `JSON.parse(text)`, `none` when it throws. -/
def parse (text : CodeUnits) : Option UnitJson :=
  match readValue (2 * text.length + 1) text with
  | some (value, rest) => if (skipSpace rest).isEmpty then some value else none
  | none => none

/-! ### Writing -/

def hexDigit (n : Nat) : Nat := if n < 10 then '0'.toNat + n else 'a'.toNat + (n - 10)

def unicodeEscape (u : Nat) : CodeUnits :=
  units "\\u" ++ [hexDigit (u / 4096 % 16), hexDigit (u / 256 % 16), hexDigit (u / 16 % 16),
    hexDigit (u % 16)]

def escapeUnit (u : Nat) : CodeUnits :=
  if u = '"'.toNat then units "\\\""
  else if u = '\\'.toNat then units "\\\\"
  else if u = 8 then units "\\b"
  else if u = 9 then units "\\t"
  else if u = 10 then units "\\n"
  else if u = 12 then units "\\f"
  else if u = 13 then units "\\r"
  else if u < 0x20 then unicodeEscape u
  else [u]

/-- The text of a string between its quotes: a lone surrogate is escaped. -/
def escapeText : CodeUnits → CodeUnits
  | [] => []
  | [u] => if isHighSurrogate u || isLowSurrogate u then unicodeEscape u else escapeUnit u
  | u :: v :: rest =>
    if isHighSurrogate u then
      if isLowSurrogate v then u :: v :: escapeText rest
      else unicodeEscape u ++ escapeText (v :: rest)
    else if isLowSurrogate u then unicodeEscape u ++ escapeText (v :: rest)
    else escapeUnit u ++ escapeText (v :: rest)

def quote (text : CodeUnits) : CodeUnits := units "\"" ++ escapeText text ++ units "\""

mutual
/-- `JSON.stringify(value)`, where `print` writes the double of a token. -/
def stringify (print : CodeUnits → CodeUnits) : UnitJson → CodeUnits
  | null => units "null"
  | bool true => units "true"
  | bool false => units "false"
  | num token => print token
  | str text => quote text
  | arr elements => units "[" ++ stringifyElements print elements ++ units "]"
  | obj members => units "\x7b" ++ stringifyMembers print members ++ units "\x7d"

def stringifyElements (print : CodeUnits → CodeUnits) : List UnitJson → CodeUnits
  | [] => []
  | [v] => stringify print v
  | v :: w :: vs => stringify print v ++ units "," ++ stringifyElements print (w :: vs)

def stringifyMembers (print : CodeUnits → CodeUnits) : List (CodeUnits × UnitJson) → CodeUnits
  | [] => []
  | [(k, v)] => quote k ++ units ":" ++ stringify print v
  | (k, v) :: m :: ms =>
    quote k ++ units ":" ++ stringify print v ++ units "," ++ stringifyMembers print (m :: ms)
end

/-! ### Doubles -/

/-- The value of a token before it is rounded. -/
def exact (token : CodeUnits) : ℚ :=
  let (sign, token) := match token with
    | u :: rest => if u = '-'.toNat then ((-1 : ℚ), rest) else (1, u :: rest)
    | [] => (1, [])
  let (whole, token) := readDigits token
  let (fraction, token) := match token with
    | u :: rest => if u = '.'.toNat then readDigits rest else ([], u :: rest)
    | [] => ([], [])
  let scale : ℚ := match token with
    | _ :: s :: rest =>
      if s = '-'.toNat then 1 / 10 ^ digitsValue rest
      else if s = '+'.toNat then 10 ^ digitsValue rest
      else 10 ^ digitsValue (s :: rest)
    | _ => 1
  sign * (digitsValue whole + digitsValue fraction / 10 ^ fraction.length) * scale

/-- The nearest integer, the even one of two. -/
def roundEven (q : ℚ) : ℤ :=
  let below := q.floor
  let rest := q - below
  if rest < 1 / 2 then below
  else if 1 / 2 < rest then below + 1
  else if below % 2 = 0 then below else below + 1

/-- The double nearest to a rational number, `none` for an infinity. -/
def nearest (q : ℚ) : Option ℚ :=
  if q = 0 then some 0
  else
    let size := if q < 0 then -q else q
    let step : ℚ := (2 : ℚ) ^ max (Int.log 2 size - 52) (-1074 : ℤ)
    let rounded : ℚ := roundEven (size / step) * step
    if 2 ^ (1024 : ℕ) ≤ rounded then none else some (if q < 0 then -rounded else rounded)

def double (token : CodeUnits) : Option ℚ := nearest (exact token)

end UnitJson

end Script
