import Ace.Script.Value

/-!
# JSON text

`JSON.parse`. The text is read by recursive descent with fuel; a value consumes at least
one character, so the length of the text is fuel enough. A lone surrogate escape becomes
U+FFFD, and a number keeps its exact decimal value.
-/

namespace Script.Json

def isSpace (c : Char) : Bool := c == ' ' || c == '\t' || c == '\n' || c == '\r'

def skip (cs : List Char) : List Char := cs.dropWhile isSpace

/-- The rest of the text after `word`. -/
def expect (word : List Char) (cs : List Char) : Option (List Char) :=
  if word.isPrefixOf cs then some (cs.drop word.length) else none

def digitsValue (ds : List Char) : Nat := ds.foldl (fun n c => n * 10 + (c.toNat - '0'.toNat)) 0

def hexValue (c : Char) : Option Nat :=
  if c.isDigit then some (c.toNat - '0'.toNat)
  else if 'a' ≤ c ∧ c ≤ 'f' then some (c.toNat - 'a'.toNat + 10)
  else if 'A' ≤ c ∧ c ≤ 'F' then some (c.toNat - 'A'.toNat + 10)
  else none

def hex4 : List Char → Option (Nat × List Char)
  | a :: b :: c :: d :: rest => do
    return ((((← hexValue a) * 16 + (← hexValue b)) * 16 + (← hexValue c)) * 16 +
      (← hexValue d), rest)
  | _ => none

/-- The characters of an escape, after its backslash. -/
def escape : List Char → Option (Char × List Char)
  | '"' :: rest => some ('"', rest)
  | '\\' :: rest => some ('\\', rest)
  | '/' :: rest => some ('/', rest)
  | 'b' :: rest => some (Char.ofNat 8, rest)
  | 'f' :: rest => some (Char.ofNat 12, rest)
  | 'n' :: rest => some ('\n', rest)
  | 'r' :: rest => some ('\r', rest)
  | 't' :: rest => some ('\t', rest)
  | 'u' :: rest => do
    let (high, rest) ← hex4 rest
    if 0xD800 ≤ high ∧ high < 0xDC00 then
      match rest with
      | '\\' :: 'u' :: low =>
        match hex4 low with
        | some (low, after) =>
          if 0xDC00 ≤ low ∧ low < 0xE000 then
            return (Char.ofNat (0x10000 + (high - 0xD800) * 0x400 + (low - 0xDC00)), after)
          else return (Char.ofNat 0xFFFD, rest)
        | none => none
      | _ => return (Char.ofNat 0xFFFD, rest)
    else if 0xDC00 ≤ high ∧ high < 0xE000 then return (Char.ofNat 0xFFFD, rest)
    else return (Char.ofNat high, rest)
  | _ => none

/-- The characters of a string, after its opening quote. -/
def string : Nat → List Char → List Char → Option (String × List Char)
  | 0, _, _ => none
  | _ + 1, _, [] => none
  | fuel + 1, read, c :: rest =>
    if c = '"' then some (String.ofList read.reverse, rest)
    else if c = '\\' then do
      let (c, rest) ← escape rest
      string fuel (c :: read) rest
    else if c.toNat < 32 then none
    else string fuel (c :: read) rest

def digits (cs : List Char) : List Char × List Char := cs.span Char.isDigit

def fraction (cs : List Char) : Option (ℚ × List Char) :=
  match cs with
  | '.' :: rest =>
    let (ds, rest) := digits rest
    if ds.isEmpty then none else some ((digitsValue ds : ℚ) / 10 ^ ds.length, rest)
  | rest => some (0, rest)

def exponent (cs : List Char) : Option (ℚ × List Char) :=
  match cs with
  | c :: rest =>
    if c = 'e' ∨ c = 'E' then
      let (negative, rest) := match rest with
        | '-' :: rest => (true, rest)
        | '+' :: rest => (false, rest)
        | rest => (false, rest)
      let (ds, rest) := digits rest
      if ds.isEmpty then none
      else
        let scale : ℚ := 10 ^ digitsValue ds
        some (if negative then 1 / scale else scale, rest)
    else some (1, c :: rest)
  | [] => some (1, [])

def number (cs : List Char) : Option (ℚ × List Char) := do
  let (sign, cs) := match cs with
    | '-' :: rest => ((-1 : ℚ), rest)
    | rest => (1, rest)
  let (ds, rest) := digits cs
  if ds.isEmpty ∨ (ds.head? = some '0' ∧ ds.length ≠ 1) then none
  else
    let (part, rest) ← fraction rest
    let (scale, rest) ← exponent rest
    return (sign * (digitsValue ds + part) * scale, rest)

mutual
def value : Nat → List Char → Option (Value × List Char)
  | 0, _ => none
  | fuel + 1, cs =>
    match skip cs with
    | [] => none
    | '{' :: rest =>
      match skip rest with
      | '}' :: rest => some (.obj [], rest)
      | rest => members fuel [] rest
    | '[' :: rest =>
      match skip rest with
      | ']' :: rest => some (.arr [], rest)
      | rest => elements fuel [] rest
    | '"' :: rest => (string (rest.length + 1) [] rest).map fun (s, rest) => (.str s, rest)
    | 't' :: rest => (expect "rue".toList rest).map (.bool true, ·)
    | 'f' :: rest => (expect "alse".toList rest).map (.bool false, ·)
    | 'n' :: rest => (expect "ull".toList rest).map (.null, ·)
    | rest => (number rest).map fun (q, rest) => (.num q, rest)

/-- The members of an object, after its brace or a comma. -/
def members : Nat → List (String × Value) → List Char → Option (Value × List Char)
  | 0, _, _ => none
  | fuel + 1, read, cs =>
    match skip cs with
    | '"' :: rest => do
      let (key, rest) ← string (rest.length + 1) [] rest
      match skip rest with
      | ':' :: rest =>
        let (v, rest) ← value fuel rest
        match skip rest with
        | ',' :: rest => members fuel (Assoc.put key v read) rest
        | '}' :: rest => some (.obj (Assoc.put key v read), rest)
        | _ => none
      | _ => none
    | _ => none

/-- The elements of an array, after its bracket or a comma. -/
def elements : Nat → List Value → List Char → Option (Value × List Char)
  | 0, _, _ => none
  | fuel + 1, read, cs => do
    let (v, rest) ← value fuel cs
    match skip rest with
    | ',' :: rest => elements fuel (v :: read) rest
    | ']' :: rest => some (.arr (v :: read).reverse, rest)
    | _ => none
end

/-- `JSON.parse(text)`, `none` when it throws. -/
def parse (text : String) : Option Value := do
  let (v, rest) ← value (2 * text.toList.length + 1) text.toList
  if (skip rest).isEmpty then some v else none

end Script.Json
