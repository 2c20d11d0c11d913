import Ace.Script.Pattern
import Ace.Script.Value

/-!
# Settings text

`validation.ts` and `jsonc.ts`. A text is visited token by token before it is parsed, so that
syntax errors, duplicate properties, deep nesting and credentials are found wherever they are. The
JSONC library is a parameter: what its visitor reports, what a text parses to, and what editing a
property makes of a text.
-/

namespace Ace.Settings.Document

open Script

def maxClientBytes : Nat := 64 * 1024
def maxDocumentBytes : Nat := 1024 * 1024

inductive DiagnosticCode where
  | parse
  | validation
  | version
  | secret
  | size
  deriving DecidableEq

/-- A `SettingsError`, or what a schema's `parse` throws. -/
inductive Thrown where
  | settings (code : DiagnosticCode) (message : String) (offset : Option Nat)
  | zod
  deriving DecidableEq

def settingsError {α : Type} (code : DiagnosticCode) (message : String)
    (offset : Option Nat := none) : Except Thrown α :=
  .error (.settings code message offset)

/-! ### Credentials -/

def isLetterUnit (u : Nat) : Bool := between 'A' 'Z' u || between 'a' 'z' u

def secretText : Pattern :=
  .oneOf [
    .sequence [.boundary, .anyCase (units "bearer"), .plus (.unit isSpaceUnit),
      .plus (.unit fun u => !isSpaceUnit u)],
    .sequence [.boundary,
      .oneOf [.anyCase (units "sk-"), .anyCase (units "ghp_"), .anyCase (units "github_pat_"),
        .anyCase (units "akia")],
      .atLeast 12 (.unit fun u => isWordUnit u || Script.oneOf "-" u)],
    .sequence [.anyCase (units "-----begin "),
      .star (.unit fun u => isLetterUnit u || Script.oneOf " " u),
      .anyCase (units "private key-----")]]

/-- `[._\-\s]` -/
def separates (u : Nat) : Bool := Script.oneOf "._-" u || isSpaceUnit u

def secretWord : Pattern :=
  .sequence [.notAfter fun u => !separates u,
    .oneOf [
      .sequence [.anyCase (units "token"), .option (.anyCase (units "s"))],
      .sequence [.anyCase (units "key"), .option (.anyCase (units "s"))],
      .sequence [.anyCase (units "password"), .option (.anyCase (units "s"))],
      .anyCase (units "passwd"), .anyCase (units "pwd"),
      .sequence [.anyCase (units "secret"), .option (.anyCase (units "s"))],
      .sequence [.anyCase (units "credential"), .option (.anyCase (units "s"))],
      .anyCase (units "authorization")],
    .alt .ending (.unit separates)]

def secretCompound : Pattern :=
  .sequence [
    .oneOf [.anyCase (units "api"), .anyCase (units "access"), .anyCase (units "refresh"),
      .anyCase (units "private"), .anyCase (units "secret")],
    .oneOf [.anyCase (units "key"), .anyCase (units "token")]]

/-- An underscore between a lower case letter and an upper case one. -/
def splitWords : CodeUnits → CodeUnits
  | [] => []
  | [u] => [u]
  | u :: v :: rest =>
    if between 'a' 'z' u && between 'A' 'Z' v then u :: '_'.toNat :: splitWords (v :: rest)
    else u :: splitWords (v :: rest)

def guardProperty (key : String) : Except Thrown Unit :=
  if Rule.test { body := secretWord } (splitWords (units key)) ||
      Rule.test { body := secretCompound } (units key) ||
      ["__proto__", "constructor", "prototype"].contains key then
    settingsError .secret "Secret-looking fields cannot be stored in settings"
  else .ok ()

def guardText (text : String) : Except Thrown Unit :=
  if Rule.test { body := secretText } (units text) then
    settingsError .secret "Credentials cannot be stored in settings"
  else .ok ()

def guardDepth (depth : Nat) : Except Thrown Unit :=
  if 64 < depth then settingsError .size "Settings nesting exceeds 64 levels" else .ok ()

mutual
def guardSecrets : Value → Nat → Except Thrown Unit
  | .str s, depth => do
    guardDepth depth
    guardText s
  | .arr items, depth => do
    guardDepth depth
    guardItems items depth
  | .obj fields, depth => do
    guardDepth depth
    guardFields fields depth
  | _, depth => guardDepth depth

def guardItems : List Value → Nat → Except Thrown Unit
  | [], _ => .ok ()
  | item :: items, depth => do
    guardSecrets item (depth + 1)
    guardItems items depth

def guardFields : List (String × Value) → Nat → Except Thrown Unit
  | [], _ => .ok ()
  | (key, item) :: fields, depth => do
    guardProperty key
    guardSecrets item (depth + 1)
    guardFields fields depth
end

/-! ### The library -/

inductive Segment where
  | name (key : String)
  | index (i : Nat)
  deriving DecidableEq

/-- A call of the visitor. -/
inductive Event where
  | objectBegin
  | arrayBegin
  | objectEnd
  | arrayEnd
  | property (key : String) (offset : Nat)
  | literal (value : Value) (offset length : Nat) (path : List Segment)
  | failure (offset : Nat)

structure Formatting where
  insertSpaces : Bool
  tabSize : Nat
  eol : String

/-- `jsonc-parser`, with trailing commas allowed. -/
structure Jsonc where
  visit : String → List Event
  parse : String → Value
  /-- `applyEdits(text, modify(text, path, value, { formattingOptions }))`; without a value the
  property is removed. -/
  modify : String → List String → Option Value → Formatting → String

/-! ### Reading -/

structure ScalarRange where
  offset : Nat
  length : Nat
  deriving DecidableEq

/-- What the visitor keeps: the names in each open object, none for an open array. -/
structure Visited where
  objects : List (Option (List String)) := []
  duplicate : Option Nat := none
  syntaxError : Option Nat := none
  ranges : List (String × ScalarRange) := []

def Visited.begin (s : Visited) (properties : Option (List String)) : Except Thrown Visited :=
  let objects := properties :: s.objects
  if 64 < objects.length then settingsError .size "Settings nesting exceeds 64 levels"
  else .ok { s with objects }

/-- The object that is open has a property of that name already. -/
def hasName (objects : List (Option (List String))) (key : String) : Bool :=
  match objects with
  | some names :: _ => names.contains key
  | _ => false

def addName (key : String) : List (Option (List String)) → List (Option (List String))
  | some names :: rest => some (key :: names) :: rest
  | objects => objects

def Visited.step (isKey : String → Bool) (s : Visited) : Event → Except Thrown Visited
  | .objectBegin => s.begin (some [])
  | .arrayBegin => s.begin none
  | .objectEnd | .arrayEnd => .ok { s with objects := s.objects.tail }
  | .property key offset => do
    guardProperty key
    return { s with
      objects := addName key s.objects
      duplicate := if hasName s.objects key then s.duplicate.or (some offset) else s.duplicate }
  | .literal value offset length path => do
    guardSecrets value 0
    match path with
    | [.name "settings", .name key] =>
      if isKey key then return { s with ranges := Assoc.put key { offset, length } s.ranges }
      else return s
    | _ => return s
  | .failure offset => .ok { s with syntaxError := s.syntaxError.or (some offset) }

structure Parsed where
  value : Value
  bytes : Nat
  ranges : List (String × ScalarRange)

def parseDocument (lib : Jsonc) (isKey : String → Bool) (text : String) : Except Thrown Parsed := do
  let bytes := text.utf8ByteSize
  if maxDocumentBytes < bytes then settingsError .size "Settings document exceeds 1 MiB"
  else
    let visited ← (lib.visit text).foldlM (Visited.step isKey) {}
    match visited.syntaxError, visited.duplicate with
    | some offset, _ => settingsError .parse "Invalid JSONC settings" (some offset)
    | none, some offset => settingsError .validation "Duplicate JSONC property" (some offset)
    | none, none =>
      guardText text
      return { value := lib.parse text, bytes, ranges := visited.ranges }

/-! ### Editing -/

/-- `/\n([\t ]+)"/.exec(text)?.[1]` -/
def indentation : List Char → Option (List Char)
  | [] => none
  | c :: rest =>
    let blanks := rest.takeWhile fun d => d = '\t' || d = ' '
    if c = '\n' ∧ blanks ≠ [] ∧ (rest.drop blanks.length).head? = some '"' then some blanks
    else indentation rest

def hasCrlf : List Char → Bool
  | '\r' :: '\n' :: _ => true
  | _ :: rest => hasCrlf rest
  | [] => false

def formatting (text : String) : Formatting :=
  let blanks := (indentation text.toList).getD [' ', ' ']
  { insertSpaces := !blanks.contains '\t'
    tabSize := blanks.length
    eol := if hasCrlf text.toList then "\r\n" else "\n" }

def edit (lib : Jsonc) (text : String) (path : List String) (value : Option Value) : String :=
  lib.modify text path value (formatting text)

end Ace.Settings.Document
