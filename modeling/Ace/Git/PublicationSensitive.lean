import Ace.Script.Command
import Ace.Script.Framing
import Ace.Script.Text
import Mathlib.Algebra.Group.Nat.Defs

/-!
# Reading published objects

`packages/git/src/publication-sensitive.ts` and what it uses of `decode.ts`: object headers, raw
trees, raw commits and the output of `git cat-file --batch`. What counts as a sensitive path or as
sensitive content is up to the detectors.
-/

namespace Ace.Git

open Script

abbrev Buffer := List UInt8

/-- An object hash: lower-case hexadecimal digits. -/
abbrev Hash := List Char

inductive PublicationFault where
  /-- `GitError("sensitive_publication")` -/
  | sensitive
  /-- `GitError("publication_scan_incomplete")` -/
  | incomplete
  /-- `GitError("malformed_output")` -/
  | malformed (context : String)
  /-- A fatal `TextDecoder` threw. -/
  | typeError
  /-- Git, the guard or the abort signal threw. -/
  | call
  /-- The model's recursion bound was reached. -/
  | depth
  deriving DecidableEq, Repr

/-- `sensitivePublicationPath`, `assertPublicationText` and `assertPublicationYaml`. -/
structure Detectors where
  sensitivePath : List Char → Bool
  assertText : Buffer → Except PublicationFault PUnit
  assertYaml : Buffer → Except PublicationFault PUnit

/-! ### Characters -/

/-- `buffer.toString("ascii")` clears the highest bit of each byte. -/
def asciiChar (b : UInt8) : Char := Char.ofNat (b.toNat % 128)

def ascii (bytes : Buffer) : List Char := bytes.map asciiChar

def isHex (c : Char) : Bool := c.isDigit || ('a' ≤ c && c ≤ 'f')

def isSpace (c : Char) : Bool := c = ' ' || ('\t' ≤ c && c ≤ '\r')

/-- `/^(?:[0-9a-f]{40}|[0-9a-f]{64})$/` -/
def isHash (text : List Char) : Bool := (text.length = 40 || text.length = 64) && text.all isHex

def decodeHash (text : List Char) (context : String) : Except PublicationFault Hash :=
  if isHash text then .ok text else .error (.malformed context)

def maxCount : Nat := 2 ^ 53 - 1

/-- A decimal number that a double holds exactly. -/
def count (digits : List Char) : Except PublicationFault Nat :=
  let n := Nat.ofDigitChars 10 digits 0
  if n ≤ maxCount then .ok n else .error (.malformed "count")

def hexDigit (n : Nat) : Char :=
  if n < 10 then Char.ofNat (48 + n) else Char.ofNat (87 + n)

/-- `buffer.toString("hex")` -/
def hex (bytes : Buffer) : Hash :=
  bytes.flatMap fun b => [hexDigit (b.toNat / 16), hexDigit (b.toNat % 16)]

/-- `new TextDecoder("utf8", { fatal: true }).decode(bytes)`: well-formed bytes are those that
their text encodes to. -/
def decodeFatal (bytes : Buffer) : Option (List Char) :=
  let numbers := bytes.map UInt8.toNat
  let text := Text.decodeBytes numbers {}
  if Text.encode text = numbers then some (Text.dropByteOrderMark text) else none

/-! ### Objects -/

inductive ObjectType where
  | blob | tree | commit | tag
  deriving DecidableEq, Repr

def ObjectType.text : ObjectType → List Char
  | blob => "blob".toList
  | tree => "tree".toList
  | commit => "commit".toList
  | tag => "tag".toList

def decodeType (text : List Char) : Except PublicationFault ObjectType :=
  match [ObjectType.blob, .tree, .commit, .tag].find? (·.text = text) with
  | some type => .ok type
  | none => .error (.malformed "publication object type")

/-- An object to scan, as YAML where `format` says so. -/
structure PublicationReference where
  id : Hash
  yaml : Bool := false
  deriving DecidableEq, Repr

structure ScanObject extends PublicationReference where
  type : ObjectType
  size : Nat
  deriving DecidableEq, Repr

def isWord (text : List Char) : Bool := !text.isEmpty && text.all (!isSpace ·)

def isDigits (text : List Char) : Bool := !text.isEmpty && text.all Char.isDigit

/-- `/^(\S+) (\S+) (\d+)$/` -/
def objectHeader (line : List Char) : Except PublicationFault ScanObject :=
  match Framing.lines ' ' line with
  | (id, [type, size]) =>
    if isWord id && isWord type && isDigits size then do
      let id ← decodeHash id "publication object"
      let type ← decodeType type
      return { id, type, size := ← count size }
    else .error .incomplete
  | _ => .error .incomplete

/-- `/\.ya?ml$/i` -/
def publicationYamlName (name : List Char) : Bool :=
  let folded := name.map Char.toLower
  ".yml".toList.isSuffixOf folded || ".yaml".toList.isSuffixOf folded

/-! ### Trees -/

/-- The child that an entry of a tree names, unless it is a commit of another repository. -/
def entryReference (mode name : List Char) (id : Buffer) : List PublicationReference :=
  if mode = "160000".toList then []
  else [{ id := hex id
          yaml := mode ≠ "40000".toList ∧ mode ≠ "040000".toList ∧ publicationYamlName name }]

/-- The loop of `assertPublicationTree`. Every entry takes bytes away. -/
def assertEntries (d : Detectors) (hashBytes : Nat) :
    Nat → Buffer → Except PublicationFault (List PublicationReference)
  | _, [] => .ok []
  | 0, _ :: _ => .error .depth
  | fuel + 1, bytes =>
    match Framing.cut 32 bytes with
    | none => .error .incomplete
    | some (mode, rest) =>
      match Framing.cut 0 rest with
      | none => .error .incomplete
      | some (name, rest) =>
        if rest.length < hashBytes then .error .incomplete
        else match decodeFatal name with
          | none => .error .typeError
          | some name =>
            if d.sensitivePath name then .error .sensitive
            else do
              let others ← assertEntries d hashBytes fuel (rest.drop hashBytes)
              return entryReference (ascii mode) name (rest.take hashBytes) ++ others

def assertPublicationTree (d : Detectors) (bytes : Buffer) (hashBytes : Nat) :
    Except PublicationFault (List PublicationReference) :=
  assertEntries d hashBytes bytes.length bytes

/-! ### Commits -/

/-- The hash after `key` in a header of a commit: `/^key ([a-f0-9]+)$/`, of `length` digits. -/
def headerHash (key : List Char) (length : Nat) (context : String) (line : List Char) :
    Except PublicationFault Hash :=
  let value := line.drop key.length
  if key.isPrefixOf line && !value.isEmpty && value.all isHex && value.length = length then
    decodeHash value context
  else .error .incomplete

def parentHashes (length : Nat) :
    List (List Char) → Except PublicationFault (List PublicationReference)
  | [] => .ok []
  | line :: lines =>
    if "parent ".toList.isPrefixOf line then do
      let id ← headerHash "parent ".toList length "publication commit parent" line
      return { id } :: (← parentHashes length lines)
    else parentHashes length lines

/-- Raw commit edges, with roots reused from old remote snapshots. -/
def commitReferences (content : Buffer) (length : Nat) :
    Except PublicationFault (List PublicationReference) :=
  match Framing.beforeBlank 10 content with
  | none => .error .incomplete
  | some header => do
    let lines := Framing.lines '\n' (ascii header)
    let root ← headerHash "tree ".toList length "publication commit tree" lines.1
    return { id := root } :: (← parentHashes length lines.2)

/-! ### Batches -/

/-- One object of a batch: its references, after its content was inspected. -/
def inspectObject (d : Detectors) (object : ScanObject) (content : Buffer) :
    Except PublicationFault (List PublicationReference) :=
  if object.type = .tree then assertPublicationTree d content (object.id.length / 2)
  else do
    let references ←
      if object.type = .commit then commitReferences content object.id.length else .ok []
    d.assertText content
    if object.yaml then d.assertYaml content
    return references

def inspectPublicationBatch (d : Detectors) :
    Buffer → List ScanObject → Except PublicationFault (List PublicationReference)
  | bytes, [] => if bytes = [] then .ok [] else .error .incomplete
  | bytes, object :: expected =>
    match Framing.cut 10 bytes with
    | none => .error .incomplete
    | some (line, rest) => do
      let actual ← objectHeader (ascii line)
      if actual.id ≠ object.id ∨ actual.type ≠ object.type ∨ actual.size ≠ object.size then
        .error .incomplete
      else
        let content := rest.take object.size
        if content.length ≠ object.size ∨ rest[object.size]? ≠ some 10 then .error .incomplete
        else do
          let references ← inspectObject d object content
          let others ← inspectPublicationBatch d (rest.drop (object.size + 1)) expected
          return references ++ others

end Ace.Git
