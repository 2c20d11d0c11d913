import Ace.Script.UnitJson

/-!
# Environment values in a text

`createEnvironmentMatcher`: an Aho–Corasick automaton over the configured values and their
JSON spellings. A state of the trie is the text that leads to it from the root, newest code
unit first, so a child and the state that it is a child of share their tail. Failure links are
followed with fuel: a link leads to a shorter text.
-/

namespace Ace.Redaction

open Script

structure EnvironmentSpan where
  start : Nat
  stop : Nat
  deriving DecidableEq, Repr

/-- A state of the trie. -/
abbrev Node := CodeUnits

structure EnvironmentMatcher where
  values : List CodeUnits
  /-- The non-empty spellings, which are the texts in the trie. -/
  spellings : List CodeUnits

namespace EnvironmentMatcher

variable (m : EnvironmentMatcher)

/-- `node.next.has(char)` -/
def hasChild (node : Node) (char : Nat) : Bool :=
  m.spellings.any fun spelling => (char :: node).reverse.isPrefixOf spelling

/-- `while (fallback && !fallback.next.has(char)) fallback = fallback.fail` -/
def fallback (link : Node → Option Node) (char : Nat) : Nat → Option Node → Option Node
  | _, none => none
  | 0, some _ => none
  | fuel + 1, some node =>
    if m.hasChild node char then some node else fallback link char fuel (link node)

/-- `node.fail`; the root has none. -/
def failWith : Nat → Node → Option Node
  | 0, _ => none
  | _ + 1, [] => none
  | _ + 1, [_] => some []
  | fuel + 1, char :: node =>
    match m.fallback (failWith fuel) char (node.length + 1) (failWith fuel node) with
    | some found => some (char :: found)
    | none => some []

def fail (node : Node) : Option Node := m.failWith (node.length + 1) node

/-- `node.longest` once every state has taken over that of its failure link. -/
def longestWith : Nat → Node → Nat
  | 0, _ => 0
  | fuel + 1, node =>
    let own := if m.spellings.contains node.reverse then node.length else 0
    match m.fail node with
    | some link => max own (longestWith fuel link)
    | none => own

def longest (node : Node) : Nat := m.longestWith (node.length + 1) node

/-- The state after a code unit. -/
def advanceWith (char : Nat) : Nat → Node → Node
  | 0, _ => []
  | fuel + 1, node =>
    if m.hasChild node char then char :: node
    else if node = [] then []
    else advanceWith char fuel ((m.fail node).getD [])

def advance (char : Nat) (node : Node) : Node := m.advanceWith char (node.length + 1) node

/-- Pushes a span, newest first, onto those it does not reach back into. -/
def push (start stop : Nat) : List EnvironmentSpan → List EnvironmentSpan
  | [] => [{ start, stop }]
  | previous :: rest =>
    if previous.stop ≤ start then { start, stop } :: previous :: rest
    else push (min start previous.start) stop rest

def scan : Nat → Node → List EnvironmentSpan → CodeUnits → List EnvironmentSpan
  | _, _, spans, [] => spans.reverse
  | i, node, spans, char :: rest =>
    let node := m.advance char node
    let longest := m.longest node
    if longest = 0 then scan (i + 1) node spans rest
    else scan (i + 1) node (push (i + 1 - longest) (i + 1) spans) rest

def spans (text : CodeUnits) : List EnvironmentSpan :=
  if m.spellings.isEmpty then [] else m.scan 0 [] [] text

end EnvironmentMatcher

def createEnvironmentMatcher (values : List CodeUnits) : EnvironmentMatcher where
  values := values
  spellings := (values.flatMap fun value => [value, UnitJson.escapeText value]).filter (!·.isEmpty)

end Ace.Redaction
