import Ace.Redaction.Credentials
import Ace.Redaction.Environment
import Ace.Script.Splice

/-!
# Sensitive spans

`sensitiveSpans` merges overlapping matches in the original text, of environment values and of
credential spellings, before any of them is replaced. The generators it reads are the lists of
what they yield, and its loops run with fuel: every round of one takes a match off some list.
-/

namespace Ace.Redaction

open Script

/-- The matches of one credential spelling. -/
def credentialMatches (rule : Rule) (text : CodeUnits) : List Edit :=
  (rule.allMatches text).map fun m =>
    { start := m.start, stop := m.stop, replacement := units "<SECRET>" }

/-- The scans that `sensitiveSpans` reads ahead in. -/
def credentialScans (text : CodeUnits) : List (List Edit) :=
  CREDENTIAL_PATTERNS.map (credentialMatches · text) ++
    [(jsonCredentialSpans text).map fun s =>
      { start := s.start, stop := s.stop, replacement := s.replacement }]

namespace SensitiveSpans

/-- A span while it grows. -/
structure Union where
  stop : Nat
  secret : Bool := false
  preferred : Option Edit := none

/-- What is still to be read. -/
structure Pending where
  env : List EnvironmentSpan
  scans : List (List Edit)

def Pending.size (p : Pending) : Nat := p.env.length + (p.scans.map List.length).sum

/-- `while (env[index].start < end)` -/
def absorbEnvironment : List EnvironmentSpan → Nat → List EnvironmentSpan × Nat
  | [], stop => ([], stop)
  | e :: env, stop =>
    if e.start < stop then absorbEnvironment env (max stop e.stop) else (e :: env, stop)

/-- One match of a scan. -/
def Union.take (u : Union) (m : Edit) : Union where
  stop := max u.stop m.stop
  secret := true
  preferred :=
    match u.preferred with
    | none => some m
    | some p => if m.start ≤ p.start ∧ p.stop ≤ m.stop then some m else some p

/-- `while (scan.match && scan.match.start < end)` -/
def absorbScan : List Edit → Union → List Edit × Union
  | [], u => ([], u)
  | m :: scan, u => if m.start < u.stop then absorbScan scan (u.take m) else (m :: scan, u)

def absorbScans : List (List Edit) → Union → List (List Edit) × Union
  | [], u => ([], u)
  | scan :: scans, u =>
    let (scan, u) := absorbScan scan u
    let (scans, u) := absorbScans scans u
    (scan :: scans, u)

/-- One round of `while (extended)`. -/
def round (p : Pending) (u : Union) : Pending × Union :=
  let (env, stop) := absorbEnvironment p.env u.stop
  let (scans, grown) := absorbScans p.scans { u with stop }
  ({ env, scans }, grown)

/-- `while (extended)` -/
def extend : Nat → Pending → Union → Pending × Union
  | 0, p, u => (p, u)
  | fuel + 1, p, u =>
    let (p', u') := round p u
    if u.stop < u'.stop then extend fuel p' u' else (p', u')

/-- The first place where anything begins. -/
def Pending.start? (p : Pending) : Option Nat :=
  (p.env.head?.map EnvironmentSpan.start).toList ++
    (p.scans.filterMap fun scan => scan.head?.map Edit.start) |>.min?

def Union.span (u : Union) (start : Nat) : Edit where
  start := start
  stop := u.stop
  replacement :=
    let replacement := if u.secret then units "<SECRET>" else units "<ENV>"
    match u.preferred with
    | some p => if p.start = start ∧ p.stop = u.stop then p.replacement else replacement
    | none => replacement

def yields : Nat → Pending → List Edit
  | 0, _ => []
  | fuel + 1, p =>
    match p.start? with
    | none => []
    | some start =>
      let (p, u) := extend (p.size + 1) p { stop := start + 1 }
      u.span start :: yields fuel p

end SensitiveSpans

open SensitiveSpans in
def sensitiveSpans (text : CodeUnits) (environment : EnvironmentMatcher) : List Edit :=
  let pending : Pending := { env := environment.spans text, scans := credentialScans text }
  yields (pending.size + 1) pending

variable {α : Type}

def redactOriginalText (M : Medium α) (environment : EnvironmentMatcher) (text : List α) :
    List α :=
  M.splice text 0 (sensitiveSpans (M.read text) environment)

end Ace.Redaction
