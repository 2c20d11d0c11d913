import Ace.Script.Pattern
import Ace.Script.UnitJson

/-!
# Credentials in a text

What tells a secret: the names of keys (`isSecretKey`), the counters that only sound like
secrets (`accountingCounter`), the spellings of credentials (`CREDENTIAL_PATTERNS`) and the
assignments in JSON text, raw or encoded once more (`jsonCredentialSpans`).
-/

namespace Ace.Redaction

open Script Pattern

/-! ### Classes -/

def isUpper (u : Nat) : Bool := between 'A' 'Z' u

def isLetter (u : Nat) : Bool := between 'A' 'Z' u || between 'a' 'z' u

def isAlphanumeric (u : Nat) : Bool := isLetter u || between '0' '9' u

/-- `[A-Za-z0-9]` and the further members. -/
def alphanumericOr (members : String) (u : Nat) : Bool := isAlphanumeric u || Script.oneOf members u

def literal (s : String) : Pattern := Pattern.text (units s)

/-- A literal of lower case under the flag `i`. -/
def ignoringCase (s : String) : Pattern := Pattern.anyCase (units s)

def space : Pattern := unit isSpaceUnit

/-! ### Keys -/

def SECRET_KEY : Rule where
  body := Pattern.oneOf [ignoringCase "token", ignoringCase "secret", ignoringCase "password",
    sequence [ignoringCase "api", option (unit (Script.oneOf "_-")), ignoringCase "key"],
    ignoringCase "authorization", ignoringCase "cookie", ignoringCase "credential",
    ignoringCase "ticket",
    sequence [ignoringCase "pairing", option (unit (Script.oneOf "_-")), ignoringCase "code"],
    ignoringCase "encryptedcontent"]

def isSecretKey (key : CodeUnits) : Bool := SECRET_KEY.test key

/-! ### Counters -/

def TOKEN_COUNTERS : List CodeUnits :=
  [units "inputTokens", units "outputTokens", units "cacheReadTokens", units "cacheWriteTokens",
    units "reasoningTokens", units "totalTokens", units "tokens"]

def NATIVE_TOKEN_COUNTERS : List CodeUnits :=
  [units "input", units "output", units "reasoning", units "total"]

/-- `typeof value === "number" && Number.isSafeInteger(value) && value >= 0` -/
def nonnegativeCounter : UnitJson → Bool
  | .num token =>
    match UnitJson.double token with
    | some q => q.den == 1 && decide (0 ≤ q) && decide (q ≤ 9007199254740991)
    | none => false
  | _ => false

def nativeTokenCounters : UnitJson → Bool
  | .obj entries =>
    !entries.isEmpty && entries.all fun (key, counter) =>
      if key ≠ units "cache" then NATIVE_TOKEN_COUNTERS.contains key && nonnegativeCounter counter
      else
        match counter with
        | .obj counts => counts.all fun (name, count) =>
          (name == units "read" || name == units "write") && nonnegativeCounter count
        | _ => false
  | _ => false

def accountingCounter (key : CodeUnits) (value : UnitJson) : Bool :=
  (TOKEN_COUNTERS.contains key && nonnegativeCounter value) ||
    (key == units "tokens" && nativeTokenCounters value)

/-! ### Spellings -/

/-- What an assignment may be to, in prose. -/
def assignedName : Pattern :=
  Pattern.oneOf [ignoringCase "token", ignoringCase "secret", ignoringCase "password",
    sequence [ignoringCase "api", option (unit (Script.oneOf "_-")), ignoringCase "key"]]

def assignment : Pattern := sequence [star space, unit (Script.oneOf "=:"), star space]

/-- A quoted text from its opening quote to the closing one or the end. -/
def quotedText (quote : Char) : Pattern :=
  sequence [unit (· == quote.toNat),
    star (alt (unit fun u => u != quote.toNat && u != '\\'.toNat)
      (seq (unit (· == '\\'.toNat)) (option (unit fun _ => true)))),
    alt (unit (· == quote.toNat)) ending]

def QUOTED_SECRET_ASSIGNMENT : Rule where
  body := sequence [boundary,
    Pattern.oneOf [ignoringCase "token", ignoringCase "secret", ignoringCase "password",
      sequence [ignoringCase "api", option (unit (Script.oneOf "_-")), ignoringCase "key"],
      ignoringCase "authorization", ignoringCase "cookie", ignoringCase "credential",
      ignoringCase "ticket",
      sequence [ignoringCase "pairing", option (unit (Script.oneOf "_-")), ignoringCase "code"]],
    assignment, alt (quotedText '"') (quotedText '\'')]

def CREDENTIAL_PATTERNS : List Rule :=
  [{ body := sequence [boundary, literal "AIza", times 35 (unit (alphanumericOr "_-"))] },
    { body := sequence [boundary, literal "xox", unit (Script.oneOf "baprs"), literal "-",
        atLeast 10 (unit (alphanumericOr "-"))] },
    { body := sequence [boundary, literal "npm_", atLeast 20 (unit isAlphanumeric)] },
    { body := sequence [boundary, alt (literal "sk") (literal "rk"), literal "_",
        alt (literal "live") (literal "test"), literal "_", atLeast 16 (unit isAlphanumeric)] },
    { body := sequence [boundary, literal "github_pat_",
        atLeast 16 (unit (alphanumericOr "_"))] },
    { body := sequence [boundary, literal "AKIA",
        times 16 (unit fun u => isUpper u || between '0' '9' u), boundary] },
    { body := sequence [boundary, literal "sk-", atLeast 16 (unit (alphanumericOr "_-"))] },
    { body := sequence [boundary, literal "gh", unit (Script.oneOf "opsur"), literal "_",
        atLeast 20 (unit isAlphanumeric)] },
    { body := sequence [boundary, literal "eyJ", atLeast 10 (unit (alphanumericOr "_-")),
        literal ".", atLeast 10 (unit (alphanumericOr "_-")), literal ".",
        atLeast 10 (unit (alphanumericOr "_-"))] },
    { body := sequence [boundary, alt (ignoringCase "bearer") (ignoringCase "basic"), plus space,
        plus (unit (alphanumericOr "+/=._-"))] },
    QUOTED_SECRET_ASSIGNMENT,
    { body := sequence [boundary, assignedName, assignment,
        plus (unit fun u => !isSpaceUnit u && !Script.oneOf ",;" u)] },
    { lead := sequence [unit (Script.oneOf "#&"),
        Pattern.oneOf [ignoringCase "code", ignoringCase "ticket", ignoringCase "token"],
        literal "="]
      body := plus (unit fun u => !Script.oneOf "&#" u && !isSpaceUnit u) }]

/-! ### Assignments in JSON text -/

structure CredentialSpan where
  start : Nat
  stop : Nat
  replacement : CodeUnits
  deriving DecidableEq

def KEY_UNITS : Nat := 1024

def isDelimiter (u : Nat) : Bool := isSpaceUnit u || Script.oneOf ",;\x7d]" u

/-- The key that a quoted text is, if it is one. -/
def decodedKey (source : CodeUnits) : Option CodeUnits :=
  match UnitJson.parse source with
  | some (.str key) => some key
  | _ => none

def decodedEncodedKey (source : CodeUnits) : Option CodeUnits :=
  match UnitJson.parse (units "\"" ++ source ++ units "\"") with
  | some (.str text) => decodedKey text
  | _ => none

namespace JsonCredentials

/-- The scan's variables. The last three cache how far a boundary has been looked for. -/
structure State where
  raw : Option Nat := none
  encoded : Option Nat := none
  prose : Option Nat := none
  slashes : Nat := 0
  rawEnd : Option Nat := none
  encodedEnd : Option Nat := none
  scalarEnd : Option Nat := none

/-- The next quote after a run of backslashes that `closes` accepts. -/
def nextQuote (closes : Nat → Bool) : Nat → Nat → CodeUnits → Nat
  | position, _, [] => position
  | position, run, u :: rest =>
    if u = '\\'.toNat then nextQuote closes (position + 1) (run + 1) rest
    else if u = '"'.toNat ∧ closes run then position
    else nextQuote closes (position + 1) 0 rest

def nextRawQuote (text : CodeUnits) (s : State) (opener : Nat) : Nat × State :=
  match s.rawEnd with
  | some known =>
    if opener < known then (known, s)
    else
      let found := nextQuote (· % 2 == 0) (opener + 1) 0 (text.drop (opener + 1))
      (found, { s with rawEnd := some found })
  | none =>
    let found := nextQuote (· % 2 == 0) (opener + 1) 0 (text.drop (opener + 1))
    (found, { s with rawEnd := some found })

def nextEncodedQuote (text : CodeUnits) (s : State) (opener : Nat) : Nat × State :=
  match s.encodedEnd with
  | some known =>
    if opener < known then (known, s)
    else
      let found := nextQuote (· % 4 == 1) (opener + 1) 0 (text.drop (opener + 1))
      (found, { s with encodedEnd := some found })
  | none =>
    let found := nextQuote (· % 4 == 1) (opener + 1) 0 (text.drop (opener + 1))
    (found, { s with encodedEnd := some found })

/-- The position past white space. -/
def pastSpace : Nat → CodeUnits → Nat
  | position, [] => position
  | position, u :: rest => if isSpaceUnit u then pastSpace (position + 1) rest else position

def pastScalar : Nat → CodeUnits → Nat
  | position, [] => position
  | position, u :: rest => if isDelimiter u then position else pastScalar (position + 1) rest

/-- The end of the scalar at `value`, looked for from there when the cache is behind it. -/
def scalarBoundary (text : CodeUnits) (s : State) (value : Nat) : Nat × State :=
  match s.scalarEnd with
  | some known =>
    if value ≤ known then (known, s)
    else
      let found := pastScalar value (text.drop value)
      (found, { s with scalarEnd := some found })
  | none =>
    let found := pastScalar value (text.drop value)
    (found, { s with scalarEnd := some found })

/-- What the candidates for the key of an assignment are: the key, and whether one of them is
damaged or too long to read. -/
def readKey (text : CodeUnits) (escaped : Bool) (opener proseOpener : Option Nat) (position : Nat) :
    Option CodeUnits × Bool :=
  let back := if escaped then 1 else 0
  let proseEnd := position - back
  let long := opener.any fun o => KEY_UNITS < position + 1 - (o - back)
  let longProse := proseOpener.any fun p => KEY_UNITS < proseEnd - p + 1
  let canonicalKey := match opener with
    | some o =>
      if long then none
      else if escaped then decodedEncodedKey (slice text (o - back) (position + 1))
      else decodedKey (slice text (o - back) (position + 1))
    | none => none
  let proseKey := match proseOpener with
    | some p =>
      if longProse then none
      else decodedKey (units "\"" ++ slice text (p + 1) proseEnd ++ units "\"")
    | none => none
  let key := if proseKey.any isSecretKey then proseKey else canonicalKey.or proseKey
  let damaged := long || longProse || (opener.isSome && canonicalKey.isNone) ||
    (proseOpener.isSome && proseKey.isNone)
  (key, damaged)

/-- The span of the value at `value`, if it is to be hidden. -/
def valueSpan (text : CodeUnits) (s : State) (escaped : Bool) (key : Option CodeUnits) (damaged : Bool)
    (value : Nat) : Option CredentialSpan × State :=
  if text[value]? = some '"'.toNat then
    let (stop, s) := nextRawQuote text s value
    if value + 1 < stop then
      (some { start := value + 1, stop, replacement := units "<SECRET>" }, s)
    else (none, s)
  else if text[value]? = some '\\'.toNat ∧ text[value + 1]? = some '"'.toNat then
    let (stop, s) := nextEncodedQuote text s (value + 1)
    let contentEnd := if stop < text.length then stop - 1 else stop
    if value + 2 < contentEnd then
      (some { start := value + 2, stop := contentEnd, replacement := units "<SECRET>" }, s)
    else (none, s)
  else if text[value]? ≠ some '\x7b'.toNat ∧ text[value]? ≠ some '['.toNat then
    let (stop, s) := scalarBoundary text s value
    if stop ≤ value then (none, s)
    else
      let counter := !damaged && decide (stop - value ≤ KEY_UNITS) &&
        key.any fun key => (UnitJson.parse (slice text value stop)).any (accountingCounter key ·)
      if counter then (none, s)
      else
        let replacement := if escaped then units "\\\"<SECRET>\\\"" else units "\"<SECRET>\""
        (some { start := value, stop, replacement }, s)
  else (none, s)

/-- A quote: the opener of a later key, and the closer of one when a colon follows. -/
def quoteStep (text : CodeUnits) (s : State) (position : Nat) : Option CredentialSpan × State :=
  let run := s.slashes
  let escaped := run % 2 == 1
  let opener := if escaped then s.encoded else s.raw
  let proseOpener := s.prose
  let s := { s with
    slashes := 0
    prose := some position
    raw := if run % 2 = 0 then some position else s.raw
    encoded := if run % 4 = 1 then some position else s.encoded }
  let colon := pastSpace (position + 1) (text.drop (position + 1))
  if text[colon]? ≠ some ':'.toNat ∨ (opener.isNone ∧ proseOpener.isNone) then (none, s)
  else
    let (key, damaged) := readKey text escaped opener proseOpener position
    if !damaged && key.any (!isSecretKey ·) then (none, s)
    else
      let value := pastSpace (colon + 1) (text.drop (colon + 1))
      valueSpan text s escaped key damaged value

def scan (text : CodeUnits) : Nat → State → CodeUnits → List CredentialSpan
  | _, _, [] => []
  | position, s, u :: rest =>
    if u = '\\'.toNat then scan text (position + 1) { s with slashes := s.slashes + 1 } rest
    else if u = '"'.toNat then
      let (span, s) := quoteStep text s position
      span.toList ++ scan text (position + 1) s rest
    else scan text (position + 1) { s with slashes := 0 } rest

end JsonCredentials

def jsonCredentialSpans (text : CodeUnits) : List CredentialSpan :=
  JsonCredentials.scan text 0 {} text

end Ace.Redaction
