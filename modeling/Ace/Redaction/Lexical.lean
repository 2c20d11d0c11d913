import Ace.Redaction.Spans

/-!
# Lexical redaction

`createLexicalRedactor` and `createTextRedactor`: the rules for paths, hosts, accounts and
mail addresses, run one after another on a text whose sensitive spans have been replaced. They
are written for every medium; on code units (`Medium.plain`) they are what the program
computes.
-/

namespace Ace.Redaction

open Script Pattern

structure RedactionContext where
  workspace : Option CodeUnits := none
  home : Option CodeUnits := none
  username : Option CodeUnits := none
  host : Option CodeUnits := none
  env : Option (List (CodeUnits × Option CodeUnits)) := none

def OPERATIONAL_ENV : List CodeUnits :=
  ["ACE_LOG_LEVEL", "LOG_LEVEL", "NODE_ENV", "DEBUG", "TERM", "COLORTERM", "NO_COLOR",
    "FORCE_COLOR", "XDG_SESSION_CLASS", "XDG_SESSION_TYPE", "XDG_SESSION_DESKTOP",
    "XDG_CURRENT_DESKTOP", "DESKTOP_SESSION", "ACE_LISTEN"].map units

def sensitiveEnvironment (ctx : RedactionContext) : List (CodeUnits × CodeUnits) :=
  (ctx.env.getD []).filterMap fun (key, value) =>
    match value with
    | some value =>
      if !value.isEmpty && !OPERATIONAL_ENV.contains key then some (key, value) else none
    | none => none

def environmentMatcher (ctx : RedactionContext) : EnvironmentMatcher :=
  createEnvironmentMatcher
    (((sensitiveEnvironment ctx).filter fun (key, value) =>
      4 ≤ value.length || isSecretKey key).map Prod.snd)

/-! ### Rules -/

def isMailUnit (u : Nat) : Bool := alphanumericOr "._%+-" u

def EMAIL : Rule where
  body := sequence [notAfter isMailUnit, plus (unit isMailUnit), literal "@",
    plus (unit (alphanumericOr ".-")), literal ".", atLeast 2 (unit isLetter)]

/-- The key and the quotes around the value are kept. -/
def IDENTIFYING_KEYS : Rule where
  lead := sequence [literal "\"",
    Pattern.oneOf (["installationId", "deviceId", "accountId", "account_uuid", "userId", "user_id",
      "organizationId", "organization_uuid", "orgId"].map literal),
    literal "\":\""]
  body := star (unit (· != '"'.toNat))
  trail := literal "\""

def KEEP_EMAILS : List CodeUnits := [units "recorder@ace.invalid", units "noreply@anthropic.com"]

def inPath (further : String) (u : Nat) : Bool :=
  !isSpaceUnit u && !Script.oneOf "/\"'<>" u && !Script.oneOf further u

/-- A home directory in a file URL; what comes before it is kept. -/
def FILE_URL_HOME : Rule where
  lead := sequence [boundary, ignoringCase "file://", star (unit (inPath ""))]
  body := sequence [literal "/", alt (ignoringCase "users") (ignoringCase "home"), literal "/",
    plus (unit (inPath "?#"))]

def HOME_PATH : Rule where
  body := sequence [notAfter fun u => isWordUnit u || Script.oneOf "./\\-" u, literal "/",
    alt (literal "Users") (literal "home"), literal "/", plus (unit (inPath ""))]

def TEMP_PATH : Rule where
  body := sequence [literal "/", option (literal "private/"), literal "var/folders/",
    plus (unit (inPath "")), literal "/", plus (unit (inPath "")), literal "/",
    unit (Script.oneOf "TC"), literal "/"]

/-- `new RegExp(escape(text), "g")` -/
def escaped (text : CodeUnits) : Rule where
  body := Pattern.text text

/-- `\b…\b` around the user name. -/
def wholeWord (name : CodeUnits) : Rule where
  body := sequence [boundary, Pattern.text name, boundary]

variable {α : Type} (M : Medium α)

/-- `text.replace(rule, replacement)` -/
def replaceAll (rule : Rule) (replacement : CodeUnits) (text : List α) : List α :=
  M.splice text 0 ((rule.allMatches (M.read text)).map fun m =>
    { start := m.start, stop := m.finish, replacement })

/-- Mail addresses, all but those to keep. -/
def replaceEmails (text : List α) : List α :=
  let found := EMAIL.allMatches (M.read text)
  let hidden := found.filter fun m => !KEEP_EMAILS.contains (slice (M.read text) m.start m.finish)
  M.splice text 0 (hidden.map fun m =>
    { start := m.start, stop := m.finish, replacement := units "<EMAIL>" })

/-- The configured paths and hosts, in the order in which they are replaced. -/
def paths (ctx : RedactionContext) : List (CodeUnits × CodeUnits) :=
  let workspace := ctx.workspace.getD []
  let host := ctx.host.getD []
  [(workspace, units "<WORKSPACE>"),
    (workspace.map fun u => if u = '/'.toNat then '-'.toNat else u, units "-<WORKSPACE>"),
    (ctx.home.getD [], units "<HOME>"),
    (host, units "<HOST>"),
    (host.takeWhile (· != '.'.toNat), units "<HOST>")]

/-- An empty pattern is passed over. -/
def replacePath (text : List α) (path : CodeUnits × CodeUnits) : List α :=
  if path.1 = [] then text else replaceAll M (escaped path.1) path.2 text

def user (ctx : RedactionContext) : Option Rule :=
  let username := ctx.username.getD []
  if 3 ≤ username.length then some (wholeWord username) else none

def createLexicalRedactor (ctx : RedactionContext) (line : List α) : List α :=
  let shortValues := ((sensitiveEnvironment ctx).map Prod.snd).filter (·.length < 4)
  if shortValues.contains (M.read line) then M.write (units "<ENV>")
  else
    let out := redactOriginalText M (environmentMatcher ctx) line
    let out := (paths ctx).foldl (replacePath M) out
    let out := replaceAll M FILE_URL_HOME (units "<HOME>") out
    let out := replaceAll M HOME_PATH (units "<HOME>") out
    let out := replaceAll M TEMP_PATH (units "<TEMP>/") out
    let out := replaceAll M IDENTIFYING_KEYS (units "<ID>") out
    let out := replaceEmails M out
    match user ctx with
    | some rule => replaceAll M rule (units "<USER>") out
    | none => out

def createTextRedactor (ctx : RedactionContext) (text : List α) : List α :=
  if 65536 < text.length then M.write (units "<OVERSIZED REDACTED>")
  else
    let safe := createLexicalRedactor M ctx text
    if 262144 < safe.length then M.write (units "<OVERSIZED REDACTED>") else safe

end Ace.Redaction
