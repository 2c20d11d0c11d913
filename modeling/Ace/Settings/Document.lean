import Ace.Protocol.Schemas
import Ace.Script.Stringify
import Ace.Settings.Jsonc
import Ace.Settings.Layers

/-!
# Settings documents

`document.ts` and the migrations it runs. Decoding a text either throws, ends with a document, or
edits the text and decodes the result again. The schemas of the keys that no migration reads are a
parameter, and so is the text of a number in `JSON.stringify`.
-/

namespace Ace.Settings.Document

open Script Script.Schema

/-! ### Schemas -/

mutual
/-- Built from JSON values; a number that is too large for a double is read as an infinity. -/
def isData (infinite : Bool) : Value → Bool
  | .null | .bool _ | .num _ | .str _ => true
  | .nonFinite _ => infinite
  | .arr items => areData infinite items
  | .obj fields => fieldsAreData infinite fields
  | _ => false

def areData (infinite : Bool) : List Value → Bool
  | [] => true
  | item :: items => isData infinite item && areData infinite items

def fieldsAreData (infinite : Bool) : List (String × Value) → Bool
  | [] => true
  | (_, item) :: fields => isData infinite item && fieldsAreData infinite fields
end

/-- What `z.json()` accepts. -/
def isJsonData (v : Value) : Bool := isData false v

def jsonValue : Schema := fun v => if isJsonData v then some v else none

/-- `[\x00-\x1f\x7f]` -/
def isControl (c : Char) : Bool := c.toNat < 0x20 || c.toNat = 0x7f

def isId (s : String) : Bool :=
  decide (1 ≤ utf16Length s ∧ utf16Length s ≤ 256) &&
    s.toList.all fun c => !isSpaceUnit c.toNat && !isControl c

def configurationId : Schema := text isId

def elements : Value → List Value
  | .arr vs => vs
  | _ => []

def ids : Schema := refine (arrayUpTo configurationId 512) fun rows => decide (elements rows).Nodup

/-- `^(?:\/|[A-Za-z]:[\\/]).*$` without control bytes. -/
def isAbsolutePath (s : String) : Bool :=
  (match s.toList with
    | '/' :: _ => true
    | c :: ':' :: d :: _ => c.isAlpha && (d = '\\' || d = '/')
    | _ => false) &&
    s.toList.all fun c => !isControl c && c.toNat ≠ 0x2028 && c.toNat ≠ 0x2029

def customModel : Schema := object [
  ("id", configurationId),
  ("displayName", text fun s => decide (1 ≤ utf16Length s ∧ utf16Length s ≤ 256) &&
    s.toList.any fun c => !isSpaceUnit c.toNat)]

def providerConfigurationShape : List (String × Schema) := [
  ("provider", Protocol.providerKind),
  ("instance", optional configurationId),
  ("enabled", optional boolean),
  ("defaultModel", optional (nullable (text fun s => isId s && s.toLower ≠ "default"))),
  ("binaryPath", optional (text fun s =>
    decide (1 ≤ utf16Length s ∧ utf16Length s ≤ 4096) && isAbsolutePath s)),
  ("customModels", optional (refine (arrayUpTo customModel 128) fun rows =>
    decide ((elements rows).map (·.field "id")).Nodup)),
  ("hiddenModels", optional ids),
  ("shownModels", optional ids),
  ("hiddenGroups", optional ids),
  ("shownGroups", optional ids),
  ("favourites", optional ids),
  ("showOnlyFavourites", optional boolean),
  ("hideDeprecated", optional boolean),
  ("maxCheckpointMb", optional (integerBetween 1 256))]

def providerConfiguration : Schema := object providerConfigurationShape

def providerConfigurations : Schema := refine (arrayUpTo providerConfiguration 64) fun rows =>
  decide ((elements rows).map fun row => (row.field "provider", row.field "instance")).Nodup

/-- An object whose unknown members are parsed by one schema. Numeric names would be enumerated
first; nothing depends on the order of unknown members. -/
def catchall (shape : List (String × Schema)) (element : Schema) : Schema
  | .obj fields => do
    let known ← objectFields shape fields
    let unknown ← recordFields (fun _ => true) element
      (fields.filter fun entry => !(shape.map Prod.fst).contains entry.1)
    return .obj (known ++ unknown)
  | _ => none

/-- `SettingsValues`: every key and its schema, among them those that migrations read. -/
structure SettingsValues where
  shape : List (String × Schema)
  distinct : (shape.map Prod.fst).Nodup
  transport : ("remote.transport", enumeration ["local", "lan", "tailscale", "relay"]) ∈ shape
  relayUrl : ∃ check, ("remote.relayUrl", text check) ∈ shape
  lan : ("remote.lan", boolean) ∈ shape
  tailscale : ("remote.tailscale", boolean) ∈ shape
  relay : ("remote.relay", boolean) ∈ shape
  configuration : ("providers.configuration", providerConfigurations) ∈ shape

namespace SettingsValues

def isKey (values : SettingsValues) (key : String) : Bool := (values.shape.map Prod.fst).contains key

/-- The shape of `SettingsValues.partial()`. -/
def partialShape (values : SettingsValues) : List (String × Schema) :=
  values.shape.map fun entry => (entry.1, optional entry.2)

def knownValues (values : SettingsValues) : Schema := object values.partialShape

def settings (values : SettingsValues) : Schema := catchall values.partialShape jsonValue

def document (values : SettingsValues) : Schema :=
  catchall [("version", number fun q => q = 2), ("settings", values.settings)] jsonValue

end SettingsValues

def envelope : Schema := looseObject [("version", integer)]

def v1 : Schema := looseObject [
  ("version", number fun q => q = 1), ("values", record (fun _ => true) jsonValue)]

/-! ### Migrations -/

def isRetiredWorkflowKey (key : String) : Bool := key = "offshift" || startsWith key "offshift."

def retiredWorkflowKeys (settings : Value) : List String :=
  (Assoc.keys settings.fields).filter isRetiredWorkflowKey

structure RemoteNetworkChoice where
  lan : Bool
  tailscale : Bool
  relay : Bool

def transportNetworks (transport relayUrl : String) : RemoteNetworkChoice where
  lan := transport ≠ "tailscale"
  tailscale := transport = "tailscale"
  relay := transport = "relay" || relayUrl ≠ ""

structure NetworksMigration where
  networks : RemoteNetworkChoice
  dropTransport : Bool

def remoteNetworksMigration (settings : Value) : Option NetworksMigration :=
  let relayUrl := (settings.field "remote.relayUrl").string?.getD ""
  match (settings.field "remote.transport").string? with
  | some transport => some { networks := transportNetworks transport relayUrl, dropTransport := true }
  | none =>
    let chosen := !(settings.field "remote.lan").isUndefined ||
      !(settings.field "remote.tailscale").isUndefined || !(settings.field "remote.relay").isUndefined
    if chosen || relayUrl = "" then none
    else some { networks := transportNetworks "lan" relayUrl, dropTransport := false }

/-- `Object.entries(networks.networks)` -/
def RemoteNetworkChoice.entries (choice : RemoteNetworkChoice) : List (String × Value) :=
  [("remote.lan", .bool choice.lan), ("remote.tailscale", .bool choice.tailscale),
    ("remote.relay", .bool choice.relay)]

def cursorInstanceId (instanceId : Value) : Value :=
  if instanceId = .str "cursor-cli-default" then .str "cursor-sdk-default" else instanceId

def isCursor (row : Value) : Bool := row.field "provider" = .str "cursor"

/-- A row of the retired CLI default beside one of the SDK default. -/
def collides (rows : List Value) (row : Value) : Bool :=
  isCursor row && decide (row.field "instance" = .str "cursor-cli-default") &&
    rows.any fun other =>
      isCursor other && decide (other.field "instance" = cursorInstanceId (row.field "instance"))

def truthy : Value → Bool
  | .str s => s ≠ ""
  | _ => false

def cursorRow (row : Value) : Value :=
  if isCursor row then
    let instanceId := cursorInstanceId (row.field "instance")
    let rest := row.eraseField "binaryPath"
    if truthy instanceId then rest.setField "instance" instanceId else rest
  else row

def cursorRows (rows : List Value) : List Value → Option (List Value)
  | [] => some []
  | value :: values => do
    let row ← providerConfiguration value
    let next ← cursorRows rows values
    return if collides rows row then next else cursorRow row :: next

def cursorConfiguration (rows : List Value) : Option (List Value) := cursorRows rows rows

/-! ### Decoding -/

structure DecodedDocument where
  document : Value
  text : String
  bytes : Nat
  migrated : Bool
  ranges : List (String × ScalarRange)

/-- What decoding a text needs from outside. -/
structure Host where
  lib : Jsonc
  values : SettingsValues
  numberText : ℚ → List Char

variable (host : Host)

def Host.parseDocument (text : String) : Except Thrown Parsed :=
  Document.parseDocument host.lib host.values.isKey text

def Host.edit (text : String) (path : List String) (value : Option Value) : String :=
  Document.edit host.lib text path value

def validateValue (key : String) (value : Value) : Except Thrown Value := do
  guardSecrets (.obj [(key, value)]) 0
  if startsWith key "clients." && maxClientBytes < value.jsonBytes host.numberText then
    settingsError .size "Client settings blob exceeds 64 KiB"
  else
    match (Assoc.get? host.values.shape key).bind fun schema => schema value with
    | none => settingsError .validation ("Invalid value for " ++ key)
    | some result =>
      if key = "providers.configuration" then
        match cursorConfiguration (elements result) with
        | none => .error .zod
        | some next => return .arr next
      else return result

def validateClients (settings : Value) : List String → Except Thrown Unit
  | [] => .ok ()
  | key :: keys => do
    if settings.hasOwn key then
      let _ ← validateValue host key (settings.field key)
    validateClients settings keys

def retiredAccessKeys : List String :=
  ["permissions.providerModes", "permissions.defaultMode", "approvals.policy"]

def refuseRetired (settings : Value) : Except Thrown Unit :=
  match retiredAccessKeys.filter fun key => settings.hasOwn key with
  | [] => .ok ()
  | retired => settingsError .validation ("Settings use " ++ String.intercalate ", " retired ++
      ", which this build no longer reads. Set access.defaultMode instead and remove them.")

/-- The text after the conversion from version 1, what it parses to, and whether it was converted. -/
def convert (text : String) : Except Thrown (String × Parsed × Bool) := do
  let scanned ← host.parseDocument text
  match envelope scanned.value with
  | none => settingsError .validation "Settings require a versioned document"
  | some header =>
    if header.field "version" = .num 1 then
      match v1 scanned.value with
      | none => settingsError .validation "Invalid version 1 settings document"
      | some old =>
        if old.hasOwn "settings" then
          settingsError .validation "Invalid version 1 settings document"
        else
          let text := host.edit
            (host.edit (host.edit text ["settings"] (some (old.field "values"))) ["values"] none)
            ["version"] (some (.num 2))
          let scanned ← host.parseDocument text
          return (text, scanned, true)
    else if header.field "version" ≠ .num 2 then
      settingsError .version "Unsupported settings document version"
    else return (text, scanned, false)

/-- A call of `decode` up to its recursive call. -/
inductive Turn where
  | again (text : String)
  | done (decoded : DecodedDocument)

def removeKeys (text : String) (keys : List String) : String :=
  keys.foldl (fun text key => host.edit text ["settings", key] none) text

def writeNetworks (text : String) (migration : NetworksMigration) : String :=
  let text := migration.networks.entries.foldl
    (fun text entry => host.edit text ["settings", entry.1] (some entry.2)) text
  if migration.dropTransport then host.edit text ["settings", "remote.transport"] none else text

def finish (text : String) (scanned : Parsed) (migrated : Bool) (settings : Value) :
    Except Thrown Turn :=
  match host.values.knownValues settings with
  | none => .error .zod
  | some known => .ok (.done
    { document := .obj [("version", .num 2), ("settings", known)], text, migrated
      ranges := scanned.ranges, bytes := scanned.bytes })

/-- The migrations of a document of version 2. -/
def migrate (text : String) (scanned : Parsed) (migrated : Bool) : Except Thrown Turn :=
  match host.values.document scanned.value with
  | none => settingsError .validation "Settings document has invalid known values"
  | some result =>
    let settings := result.field "settings"
    let retiredWorkflow := retiredWorkflowKeys settings
    if retiredWorkflow ≠ [] then .ok (.again (removeKeys host text retiredWorkflow))
    else
      match remoteNetworksMigration settings with
      | some migration => .ok (.again (writeNetworks host text migration))
      | none => do
        validateClients host settings ["clients.theme", "clients.keybindings"]
        refuseRetired settings
        match settings.field "providers.configuration" with
        | .arr rows =>
          match cursorConfiguration rows with
          | none => .error .zod
          | some next =>
            if Value.sameJson (.arr next) (.arr rows) then
              finish host text scanned migrated settings
            else
              return .again
                (host.edit text ["settings", "providers.configuration"] (some (.arr next)))
        | _ => finish host text scanned migrated settings

def turn (text : String) : Except Thrown Turn := do
  let (text, scanned, migrated) ← convert host text
  migrate host text scanned migrated

/-- `decode(text)`, with fuel for its recursive calls. -/
def decode : Nat → String → Option (Except Thrown DecodedDocument)
  | 0, _ => none
  | fuel + 1, text =>
    match turn host text with
    | .error thrown => some (.error thrown)
    | .ok (.done decoded) => some (.ok decoded)
    | .ok (.again text) =>
      (decode fuel text).map fun result => result.map fun decoded => { decoded with migrated := true }

end Ace.Settings.Document
