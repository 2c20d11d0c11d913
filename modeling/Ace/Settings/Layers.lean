import Ace.Script.Registry

/-!
# Layers of settings

A setting is looked up in the environment, then in the documents of the layers in scope, the nearest
first, then among the defaults. Some keys are settings of the whole daemon: writing them to another
layer is refused. Values are of any type with a decidable equality; whether a value fits its key is a
parameter of the assignment.
-/

namespace Ace.Settings

open Script

/-! ### Keys -/

/-- Every key, in the order of the schema. -/
def settingsKeys : List String :=
  ["storage.retention", "storage.scheduledCleanup", "storage.worktreeRetentionDays",
    "storage.backupWorktrees", "storage.retentionDays", "logs.maxBytes",
    "sourceControl.preferences", "providers.configuration", "host.displayName", "host.icon",
    "projects.roots", "threads.followUpBehavior", "threads.forkOnSwitch", "threads.limitPolicy",
    "providers.default", "providers.coder.provider", "providers.coder.model",
    "providers.coder.tier", "providers.coder.reasoningEffort", "providers.reviewer.provider",
    "providers.reviewer.model", "providers.reviewer.tier", "providers.reviewer.reasoningEffort",
    "providers.planner.provider", "providers.planner.model", "providers.planner.tier",
    "providers.planner.reasoningEffort", "providers.verifier.provider",
    "providers.verifier.model", "providers.verifier.tier", "providers.verifier.reasoningEffort",
    "browser.backend", "browser.backendLoss", "browser.profile", "browser.profileScope",
    "browser.downloadDir", "browser.downloadDefault", "browser.userChrome.storageReads",
    "computer.blockedApps", "computer.lockedUse", "devices.emulatorWindow", "devices.enabled",
    "access.defaultMode", "access.nativeModes", "threads.useWorktree",
    "worktree.preparationTimeoutMs", "threads.autoSettleAfter", "threads.unresponsiveAfter",
    "threads.settleOnMerge", "threads.settleOnClose", "threads.sortBy", "threads.keepSettledFor",
    "remote.enabled", "remote.transport", "remote.lan", "remote.tailscale", "remote.relay",
    "remote.agentAccess", "remote.agentTransfers", "remote.transferIgnoredFiles",
    "remote.hostedPairingLink", "remote.relayUrl", "notifications.remotePush",
    "notifications.pushGatewayUrl", "automations.enabled", "agents.maxRunningChildren",
    "generation.model", "generation.autoDraftCommits", "clients.theme", "clients.keybindings"]

inductive RunRole where
  | build
  | judgment
  | review
  | verify

def roleSlots : RunRole → String
  | .build => "coder"
  | .judgment => "planner"
  | .review => "reviewer"
  | .verify => "verifier"

def runRoles : List RunRole := [.build, .judgment, .review, .verify]

def roleKeys (role : RunRole) : List String :=
  let slot := roleSlots role
  ["providers." ++ slot ++ ".provider", "providers." ++ slot ++ ".model",
    "providers." ++ slot ++ ".tier", "providers." ++ slot ++ ".reasoningEffort"]

def roleSettingKeys : List String := runRoles.flatMap roleKeys

/-- The keys whose values are read from the global layer only. -/
def globalOnlyKeys : List String := ["computer.lockedUse"]

def startsWith (key start : String) : Bool := start.toList.isPrefixOf key.toList

/-! ### Layers -/

inductive LayerKind where
  | defaults
  | global
  | workspace
  | thread
  deriving DecidableEq

inductive Provenance where
  | layer (kind : LayerKind)
  | environment
  deriving DecidableEq

inductive Layer where
  | global
  | workspace (workspace : String)
  | thread (thread : String)
  deriving DecidableEq

def Layer.kind : Layer → LayerKind
  | .global => .global
  | .workspace _ => .workspace
  | .thread _ => .thread

structure Scope where
  workspace : Option String := none
  thread : Option String := none

inductive Code where
  | validation
  | limit

/-- A `SettingsError`, or what parsing a key throws. -/
inductive Failure where
  | settings (code : Code) (message : String)
  | key

variable {V : Type}

structure Entry (V : Type) where
  key : String
  value : V
  provenance : Provenance
  deriving DecidableEq

/-- The settings of a document, and the layer it stands for. -/
structure LayerFile (V : Type) where
  document : Registry V
  layer : LayerKind

/-- The values from the environment, the shipped ones, and the current settings of each layer. -/
structure Service (V : Type) where
  overrides : Registry V
  defaults : String → V
  documents : Layer → Registry V

/-- The layers in scope, the nearest last. -/
def layers (scope : Scope) : List Layer :=
  [.global] ++ scope.workspace.toList.map .workspace ++ scope.thread.toList.map .thread

def files (s : Service V) (scope : Scope) : List (LayerFile V) :=
  (layers scope).map fun layer => { document := s.documents layer, layer := layer.kind }

/-! ### Reading -/

/-- The first of the files that counts and has the key. -/
def resolveFiles (key : String) : List (LayerFile V) → Option (Entry V)
  | [] => none
  | file :: rest =>
    if file.layer ≠ .global ∧ key ∈ globalOnlyKeys then resolveFiles key rest
    else
      match file.document.get? key with
      | some value => some { key, value, provenance := .layer file.layer }
      | none => resolveFiles key rest

def resolve (s : Service V) (key : String) (files : List (LayerFile V)) : Entry V :=
  match s.overrides.get? key with
  | some value => { key, value, provenance := .environment }
  | none =>
    match resolveFiles key files.reverse with
    | some entry => entry
    | none => { key, value := s.defaults key, provenance := .layer .defaults }

def parseKey (key : String) : Except Failure String :=
  if key ∈ settingsKeys then .ok key else .error .key

def get (s : Service V) (key : String) (scope : Scope) : Except Failure (Entry V) := do
  let key ← parseKey key
  return resolve s key (files s scope)

def selectKeys (keys : List String) : Except Failure (List String) := do
  if keys.length < 1 ∨ keys.length > 32 then
    throw (.settings .limit "Select between 1 and 32 settings keys")
  let parsed ← keys.mapM parseKey
  return parsed.foldl addTo []

def read (s : Service V) (keys : List String) (scope : Scope) : Except Failure (List (Entry V)) := do
  let keys ← selectKeys keys
  return keys.map fun key => resolve s key (files s scope)

/-! ### Subscriptions -/

structure Subscription (V : Type) where
  keys : List String
  scope : Scope
  last : Registry (Entry V)

def subscribe (s : Service V) (keys : List String) (scope : Scope) :
    Except Failure (Subscription V) := do
  let keys ← selectKeys keys
  let last := keys.foldl (fun last key => last.set key (resolve s key (files s scope))) Registry.empty
  return { keys, scope, last }

/-- What a subscriber is told when keys of one of its files changed, and what it was told last. -/
def notify [DecidableEq V] (s : Service V) (sub : Subscription V) (changed : List String) :
    List (Entry V) × Subscription V :=
  let affected := (changed.filter (· ∈ sub.keys)).foldl addTo []
  let resolved := affected.map fun key => resolve s key (files s sub.scope)
  let entries := resolved.filter fun entry => sub.last.get? entry.key ≠ some entry
  (entries, { sub with last := entries.foldl (fun last entry => last.set entry.key entry) sub.last })

/-! ### Writing -/

/-- A value checked for its key and layer, before anything is written. -/
def assignment (validateValue : String → V → Except Failure V) (key : String) (value : V)
    (layer : Layer) : Except Failure V := do
  let key ← parseKey key
  if key = "providers.configuration" ∧ layer.kind ≠ .global then
    throw (.settings .validation "Provider configuration is a global user setting")
  if key = "projects.roots" ∧ layer.kind ≠ .global then
    throw (.settings .validation "Project folders are a global user setting")
  if startsWith key "browser.download" ∧ layer.kind ≠ .global then
    throw (.settings .validation "The downloads folder is a global daemon setting")
  if key = "computer.blockedApps" ∧ layer.kind ≠ .global then
    throw (.settings .validation "Apps agents can't use is a global setting")
  if key ∈ globalOnlyKeys ∧ layer.kind ≠ .global then
    throw (.settings .validation "Working while this Mac is locked is a global setting")
  if key ∈ roleSettingKeys ∧ layer.kind ≠ .global then
    throw (.settings .validation "Roles are a global setting")
  if startsWith key "generation." ∧ layer.kind ≠ .global then
    throw (.settings .validation "Generation settings belong to the daemon")
  validateValue key value

end Ace.Settings
