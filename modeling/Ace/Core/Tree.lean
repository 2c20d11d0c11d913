import Ace.Core.State
import Ace.Protocol.Item
import Ace.Script.Walk

/-!
# Agents and their tree

The live indexes of the thread state, and the operations that create agents, move them
under a parent and join native keys to the items that spawned them.
-/

namespace Ace

open Script Script.Command

/-! ### Indexes -/

/-- Text the provider is still streaming: a turn's end closes it. -/
def isOpenText (item : Value) : Bool :=
  !Item.complete item &&
    (Item.hasType item "reasoning" || Item.hasType item "compaction" ||
      (Item.hasType item "message" && Item.isAssistant item))

/-- Put `key` into a live index, or delete it. -/
def mark (index : Dictionary Unit) (key : Key) (live : Bool) : Dictionary Unit :=
  if live then index.put key () else index.erase key

def registerItemLink (state : ThreadState) (itemKey : Key) : ThreadState :=
  { state with indexes :=
    { state.indexes with pendingItemLinks := state.indexes.pendingItemLinks.put itemKey () } }

def refreshItemIndex (state : ThreadState) (key : Key) : ThreadState :=
  let item := state.items.get? key
  let state := { state with indexes := { state.indexes with
    liveTools := mark state.indexes.liveTools key (item.any Item.isLiveTool)
    openText := mark state.indexes.openText key (item.any isOpenText) } }
  if (state.itemLinks.get? key).isSome then registerItemLink state key else state

def refreshInteractionIndex (state : ThreadState) (key : Key) : ThreadState :=
  { state with indexes := { state.indexes with
    pendingInteractions := mark state.indexes.pendingInteractions key
      ((state.interactions.get? key).any (·.state == .pending)) } }

/-- Running, or lost track of and still awaiting proof that it ended. -/
def isLiveTask (state : ThreadState) (key : Key) : Bool :=
  (state.tasks.get? key).any fun task =>
    task.status == .running || (task.status == .unknown && state.uncertainTasks.contains key)

def refreshTaskIndex (state : ThreadState) (key : Key) : ThreadState :=
  { state with indexes := { state.indexes with
    runningTasks := mark state.indexes.runningTasks key (isLiveTask state key) } }

def refreshAgentIndex (state : ThreadState) (key : Key) (previousParentId : Option String) :
    ThreadState :=
  match state.agents.get? key with
  | none => state
  | some record =>
    let left :=
      match previousParentId with
      | none => state.indexes.childrenByParent
      | some previous =>
        if some previous = record.agent.parentId then state.indexes.childrenByParent
        else state.indexes.childrenByParent.modify previous (·.erase key)
    let joined :=
      match record.agent.parentId with
      | none => left
      | some parentId => left.put parentId (((left.get? parentId).getD .empty).put key ())
    { state with indexes := { state.indexes with
      agentKeysById := state.indexes.agentKeysById.put record.agent.id key
      childrenByParent := joined } }

def registerSpawnLink (state : ThreadState) (agentKey itemKey : Key) : ThreadState :=
  let agents := (state.indexes.pendingSpawnLinks.get? itemKey).getD .empty
  { state with indexes := { state.indexes with
    pendingSpawnLinks := state.indexes.pendingSpawnLinks.put itemKey (agents.put agentKey ()) } }

/-- The keys of an index whose row belongs to `agentId`, or all of them. -/
def ownedKeys {α : Type} (index : Dictionary Unit) (rows : Dictionary α) (owner : α → String)
    (agentId : Option String) : List Key :=
  index.keys.filter fun key =>
    match agentId with
    | none => true
    | some agentId => (rows.get? key).any (owner · == agentId)

def liveToolKeys (state : ThreadState) (agentId : Option String) : List Key :=
  ownedKeys state.indexes.liveTools state.items Item.agentId agentId

def pendingInteractionKeys (state : ThreadState) (agentId : Option String) : List Key :=
  ownedKeys state.indexes.pendingInteractions state.interactions (·.agentId) agentId

def runningTaskKeys (state : ThreadState) (agentId : Option String) : List Key :=
  ownedKeys state.indexes.runningTasks state.tasks (·.agentId) agentId

def openTextKeys (state : ThreadState) (agentId : Option String) : List Key :=
  ownedKeys state.indexes.openText state.items Item.agentId agentId

/-! ### Ancestors -/

def parentOf (state : ThreadState) (key : Key) : Option Key :=
  (state.agents.get? key).bind (·.parentKey)

/-- The keys that a loop over `parentKey` links visits from `start`. -/
def ancestors (state : ThreadState) (start : Option Key) : List Key :=
  walk (parentOf state) (state.agents.keys.length + 1) [] start

/-- A windowed reader may have forgotten this settled branch. Announce parents first. -/
def announceAgentBranch (key : Key) : Fold PUnit := do
  let w ← get
  let branch := (ancestors w.state (some key)).filterMap fun next =>
    (w.state.agents.get? next).map (·.agent)
  let announced := w.events.filterMap fun
    | .agentCreated agent => some agent.id
    | _ => none
  (branch.reverse.filter fun agent => !announced.contains agent.id).forM fun agent =>
    emit (.agentCreated agent)

/-! ### Agents -/

/-- The conservative record of an agent that a frame mentions before it is described. -/
def placeholder (state : ThreadState) (key : Key) (id : String) (now : Nat) : AgentRecord :=
  let root := state.rootKey.bind state.agents.get?
  let provider := match root.map (·.agent.native.field "provider") with
    | none | some .undefined | some .null => Value.str state.config.provider.text
    | some provider => provider
  { agent :=
      { id
        threadId := state.threadId
        parentId := root.map (·.agent.id)
        origin := if root.isSome then .provider_subagent else .root
        native := .obj [("provider", provider), ("nativeId", .str key)]
        fidelity := .placeholder
        cwd := root.elim "" (·.agent.cwd)
        status := .starting
        background := some false
        createdAt := now }
    activity := .starting_turn
    lastSignalAt := now
    parentKey := state.rootKey }

/-- Store a new record. The first agent of a thread is its root until another is seen. -/
def addAgent (state : ThreadState) (key : Key) (record : AgentRecord) : ThreadState :=
  let state := refreshAgentIndex { state with agents := state.agents.put key record } key none
  { state with rootKey := state.rootKey.or (some key) }

/-- Creates a conservative placeholder instead of discarding early frames. -/
def ensureAgent (ctx : ApplyContext) (key : Key) : Fold AgentRecord := do
  let state ← getState
  match state.agents.get? key with
  | some existing => return existing
  | none =>
    let id ← nextId ctx .agent
    let record := placeholder state key id ctx.now
    changeState (addAgent · key record)
    emit (.agentCreated record.agent)
    return record

/-- The members of `fields` that differ from the agent's, compared as JSON text. -/
def AgentChanges.differing (fields : AgentChanges) (agent : Agent) : AgentChanges :=
  let value (new old : Option Value) : Option Value :=
    new.filter fun new => !(old.any (Value.sameJson new))
  { childThreadId := fields.childThreadId.filter (some · ≠ agent.childThreadId)
    machine := value fields.machine agent.machine
    parentId := fields.parentId.filter (· ≠ agent.parentId)
    origin := fields.origin.filter (· ≠ agent.origin)
    lineage := value fields.lineage agent.lineage
    fidelity := fields.fidelity.filter (· ≠ agent.fidelity)
    native := value fields.native (some agent.native)
    cwd := fields.cwd.filter (· ≠ agent.cwd)
    name := fields.name.filter (some · ≠ agent.name)
    role := fields.role.filter (some · ≠ agent.role)
    model := fields.model.filter (some · ≠ agent.model)
    spawnedBy := fields.spawnedBy.filter (some · ≠ agent.spawnedBy)
    background := fields.background.filter (· ≠ agent.background) }

def changeAgent (key : Key) (fields : AgentChanges) : Fold PUnit := do
  match (← getState).agents.get? key with
  | none => throw .typeError
  | some record =>
    let changed := fields.differing record.agent
    if changed = {} then return
    changeRecord key fun record => { record with agent := changed.assign record.agent }
    emit (.agentUpdated record.agent.id changed)

/-- The end of `setParent`: the record and its agent move, then the child index. -/
def moveAgent (key : Key) (parentKey : Option Key) (parentId : Option String)
    (clearsSpawn : Bool) : Fold PUnit := do
  changeRecord key fun record => { record with
    spawnedByKey := if clearsSpawn then none else record.spawnedByKey
    parentKey }
  let previousParentId := ((← getState).agents.get? key).bind (·.agent.parentId)
  changeAgent key
    { parentId := some parentId, spawnedBy := if clearsSpawn then some none else none }
  changeState (refreshAgentIndex · key previousParentId)

def setParent (ctx : ApplyContext) (key : Key) (parentKey : Option Key) : Fold PUnit := do
  let record ← ensureAgent ctx key
  refuse (parentKey = some key) (.error "an agent cannot be its own parent")
  let clearsSpawn := record.parentKey ≠ parentKey ∧
    (record.spawnedByKey.isSome ∨ record.agent.spawnedBy.join.isSome)
  match parentKey with
  | some parentKey =>
    refuse (key ∈ ancestors (← getState) (some parentKey))
      (.error "agent links cannot create a cycle")
    let parent ← ensureAgent ctx parentKey
    moveAgent key (some parentKey) (some parent.agent.id) clearsSpawn
  | none => moveAgent key none none clearsSpawn

def adoptRoot (ctx : ApplyContext) (key : Key) : Fold PUnit := do
  let oldRootKey := (← getState).rootKey
  changeState fun state => { state with rootKey := some key }
  setParent ctx key none
  let _ ← ensureAgent ctx key
  changeAgent key { origin := some .root }
  match oldRootKey with
  | none => return
  | some oldRootKey =>
    if oldRootKey = key then return
    match (← getState).agents.get? oldRootKey with
    | none => return
    | some oldRoot =>
      if oldRoot.agent.fidelity = .placeholder ∨ oldRoot.agent.origin ≠ .root then
        setParent ctx oldRootKey (some key)
        changeAgent oldRootKey { origin := some .provider_subagent }

def ensureParent (ctx : ApplyContext) (key parentKey : Key) : Fold PUnit := do
  refuse (key = parentKey) (.error "an agent cannot be its own parent")
  let _ ← ensureAgent ctx parentKey
  -- The first frame may belong to a child before its real root is known.
  when ((← getState).rootKey = some key) (adoptRoot ctx parentKey)

/-! ### Links -/

/-- A pending spawn link whose item has arrived: its agent knows the item, and the item
links to the first such agent. -/
def joinSpawnLink (itemKey : Key) (item : Value) (key : Key) : Fold PUnit := do
  match (← getState).agents.get? key with
  | none => return
  | some record =>
    if record.spawnedByKey ≠ some itemKey then return
    changeAgent key { spawnedBy := some (some (Item.id item)) }
    let links := ((← getState).itemLinks.get? itemKey).getD {}
    if links.childAgent.isNone then
      changeState fun state => registerItemLink
        { state with itemLinks := state.itemLinks.put itemKey { links with childAgent := some key } }
        itemKey

/-- Join the agents that name `itemKey` as their spawning item. -/
def joinSpawnLinks (itemKey : Key) (agents : List Key) : Fold PUnit := do
  match (← getState).items.get? itemKey with
  | none => return
  | some item =>
    agents.forM (joinSpawnLink itemKey item)
    changeState fun state => { state with indexes := { state.indexes with
      pendingSpawnLinks := state.indexes.pendingSpawnLinks.erase itemKey } }

/-- The agent that a spawning or messaging item is linked to. -/
def linkedAgentKey (item : Value) (links : ItemLinks) : Option Key :=
  if Item.hasDetail item "agent.spawn" then links.childAgent
  else if Item.hasDetail item "agent.message" then links.targetAgent
  else none

def updateItem (key : Key) (item : Value) : Fold PUnit := do
  changeState fun state => { state with items := state.items.put key item }
  emit (.itemUpdated item)

/-- The item of a pending item link learns the id of its agent. The item is written when
it is announced: nothing in between reads it. -/
def joinItemLink (ctx : ApplyContext) (key : Key) : Fold PUnit := do
  let state ← getState
  match state.itemLinks.get? key, state.items.get? key with
  | some links, some item =>
    match linkedAgentKey item links with
    | none => return
    | some linkedKey =>
      let linked ← ensureAgent ctx linkedKey
      if Item.hasDetail item "agent.spawn" then
        if Item.childAgentId item ≠ some linked.agent.id then
          changeRecord linkedKey fun record => { record with spawnedByKey := some key }
          setParent ctx linkedKey ((← getState).indexes.agentKeysById.get? (Item.agentId item))
          changeAgent linkedKey { spawnedBy := some (some (Item.id item)) }
          updateItem key (Item.setDetail item "childAgentId" (.str linked.agent.id))
      else if Item.targetAgentId item ≠ some linked.agent.id then
        updateItem key (Item.setDetail item "targetAgentId" (.str linked.agent.id))
  | _, _ => return

/-- Joins native keys after either side of a link appears, in either order. -/
def reconcileLinks (ctx : ApplyContext) : Fold PUnit := do
  (← getState).indexes.pendingSpawnLinks.entries.forM fun (itemKey, agents) =>
    joinSpawnLinks itemKey agents.keys
  (← getState).indexes.pendingItemLinks.keys.forM fun key => do
    joinItemLink ctx key
    changeState fun state => { state with indexes := { state.indexes with
      pendingItemLinks := state.indexes.pendingItemLinks.erase key } }

/-- Remember the item that spawned an agent until both sides are known. -/
def nameSpawn (key spawnedBy : Key) : Fold PUnit := do
  changeRecord key fun record => { record with spawnedByKey := some spawnedBy }
  changeState (registerSpawnLink · key spawnedBy)

def AgentSeenFact.changes (fact : AgentSeenFact) : AgentChanges where
  origin := some fact.origin
  lineage := fact.lineage
  fidelity := some fact.fidelity
  native := some fact.native
  cwd := some fact.cwd
  name := fact.name
  role := fact.role
  model := fact.model
  background := fact.background
  machine := fact.machine

def seeAgent (ctx : ApplyContext) (fact : AgentSeenFact) : Fold PUnit := do
  -- An unknown parent must exist before its child is assigned a parent id.
  whenSome fact.parent (ensureParent ctx fact.agent)
  let _ ← ensureAgent ctx fact.agent
  when (fact.origin = .root) (adoptRoot ctx fact.agent)
  when (fact.origin ≠ .root)
    (whenSome fact.parent fun parent => setParent ctx fact.agent (some parent))
  whenSome fact.spawnedBy (nameSpawn fact.agent)
  changeAgent fact.agent fact.changes
  reconcileLinks ctx

def linkAgent (ctx : ApplyContext) (fact : AgentLinkedFact) : Fold PUnit := do
  whenSome fact.parent (ensureParent ctx fact.agent)
  let _ ← ensureAgent ctx fact.agent
  whenSome fact.parent fun parent => setParent ctx fact.agent (some parent)
  whenSome fact.spawnedBy (nameSpawn fact.agent)
  changeAgent fact.agent
    { name := fact.name, model := fact.model, background := fact.background.map some }
  reconcileLinks ctx

def RootAgentInit.seen (initial : RootAgentInit) : AgentSeenFact :=
  { initial with origin := .root }

def ensureInitialRoot (ctx : ApplyContext) : Fold PUnit := do
  match (← getState).initialRoot with
  | none => return
  | some initial =>
    changeState fun state => { state with initialRoot := none }
    seeAgent ctx initial.seen

end Ace
