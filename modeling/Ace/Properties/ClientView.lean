import Ace.Projection.View
import Ace.Properties.Reachability
import Ace.Script.Copy

/-!
# What a client sees

A client that folds the event log into an empty view has, after every call, the rows of the
reducer: `Shows` says so table by table. A view keeps structured copies, and it reads a
stream's output from its chunks, so an item is compared outside `call.detail.output`. Every
step announces what it writes, hence keeps `Shows`.
-/

namespace Ace

open Script Script.Value

/-! ### Copies of an item -/

def outputPath : List Segment := [.member "call", .member "detail", .member "output"]

def OutsideOutput (path : List Segment) : Prop := ¬ outputPath <+: path

/-- `c` is a structured copy of `item`, the output summary apart. -/
def CopiesItem (c item : Value) : Prop := CopyOn OutsideOutput c item

theorem outsideOutput_nil : OutsideOutput [] := by
  intro inside
  simpa [outputPath] using inside.length_le

theorem outsideOutput_member {name : String} (ne : name ≠ "call") (path : List Segment) :
    OutsideOutput (.member name :: path) := by
  rintro ⟨rest, eq⟩
  simp [outputPath] at eq
  exact ne eq.1.symm

section

variable {c item next : Value}

theorem CopiesItem.field (h : CopiesItem c item) {name : String} (ne : name ≠ "call") :
    IsCopy (c.field name) (item.field name) :=
  (CopyOn.field h name).isCopy (outsideOutput_member ne)

theorem CopiesItem.setField (h : CopiesItem c item) {name : String} {x y : Value}
    (member : IsCopy x y) : CopiesItem (c.setField name x) (item.setField name y) :=
  CopyOn.setField h outsideOutput_nil (member.copyOn _)

theorem CopiesItem.hasType (h : CopiesItem c item) (name : String) :
    Item.hasType c name = Item.hasType item name :=
  (h.field (by decide)).eq_str name

theorem not_outsideOutput (rest : List Segment) :
    ¬ OutsideOutput (.member "call" :: .member "detail" :: .member "output" :: rest) :=
  fun outside => outside ⟨rest, rfl⟩

theorem CopiesItem.setOutput_left (h : CopiesItem c item) (x : Value) :
    CopiesItem (Item.setDetail c "output" x) item := by
  intro path outside
  rw [← h path outside]
  apply observe_setField_unseen
  rintro rest rfl
  apply observe_setField_unseen
  rintro rest rfl
  apply observe_setField_unseen
  rintro rest rfl
  exact absurd outside (not_outsideOutput rest)

theorem CopiesItem.setOutput_right (h : CopiesItem c item) (x : Value) :
    CopiesItem c (Item.setDetail item "output" x) := by
  intro path outside
  rw [h path outside]
  symm
  apply observe_json_setField_unseen
  rintro rest rfl
  apply observe_json_setField_unseen
  rintro rest rfl
  apply observe_json_setField_unseen
  rintro rest rfl
  exact absurd outside (not_outsideOutput rest)

/-! ### Deltas -/

theorem appendText_copy {P : List Segment → Prop} (h : CopyOn P c item) (root : P [])
    (text : ∀ path, P (.member "text" :: path)) (source : ∀ path, P (.member "source" :: path))
    (append : String) : CopyOn P (appendText c append) (appendText item append) := by
  have is_text := (h.field "text").isCopy text
  have is_source := (h.field "source").isCopy source
  have same_text : (c.field "text").string? = (item.field "text").string? :=
    string?_of_shape is_text.shape
  have same_source : (c.field "source").isUndefined = (item.field "source").isUndefined :=
    isUndefined_of_shape is_source.shape
  have same_nat : ∀ name, ((c.field "source").field name).nat? =
      ((item.field "source").field name).nat? :=
    fun name => nat?_of_shape (is_source.field name).shape
  unfold appendText holdsTail
  simp only [same_text, same_source, same_nat]
  have extended : ∀ (b : Bool) s, CopyOn P
      (if b = true then c.setField "text" (.str s) else c)
      (if b = true then item.setField "text" (.str s) else item) := by
    intro b s
    cases b
    · exact h
    · exact h.setField root ((isCopy_str s).copyOn _)
  split
  · exact extended _ _
  · exact (extended _ _).setField root ((is_source.setField _ (isCopy_num _)).copyOn _)

theorem forall₂_concat {α β : Type} {R : α → β → Prop} {xs : List α} {ys : List β} {y : β}
    (h : List.Forall₂ R xs (ys ++ [y])) :
    ∃ xs' x, xs = xs' ++ [x] ∧ List.Forall₂ R xs' ys ∧ R x y := by
  rw [← List.forall₂_reverse_iff] at h
  simp only [List.reverse_append, List.reverse_cons, List.reverse_nil, List.nil_append,
    List.singleton_append] at h
  obtain ⟨x, xs', last, init, eq⟩ := List.forall₂_cons_right_iff.mp h
  refine ⟨xs'.reverse, x, ?_, ?_, last⟩
  · have := congrArg List.reverse eq
    simpa using this
  · rw [← List.forall₂_reverse_iff]
    simpa using init

theorem appendPart_copy {cs vs : List Value} (h : List.Forall₂ IsElementCopy cs vs)
    (append : String) :
    List.Forall₂ IsElementCopy (appendPart cs append) (appendPart vs append) := by
  have new : IsElementCopy (.obj [("type", .str "text"), ("text", .str append)])
      (.obj [("type", .str "text"), ("text", .str append)]) := fun _ => rfl
  rcases List.eq_nil_or_concat vs with rfl | ⟨vs', v, rfl⟩
  · cases h
    exact .cons new .nil
  · rw [List.concat_eq_append] at h ⊢
    obtain ⟨cs', c, rfl, init, last⟩ := forall₂_concat h
    have same_type : (c.field "type" == .str "text") = (v.field "type" == .str "text") := by
      have read := (last.field "type").eq_str "text"
      rw [read]
      cases v <;> rfl
    unfold appendPart
    simp only [List.getLast?_append, List.getLast?_singleton, Option.some_or, same_type,
      List.dropLast_concat]
    split
    next is_text =>
      refine List.rel_append init (.cons ?_ .nil)
      have extended : (appendText v append).isUndefined = v.isUndefined := by
        apply isUndefined_of_shape
        unfold appendText
        simp only
        split <;> split <;> simp only [shape_setField]
      have defined : v.isUndefined = false := by
        cases v <;> simp_all [Value.field, Value.fields, Assoc.get?, Value.isUndefined]
      have copied : IsCopy c v := by simpa [IsElementCopy, defined] using last
      have result : IsCopy (appendText c append) (appendText v append) :=
        (appendText_copy (copied.copyOn fun _ => True) trivial (fun _ => trivial)
          (fun _ => trivial) append).isCopy fun _ => trivial
      simpa [IsElementCopy, extended, defined] using result
    next => exact List.rel_append h (.cons new .nil)

theorem CopiesItem.accepts (h : CopiesItem c item) {field : DeltaField}
    (content : field ≠ .output) : acceptsDelta c field = acceptsDelta item field := by
  cases field with
  | output => exact absurd rfl content
  | text => simp only [acceptsDelta, h.hasType]
  | reasoning => simp only [acceptsDelta, h.hasType]

theorem CopiesItem.delta (h : CopiesItem c item) {field : DeltaField} {text : String}
    (content : field ≠ .output) (applied : applyDelta item field text = some next) :
    CopiesItem ((applyDelta c field text).getD c) next := by
  unfold applyDelta at applied ⊢
  rw [h.accepts content, h.hasType]
  split at applied
  next => cases applied
  next accepts =>
    rw [if_neg accepts, if_neg content]
    split at applied
    next message =>
      cases applied
      have parts : IsCopy (c.field "parts") (item.field "parts") := h.field (by decide)
      rw [if_pos message]
      exact h.setField (isCopy_arr.mpr (appendPart_copy parts.elements text))
    next message =>
      cases applied
      rw [if_neg message]
      exact appendText_copy h outsideOutput_nil (outsideOutput_member (by decide))
        (outsideOutput_member (by decide)) text

theorem CopiesItem.outputDelta (h : CopiesItem c item) (chunk : String) :
    CopiesItem ((applyDelta c .output chunk).getD c) item := by
  unfold applyDelta
  split
  · exact h
  · exact h.setOutput_left _

end

/-! ### Views that show a state -/

def CopiesAgent (c : Agent) (record : AgentRecord) : Prop := c = record.agent.structuredCopy

/-- The agents of a state as a ledger without a history. -/
def HoldsAgent (s : ThreadState) : String → AgentRecord → Prop :=
  Ledger.Holds (·.agent.id) s.agents .empty

/-- The view of a complete thread has the rows of `s`, by id, and no others. -/
structure Shows (s : ThreadState) (view : ThreadView) : Prop where
  threadId : view.threadId = s.threadId
  complete : view.itemsBefore = none
  status : view.status = s.status
  agents : Ledger.Mirrors (HoldsAgent s) CopiesAgent view.agents
  runs : ∀ id, view.runs.get? id = s.runs.get? id
  items : Ledger.Mirrors (Ledger.Holds Item.id s.items .empty) CopiesItem view.items
  interactions : Ledger.Mirrors (Ledger.Holds Interaction.id s.interactions s.interactionHistory)
    (fun c interaction => c = interaction.structuredCopy) view.interactions
  tasks : Ledger.Mirrors (Ledger.Holds BackgroundTask.id s.tasks s.taskHistory)
    (fun c task => c = task.structuredCopy) view.backgroundTasks

/-- The next event of a log. -/
def feed (times : Nat → Nat) (view : ThreadView) (payload : EventPayload) : ThreadView :=
  (applyEvent view
    { seq := view.seq + 1
      threadId := view.threadId
      at_ := times (view.seq + 1)
      payload }).1

theorem reparentAgent_tables (view : ThreadView) (id : String) (old next : Option String) :
    ∃ agentChildren, reparentAgent view id old next = { view with agentChildren } := by
  unfold reparentAgent
  split
  · exact ⟨view.agentChildren, rfl⟩
  · exact ⟨_, rfl⟩

theorem Shows.feed {s s' : ThreadState} {view : ThreadView} {payload : EventPayload}
    (shows : Shows s view) (times : Nat → Nat) (row : ∀ status, payload ≠ .threadUpdated status)
    (folds : ∀ view, Shows s view → Shows s' (foldPayload view payload)) :
    Shows s' (feed times view payload) := by
  unfold Ace.feed applyEvent
  simp only [Option.getD_none, ne_eq, not_true_eq_false, if_false, Nat.not_succ_le_self]
  apply folds
  unfold updateThread
  split
  next status is_thread => exact absurd is_thread (row _)
  next =>
    split
    · exact ⟨shows.threadId, shows.complete, shows.status, shows.agents, shows.runs, shows.items,
        shows.interactions, shows.tasks⟩
    · exact ⟨shows.threadId, shows.complete, shows.status, shows.agents, shows.runs, shows.items,
        shows.interactions, shows.tasks⟩
  next =>
    exact ⟨shows.threadId, shows.complete, shows.status, shows.agents, shows.runs, shows.items,
      shows.interactions, shows.tasks⟩

/-! ### Agents -/

section

variable {ids : IdSource} {w w' : Work} {view : ThreadView}

theorem TreeSound.ledger (tree : TreeSound ids w) :
    Ledger.Sound (·.agent.id) (fun _ => True) (fun _ => True) w.state.agents .empty where
  row _ _ _ := ⟨trivial, Dictionary.get?_empty _⟩
  unique key key' record record' known known' same := by
    have by_id : ∀ {k : Key} {r : AgentRecord}, w.state.agents.get? k = some r →
        w.state.indexes.agentKeysById.get? r.agent.id = some k := by
      intro k r found
      exact (tree.keysById _ _).mpr ⟨r.row, by simp [agentRow, found], rfl⟩
    have first := by_id known
    have second := by_id known'
    rw [same, second] at first
    exact (Option.some.inj first).symm
  history _ _ found := by simp at found

theorem mirrors_agents {s s' : ThreadState} {copy : Dictionary Agent}
    (mirrors : Ledger.Mirrors (HoldsAgent s) CopiesAgent copy)
    (same : ∀ key, (s'.agents.get? key).map (·.agent) = (s.agents.get? key).map (·.agent)) :
    Ledger.Mirrors (HoldsAgent s') CopiesAgent copy := by
  have held : ∀ {t t' : ThreadState},
      (∀ key, (t'.agents.get? key).map (·.agent) = (t.agents.get? key).map (·.agent)) →
      ∀ {id record}, HoldsAgent t' id record →
        ∃ old, HoldsAgent t id old ∧ old.agent = record.agent := by
    intro t t' same_agents id record holds
    rcases holds with archived | ⟨key, known, is_id⟩
    · simp at archived
    · have agents := same_agents key
      rw [known] at agents
      cases found : t.agents.get? key with
      | none => simp [found] at agents
      | some old =>
        have eq : record.agent = old.agent := by simpa [found] using agents
        exact ⟨old, .inr ⟨key, found, (congrArg Agent.id eq).symm.trans is_id⟩, eq.symm⟩
  intro id
  constructor
  · intro record holds
    obtain ⟨old, was, eq⟩ := held same holds
    obtain ⟨c, found, copies⟩ := (mirrors id).1 old was
    exact ⟨c, found, by rw [CopiesAgent, ← eq]; exact copies⟩
  · intro found
    obtain ⟨old, was⟩ := (mirrors id).2 found
    obtain ⟨record, holds, _⟩ := held (fun key => (same key).symm) was
    exact ⟨record, holds⟩

theorem agents_modify_same {agents : Dictionary AgentRecord} {key : Key}
    {f : AgentRecord → AgentRecord} (same : ∀ record, (f record).agent = record.agent) (k : Key) :
    ((agents.modify key f).get? k).map (·.agent) = (agents.get? k).map (·.agent) := by
  rw [Dictionary.get?_modify]
  split
  next eq =>
    subst eq
    cases agents.get? key <;> simp [same]
  next => rfl

theorem Shows.putAgent (s' : ThreadState) (shows : Shows w.state view) (tree : TreeSound ids w)
    {key : Key} {record : AgentRecord} {f : AgentRecord → AgentRecord}
    (known : w.state.agents.get? key = some record)
    (same : (f record).agent.id = record.agent.id)
    (agents : s'.agents = w.state.agents.modify key f) {c : Agent}
    (copies : CopiesAgent c (f record)) :
    Ledger.Mirrors (HoldsAgent s') CopiesAgent (view.agents.put record.agent.id c) := by
  refine shows.agents.put ?_ copies
  have replaced := Ledger.holds_replace tree.ledger known same
  unfold HoldsAgent
  rw [agents, Dictionary.modify_of_get? known]
  exact replaced

theorem AgentChanges.structuredCopy_assign (changes : AgentChanges) (agent : Agent) :
    changes.structuredCopy.assign agent.structuredCopy = (changes.assign agent).structuredCopy := by
  unfold AgentChanges.structuredCopy AgentChanges.assign Agent.structuredCopy
  cases changes.machine <;> cases changes.lineage <;> cases changes.native <;> rfl

theorem shows_agentUpdated {s' : ThreadState} (shows : Shows w.state view) (tree : TreeSound ids w)
    {key : Key} {record : AgentRecord} {f : AgentRecord → AgentRecord} {changes : AgentChanges}
    (known : w.state.agents.get? key = some record)
    (assigned : (f record).agent = changes.assign record.agent)
    (rest : { w.state with agents := w.state.agents.modify key f, indexes := s'.indexes } = s') :
    Shows s' (foldPayload view (.agentUpdated record.agent.id changes)) := by
  obtain ⟨c, found, copies⟩ := (shows.agents record.agent.id).1 record (.inr ⟨key, known, rfl⟩)
  have put : Ledger.Mirrors (HoldsAgent s') CopiesAgent
      (view.agents.put record.agent.id (changes.structuredCopy.assign c)) := by
    refine shows.putAgent s' tree known (f := f) ?_ (by rw [← rest]) ?_
    · rw [assigned]
      rfl
    · rw [CopiesAgent, assigned, copies, AgentChanges.structuredCopy_assign]
  have moved : ∃ agentChildren, foldPayload view (.agentUpdated record.agent.id changes) =
      { view with
        agentChildren
        agents := view.agents.put record.agent.id (changes.structuredCopy.assign c) } := by
    simp only [foldPayload, found]
    split
    next parentId _ =>
      obtain ⟨agentChildren, eq⟩ := reparentAgent_tables view record.agent.id c.parentId parentId
      exact ⟨agentChildren, by rw [eq]⟩
    next => exact ⟨_, rfl⟩
  obtain ⟨agentChildren, eq⟩ := moved
  rw [eq, ← rest]
  rw [← rest] at put
  exact ⟨shows.threadId, shows.complete, shows.status, put, shows.runs, shows.items,
    shows.interactions, shows.tasks⟩

theorem shows_agentCreated {s' : ThreadState} {agent : Agent}
    (threadId : view.threadId = s'.threadId) (complete : view.itemsBefore = none)
    (status : view.status = s'.status)
    (agents : Ledger.Mirrors (HoldsAgent s') CopiesAgent
      (view.agents.put agent.id agent.structuredCopy))
    (runs : ∀ id, view.runs.get? id = s'.runs.get? id)
    (items : Ledger.Mirrors (Ledger.Holds Item.id s'.items .empty) CopiesItem view.items)
    (interactions : Ledger.Mirrors
      (Ledger.Holds Interaction.id s'.interactions s'.interactionHistory)
      (fun c interaction => c = interaction.structuredCopy) view.interactions)
    (tasks : Ledger.Mirrors (Ledger.Holds BackgroundTask.id s'.tasks s'.taskHistory)
      (fun c task => c = task.structuredCopy) view.backgroundTasks) :
    Shows s' (foldPayload view (.agentCreated agent)) := by
  obtain ⟨agentChildren, eq⟩ := reparentAgent_tables view agent.id
    ((view.agents.get? agent.id).bind (·.parentId)) agent.parentId
  simp only [foldPayload, eq]
  exact ⟨threadId, complete, status, agents, runs, items, interactions, tasks⟩

theorem refreshAgentIndex_eq (s : ThreadState) (key : Key) (previous : Option String) :
    ∃ indexes, refreshAgentIndex s key previous = { s with indexes } := by
  unfold refreshAgentIndex
  split
  · exact ⟨s.indexes, rfl⟩
  · exact ⟨_, rfl⟩

theorem shows_createAgent (shows : Shows w.state view) (tree : TreeSound ids w) {key : Key}
    {id : String} {now : Nat} (unknown : w.state.agents.get? key = none)
    (fresh : FreshAgent ids w id) :
    Shows (addAgent w.state key (placeholder w.state key id now))
      (foldPayload view (.agentCreated (placeholder w.state key id now).agent)) := by
  obtain ⟨indexes, eq⟩ := refreshAgentIndex_eq
    { w.state with agents := w.state.agents.put key (placeholder w.state key id now) } key none
  have is_fresh : Ledger.Fresh (·.agent.id) w.state.agents .empty
      (placeholder w.state key id now).agent.id := ⟨Dictionary.get?_empty _, fresh.2⟩
  have opened : ∀ id' record, Ledger.Holds (·.agent.id)
      (w.state.agents.put key (placeholder w.state key id now))
      (Ledger.archive (·.agent.id) w.state.agents .empty key) id' record ↔ _ :=
    Ledger.holds_open tree.ledger is_fresh trivial fun _ _ => trivial
  rw [Ledger.archive, unknown] at opened
  unfold addAgent
  rw [eq]
  exact shows_agentCreated shows.threadId shows.complete shows.status (shows.agents.put opened rfl)
    shows.runs shows.items shows.interactions shows.tasks

theorem shows_announce (shows : Shows w.state view) (tree : TreeSound ids w) {key : Key}
    {record : AgentRecord} (known : w.state.agents.get? key = some record) :
    Shows w.state (foldPayload view (.agentCreated record.agent)) := by
  have held : HoldsAgent w.state record.agent.id record := .inr ⟨key, known, rfl⟩
  exact shows_agentCreated shows.threadId shows.complete shows.status
    (shows.agents.put (Ledger.holds_iff_self tree.ledger held) rfl) shows.runs shows.items
    shows.interactions shows.tasks

theorem shows_setStatus (shows : Shows w.state view) (tree : TreeSound ids w) {key : Key}
    {record : AgentRecord} (known : w.state.agents.get? key = some record) (status : AgentStatus)
    (relevant : Bool) :
    Shows { w.state with agents := w.state.agents.modify key fun record => { record with
        agent := { record.agent with status }
        completionRelevant := some relevant } }
      (foldPayload view (.agentStatus record.agent.id status relevant)) := by
  obtain ⟨c, found, copies⟩ := (shows.agents record.agent.id).1 record (.inr ⟨key, known, rfl⟩)
  simp only [foldPayload, Dictionary.modify_of_get? found]
  have agents := shows.putAgent
    { w.state with agents := w.state.agents.modify key fun record => { record with
        agent := { record.agent with status }
        completionRelevant := some relevant } } tree known rfl rfl
    (c := { c with status }) (by rw [CopiesAgent, copies]; rfl)
  exact ⟨shows.threadId, shows.complete, shows.status, agents, shows.runs, shows.items,
    shows.interactions, shows.tasks⟩

/-! ### Items -/

theorem holds_writeItem (rows : RowSound ids w) {key : Key} {item : Value}
    (identity : KeepsIdentity ids w key item) (id : String) (row : Value) :
    Ledger.Holds Item.id (w.state.items.put key item) .empty id row ↔
      if id = Item.id item then row = item else Ledger.Holds Item.id w.state.items .empty id row := by
  unfold KeepsIdentity at identity
  split at identity
  next previous known =>
    rw [identity.1]
    exact Ledger.holds_replace rows.items known identity.1 id row
  next unknown =>
    have opened : Ledger.Holds Item.id (w.state.items.put key item)
        (Ledger.archive Item.id w.state.items .empty key) id row ↔ _ :=
      Ledger.holds_open rows.items identity.2 identity.1 (fun _ _ => trivial) id row
    rw [Ledger.archive, unknown] at opened
    exact opened

theorem copiesItem_refreshed {previous c item : Value} (copies : CopiesItem c previous)
    (same : Item.createdAt item = Item.createdAt previous) :
    CopiesItem (item.json.setField "createdAt" (Item.createdAt c)) item := by
  intro path _
  apply observe_setField_unseen
  rintro rest rfl
  have time : IsCopy (c.field "createdAt") (previous.field "createdAt") :=
    copies.field (by decide)
  rw [field_json, ← Item.createdAt, same]
  exact time rest

theorem shows_foldItem (shows : Shows w.state view) (rows : RowSound ids w) {key : Key}
    {item : Value} (identity : KeepsIdentity ids w key item) (created : Bool)
    (indexes : LiveIndexes) :
    Shows { w.state with items := w.state.items.put key item, indexes }
      (foldItem view item created) := by
  have holds := holds_writeItem rows identity
  have copied : ∃ c itemOrder, foldItem view item created =
      { view with itemOrder, items := view.items.put (Item.id item) c } ∧ CopiesItem c item := by
    unfold foldItem
    simp only [shows.complete, Option.isSome_none, Bool.and_false, Bool.false_and,
      Bool.false_eq_true, if_false]
    split
    next => exact ⟨item.json, _, rfl, copyOn_json _ item⟩
    next c found =>
      -- A client knows the item, so the write replaces the one it copied.
      obtain ⟨row, held⟩ := (shows.items (Item.id item)).2 (by simp [found])
      unfold KeepsIdentity at identity
      split at identity
      next previous known =>
        have was : Ledger.Holds Item.id w.state.items .empty (Item.id item) previous :=
          .inr ⟨key, known, identity.1.symm⟩
        obtain ⟨c', found', copies⟩ := (shows.items (Item.id item)).1 previous was
        rw [found] at found'
        cases found'
        exact ⟨_, view.itemOrder, rfl, copiesItem_refreshed copies identity.2.2.1⟩
      next =>
        rcases held with archived | ⟨k, known, is_id⟩
        · simp at archived
        · exact absurd is_id (identity.2.2 k row known)
  obtain ⟨c, itemOrder, eq, copies⟩ := copied
  rw [eq]
  exact ⟨shows.threadId, shows.complete, shows.status, shows.agents, shows.runs,
    shows.items.put holds copies, shows.interactions, shows.tasks⟩

theorem shows_textDelta (shows : Shows w.state view) (rows : RowSound ids w) {key : Key}
    {item next : Value} {field : DeltaField} {text : String}
    (known : w.state.items.get? key = some item) (content : field ≠ .output)
    (applied : applyDelta item field text = some next) (agentId : String) :
    Shows { w.state with items := w.state.items.put key next }
      (foldPayload view (.itemDelta (Item.id item) agentId field text)) := by
  have edits := edits_applyDelta (rows.shape key item known) applied
  have same_id : Item.id next = Item.id item := by
    simp only [Item.id, edits.front "id" (by decide)]
  have holds := Ledger.holds_replace rows.items known same_id
  have items := shows.items.modify (.inr ⟨key, known, rfl⟩) holds
    (f := fun c => (applyDelta c field text).getD c)
    fun c _ copies => CopiesItem.delta copies content applied
  exact ⟨shows.threadId, shows.complete, shows.status, shows.agents, shows.runs, items,
    shows.interactions, shows.tasks⟩

theorem shows_outputDelta (shows : Shows w.state view) (rows : RowSound ids w) {key : Key}
    {item : Value} (known : w.state.items.get? key = some item) (agentId chunk : String) :
    Shows w.state (foldPayload view (.itemDelta (Item.id item) agentId .output chunk)) := by
  have held : Ledger.Holds Item.id w.state.items .empty (Item.id item) item :=
    .inr ⟨key, known, rfl⟩
  have items := shows.items.modify held (Ledger.holds_iff_self rows.items held)
    (f := fun c => (applyDelta c .output chunk).getD c)
    fun c _ copies => CopiesItem.outputDelta copies chunk
  exact ⟨shows.threadId, shows.complete, shows.status, shows.agents, shows.runs, items,
    shows.interactions, shows.tasks⟩

theorem shows_output (shows : Shows w.state view) (rows : RowSound ids w) {key : Key}
    {item next : Value} {text : String} (known : w.state.items.get? key = some item)
    (applied : applyDelta item .output text = some next) :
    Shows { w.state with items := w.state.items.put key next } view := by
  have edits := edits_applyDelta (rows.shape key item known) applied
  have same_id : Item.id next = Item.id item := by
    simp only [Item.id, edits.front "id" (by decide)]
  have holds := Ledger.holds_replace rows.items known same_id
  have items := shows.items.replace (.inr ⟨key, known, rfl⟩) holds (by
    intro c copies
    unfold applyDelta at applied
    split at applied
    · cases applied
    · cases applied
      exact CopiesItem.setOutput_right copies _)
  exact ⟨shows.threadId, shows.complete, shows.status, shows.agents, shows.runs, items,
    shows.interactions, shows.tasks⟩

/-! ### Steps -/

variable (times : Nat → Nat)

def feedAll (times : Nat → Nat) (view : ThreadView) (payloads : List EventPayload) : ThreadView :=
  payloads.foldl (feed times) view

theorem shows_outputDeltas (shows : Shows w.state view) (rows : RowSound ids w) {key : Key}
    {item : Value} (known : w.state.items.get? key = some item) (agentId : String)
    (chunks : List String) :
    Shows w.state (feedAll times view
      (chunks.map (.itemDelta (Item.id item) agentId .output))) := by
  induction chunks generalizing view with
  | nil => exact shows
  | cons chunk chunks ih =>
    exact ih (shows.feed times (by simp) fun _ shows =>
      shows_outputDelta shows rows known agentId chunk)

/-- What was emitted between `w` and `w'` turns a view of `w` into one of `w'`. -/
def Announces (times : Nat → Nat) (w w' : Work) : Prop :=
  ∃ payloads, w'.events = w.events ++ payloads ∧
    ∀ view, Shows w.state view → Shows w'.state (feedAll times view payloads)

theorem Announces.refl (w : Work) : Announces times w w :=
  ⟨[], by simp, fun _ shows => shows⟩

theorem Announces.trans {w'' : Work} (h : Announces times w w') (h' : Announces times w' w'') :
    Announces times w w'' := by
  obtain ⟨first, events, shown⟩ := h
  obtain ⟨second, events', shown'⟩ := h'
  refine ⟨first ++ second, by rw [events', events, List.append_assoc], ?_⟩
  intro view shows
  have both := shown' _ (shown view shows)
  simpa [feedAll, List.foldl_append] using both

theorem announces_nothing (events : w'.events = w.events)
    (shown : ∀ view, Shows w.state view → Shows w'.state view) : Announces times w w' :=
  ⟨[], by simp [events], shown⟩

theorem announces_one (payload : EventPayload) (events : w'.events = w.events ++ [payload])
    (row : ∀ status, payload ≠ .threadUpdated status)
    (shown : ∀ view, Shows w.state view → Shows w'.state (foldPayload view payload)) :
    Announces times w w' :=
  ⟨[payload], events, fun _ shows => shows.feed times row shown⟩

/-- The same rows, whatever the records and indexes around them are. -/
structure SameRows (s s' : ThreadState) : Prop where
  threadId : s'.threadId = s.threadId
  status : s'.status = s.status
  agents : ∀ key, (s'.agents.get? key).map (·.agent) = (s.agents.get? key).map (·.agent)
  runs : s'.runs = s.runs
  items : s'.items = s.items
  work : SameWork s s'

theorem Shows.of_same {s s' : ThreadState} (shows : Shows s view) (same : SameRows s s') :
    Shows s' view where
  threadId := shows.threadId.trans same.threadId.symm
  complete := shows.complete
  status := shows.status.trans same.status.symm
  agents := mirrors_agents shows.agents same.agents
  runs := by
    rw [same.runs]
    exact shows.runs
  items := by
    rw [same.items]
    exact shows.items
  interactions := by
    rw [same.work.interactions, same.work.interactionHistory]
    exact shows.interactions
  tasks := by
    rw [same.work.tasks, same.work.taskHistory]
    exact shows.tasks

def NoInputIds (ids : IdSource) : Prop := ∀ n name, ids .item n ≠ "input:" ++ name

theorem shows_passiveEvent (shows : Shows w.state view) (rows : RowSound ids w)
    (named : NoInputIds ids) {payload : EventPayload} (passive : PassiveEvent payload) :
    Shows w.state (foldPayload view payload) := by
  cases payload with
  | inputAdmitted agentId nativeInputId commandId =>
    simp only [foldPayload]
    split
    next => exact shows
    next commandId _ =>
      have absent : view.items.get? ("input:" ++ commandId) = none := by
        cases found : view.items.get? ("input:" ++ commandId) with
        | none => rfl
        | some c =>
          obtain ⟨row, held⟩ := (shows.items ("input:" ++ commandId)).2 (by simp [found])
          obtain ⟨n, -, is_id⟩ := Ledger.Holds.was_drawn rows.items held
          exact absurd is_id.symm (named n commandId)
      rw [Dictionary.modify, absent]
      exact shows
  | contextSampled => exact shows
  | usageUpdated agentId usage =>
    simp only [foldPayload]
    split
    · exact ⟨shows.threadId, shows.complete, shows.status, shows.agents, shows.runs, shows.items,
        shows.interactions, shows.tasks⟩
    · exact ⟨shows.threadId, shows.complete, shows.status, shows.agents, shows.runs, shows.items,
        shows.interactions, shows.tasks⟩
  | _ => exact passive.elim

theorem TreeStep.announces (sound : Sound ids w) (named : NoInputIds ids)
    (step : TreeStep ids w w') : Announces times w w' := by
  cases step with
  | draw => exact announces_nothing times rfl fun _ shows => shows
  | passive s same =>
    refine announces_nothing times rfl fun _ shows => shows.of_same ?_
    exact ⟨same.threadId, same.status, fun key => by rw [same.agents], same.runs, same.items,
      same.interactions, same.interactionHistory, same.tasks, same.taskHistory⟩
  | passiveEvent payload passive =>
    refine announces_one times _ rfl ?_ fun _ shows =>
      shows_passiveEvent shows sound.rows named passive
    rintro status rfl
    exact passive
  | createAgent key id now unknown fresh =>
    exact announces_one times _ rfl (by simp) fun _ shows =>
      shows_createAgent shows sound.tree unknown fresh
  | touch key f soft =>
    exact announces_nothing times rfl fun _ shows => shows.of_same
      ⟨rfl, rfl, agents_modify_same soft.agent, rfl, rfl, rfl, rfl, rfl, rfl⟩
  | changeAgent key record changes known stays =>
    exact announces_one times _ rfl (by simp) fun _ shows =>
      shows_agentUpdated shows sound.tree known rfl rfl
  | move key record parentKey parentId clearsSpawn known parent parentKnown acyclic changes _ =>
    obtain ⟨indexes, eq⟩ := refreshAgentIndex_eq { w.state with
      agents := w.state.agents.modify key (movedRecord parentKey clearsSpawn changes) } key
      record.agent.parentId
    by_cases unchanged : changes = {}
    · subst unchanged
      refine announces_nothing times (by simp) fun _ shows => shows.of_same ?_
      simp only [Work.change_state, eq]
      exact ⟨rfl, rfl, agents_modify_same fun _ => rfl, rfl, rfl, rfl, rfl, rfl, rfl⟩
    · refine announces_one times (.agentUpdated record.agent.id changes) (by simp [unchanged]) (by simp) fun _ shows => ?_
      simp only [Work.change_state, eq]
      exact shows_agentUpdated shows sound.tree known rfl rfl
  | setRoot key known =>
    exact announces_nothing times rfl fun _ shows => shows.of_same
      ⟨rfl, rfl, fun _ => rfl, rfl, rfl, rfl, rfl, rfl, rfl⟩
  | announce key record known =>
    exact announces_one times _ rfl (by simp) fun _ shows => shows_announce shows sound.tree known
  | setStatus key record status relevant known =>
    exact announces_one times _ rfl (by simp) fun _ shows =>
      shows_setStatus shows sound.tree known status relevant
  | threadStatus status =>
    refine ⟨[.threadUpdated status], rfl, fun view shows => ?_⟩
    have fed : (feedAll times view [.threadUpdated status]) =
        { view with
          seq := view.seq + 1
          status
          activitySeq := some (view.seq + 1)
          updatedAt := times (view.seq + 1) } := by
      simp [feedAll, feed, applyEvent, updateThread, foldPayload]
    rw [fed]
    exact ⟨shows.threadId, shows.complete, rfl, shows.agents, shows.runs, shows.items,
      shows.interactions, shows.tasks⟩
  | writeItem key item liveTools openText pendingItemLinks shape identity =>
    by_cases stored : w.state.items.contains key = true
    · refine announces_one times _ (by rw [if_pos stored]; rfl) (by simp) fun _ shows => ?_
      exact shows_foldItem shows sound.rows identity false _
    · refine announces_one times _ (by rw [if_neg stored]; rfl) (by simp) fun _ shows => ?_
      exact shows_foldItem shows sound.rows identity true _
  | deltaItem key item next field text known applied =>
    refine ⟨_, rfl, fun view shows => ?_⟩
    by_cases content : field = .output
    · subst content
      rw [deltaEvents, if_pos rfl]
      exact shows_output (shows_outputDeltas times shows sound.rows known _ _) sound.rows known
        applied
    · rw [deltaEvents, if_neg content]
      exact shows.feed times (by simp) fun _ shows =>
        shows_textDelta shows sound.rows known content applied _

theorem shows_run {s s' : ThreadState} {runs : Dictionary Run} (shows : Shows s view)
    (stored : ∀ id, runs.get? id = s'.runs.get? id) (same : SameRows { s with runs := s'.runs } s') :
    Shows s' { view with runs } := by
  have between : Shows { s with runs := s'.runs } { view with runs } :=
    ⟨shows.threadId, shows.complete, shows.status, shows.agents, stored, shows.items,
      shows.interactions, shows.tasks⟩
  exact between.of_same same

theorem Shows.get?_put_run {s : ThreadState} (shows : Shows s view) (run : Run) (id : String) :
    (view.runs.put run.id run).get? id = (s.runs.put run.id run).get? id := by
  rw [Dictionary.get?_put, Dictionary.get?_put, shows.runs]

theorem Shows.get?_modify_run {s : ThreadState} (shows : Shows s view) {run : Run}
    (stored : s.runs.get? run.id = some run) (f : Run → Run) (id : String) :
    (view.runs.modify run.id f).get? id = (s.runs.put run.id (f run)).get? id := by
  rw [Dictionary.get?_modify, Dictionary.get?_put, shows.runs, shows.runs, stored]
  rfl

theorem storeRun_sameRows (s : ThreadState) (key : Key) (run : Run) :
    SameRows { s with runs := s.runs.put run.id run } { storeRun s key run with hasRun := true } := by
  unfold storeRun
  split
  · exact ⟨rfl, rfl, fun _ => rfl, rfl, rfl, rfl, rfl, rfl, rfl⟩
  · exact ⟨rfl, rfl, agents_modify_same fun _ => rfl, rfl, rfl, rfl, rfl, rfl, rfl⟩

theorem Step.announces (sound : Sound ids w) (named : NoInputIds ids) (step : Step ids w w') :
    Announces times w w' := by
  cases step with
  | tree step => exact step.announces times sound named
  | startRun key record run f known idle new active starts =>
    refine announces_one times _ rfl (by simp) fun view shows => ?_
    exact shows_run shows (shows.get?_put_run run)
      ⟨rfl, rfl, agents_modify_same fun r => (starts r).1, rfl, rfl, rfl, rfl, rfl, rfl⟩
  | recordRun key record run known new state endedBy trigger endedAt settled =>
    refine ⟨_, rfl, fun view shows => ?_⟩
    -- The run starts and ends at once: between its two events a client has it active.
    have started : Shows { w.state with runs := w.state.runs.put run.id run }
        (feed times view (.runStarted run)) :=
      shows.feed times (by simp) fun _ shows => shows_run shows (shows.get?_put_run run)
        ⟨rfl, rfl, fun _ => rfl, rfl, rfl, rfl, rfl, rfl, rfl⟩
    refine started.feed times (by simp) fun _ shows => ?_
    have sameRows := storeRun_sameRows w.state key (endedRun run state endedBy trigger endedAt)
    refine shows_run shows ?_ ?_
    · intro id
      show _ = (storeRun w.state key (endedRun run state endedBy trigger endedAt)).runs.get? id
      have runs : (storeRun w.state key (endedRun run state endedBy trigger endedAt)).runs =
        w.state.runs.put run.id (endedRun run state endedBy trigger endedAt) := sameRows.runs
      rw [runs, shows.get?_modify_run (by simp), Dictionary.get?_put, Dictionary.get?_put,
        Dictionary.get?_put]
      split <;> rfl
    · exact ⟨sameRows.threadId, sameRows.status, sameRows.agents, rfl, sameRows.items,
        sameRows.work.interactions, sameRows.work.interactionHistory, sameRows.work.tasks,
        sameRows.work.taskHistory⟩
  | endRun key record run f known active stored state endedBy trigger endedAt settled ends =>
    refine announces_one times _ rfl (by simp) fun view shows => ?_
    exact shows_run shows (shows.get?_modify_run stored _)
      ⟨rfl, rfl, agents_modify_same fun r => (ends r).1, rfl, rfl, rfl, rfl, rfl, rfl⟩
  | retrigger run trigger endedAt stored settled ended =>
    refine announces_one times _ rfl (by simp) fun view shows => ?_
    refine shows_run shows (fun id => ?_) ⟨rfl, rfl, fun _ => rfl, rfl, rfl, rfl, rfl, rfl, rfl⟩
    rw [shows.get?_modify_run stored]
    simp [ended]
  | openInteraction key interaction fresh pending free =>
    refine announces_one times _ rfl (by simp) fun view shows => ?_
    have holds := Ledger.holds_open sound.rows.interactions fresh.2 fresh.1 free
    simp only [Work.emit_state, Work.change_state, archiveInteraction_eq]
    exact ⟨shows.threadId, shows.complete, shows.status, shows.agents, shows.runs, shows.items,
      shows.interactions.put holds rfl, shows.tasks⟩
  | closeInteraction key interaction known open_ state closed resolution resolvedBy autoReviewed
      closedAt =>
    refine announces_one times _ rfl (by simp) fun view shows => ?_
    have holds : ∀ id row, Ledger.Holds Interaction.id
        (w.state.interactions.put key { interaction with
          state
          closedAt := some closedAt
          resolution := resolution.or interaction.resolution
          resolvedBy := resolvedBy.or interaction.resolvedBy
          autoReviewed := autoReviewed.or interaction.autoReviewed })
        w.state.interactionHistory id row ↔ _ :=
      Ledger.holds_replace sound.rows.interactions known rfl
    have interactions := shows.interactions.modify (.inr ⟨key, known, rfl⟩) holds
      (f := fun interaction => { interaction with
        state
        closedAt := some closedAt
        resolution := (resolution.map Value.json).or interaction.resolution
        resolvedBy := resolvedBy.or interaction.resolvedBy
        autoReviewed := autoReviewed.or interaction.autoReviewed })
      (by
        rintro c _ rfl
        cases resolution <;> rfl)
    exact ⟨shows.threadId, shows.complete, shows.status, shows.agents, shows.runs, shows.items,
      interactions, shows.tasks⟩
  | startTask key task fresh running free =>
    refine announces_one times _ rfl (by simp) fun view shows => ?_
    have holds := Ledger.holds_open sound.rows.tasks fresh.2 fresh.1 free
    simp only [Work.emit_state, Work.change_state, archiveTask_eq]
    exact ⟨shows.threadId, shows.complete, shows.status, shows.agents, shows.runs, shows.items,
      shows.interactions, shows.tasks.put holds rfl⟩
  | refineTask key task refined known running id still =>
    refine announces_one times _ rfl (by simp) fun view shows => ?_
    have holds := Ledger.holds_replace sound.rows.tasks known id
    rw [← id] at holds
    exact ⟨shows.threadId, shows.complete, shows.status, shows.agents, shows.runs, shows.items,
      shows.interactions, shows.tasks.put holds rfl⟩
  | settleTask key task known status endedAt settled unsettled uncertainTasks others marked =>
    refine announces_one times _ rfl (by simp) fun view shows => ?_
    have holds : ∀ id row, Ledger.Holds BackgroundTask.id
        (w.state.tasks.put key { task with status, endedAt := some endedAt })
        w.state.taskHistory id row ↔ _ :=
      Ledger.holds_replace sound.rows.tasks known rfl
    have tasks := shows.tasks.modify (.inr ⟨key, known, rfl⟩) holds
      (f := fun task => { task with status, endedAt := (some endedAt).or task.endedAt })
      (by
        rintro c _ rfl
        rfl)
    exact ⟨shows.threadId, shows.complete, shows.status, shows.agents, shows.runs, shows.items,
      shows.interactions, tasks⟩

theorem Steps.announces (sound : Sound ids w) (named : NoInputIds ids) (steps : Steps ids w w') :
    Announces times w w' := by
  induction steps with
  | refl => exact .refl times w
  | tail before step ih =>
    exact ih.trans times (step.announces times (Steps.sound sound before) named)

/-! ### Whole logs -/

theorem Calls.announces (fresh : FreshIds ids) (named : NoInputIds ids) {log : List EventPayload}
    (calls : Calls ids w log w') (sound : Sound ids w) (shows : Shows w.state view) :
    Shows w'.state (feedAll times view log) := by
  induction calls with
  | none => exact shows
  | apply before ctx same input returned ih =>
    subst same
    have sound' := (before.keep fresh sound).1
    obtain ⟨payloads, events, shown⟩ := Steps.announces times sound'.without_events named
      (apply_steps fresh input sound' returned)
    have next := shown _ ih
    rw [feedAll, List.foldl_append]
    rw [events]
    exact next

/-- A log as numbered events of one thread. -/
def numbered (threadId : String) (times : Nat → Nat) : Nat → List EventPayload → List Event
  | _, [] => []
  | seq, payload :: payloads =>
    { seq := seq + 1, threadId, at_ := times (seq + 1), payload } ::
      numbered threadId times (seq + 1) payloads

theorem foldPayload_place (view : ThreadView) (payload : EventPayload) :
    (foldPayload view payload).seq = view.seq ∧
      (foldPayload view payload).threadId = view.threadId := by
  cases payload with
  | agentCreated agent =>
    obtain ⟨agentChildren, eq⟩ := reparentAgent_tables view agent.id
      ((view.agents.get? agent.id).bind (·.parentId)) agent.parentId
    simp only [foldPayload, eq, and_self]
  | agentUpdated agentId changes =>
    simp only [foldPayload]
    split
    next => exact ⟨rfl, rfl⟩
    next agent _ =>
      split
      next parentId _ =>
        obtain ⟨agentChildren, eq⟩ := reparentAgent_tables view agentId agent.parentId parentId
        simp only [eq, and_self]
      next => exact ⟨rfl, rfl⟩
  | itemCreated item =>
    simp only [foldPayload, foldItem]
    split
    · exact ⟨rfl, rfl⟩
    · split <;> exact ⟨rfl, rfl⟩
  | itemUpdated item =>
    simp only [foldPayload, foldItem]
    split
    · exact ⟨rfl, rfl⟩
    · split <;> exact ⟨rfl, rfl⟩
  | inputAdmitted agentId nativeInputId commandId =>
    simp only [foldPayload]
    split <;> exact ⟨rfl, rfl⟩
  | usageUpdated agentId usage =>
    simp only [foldPayload]
    split <;> exact ⟨rfl, rfl⟩
  | _ => exact ⟨rfl, rfl⟩

theorem feed_place (view : ThreadView) (payload : EventPayload) :
    (feed times view payload).seq = view.seq + 1 ∧
      (feed times view payload).threadId = view.threadId := by
  unfold feed applyEvent
  simp only [Option.getD_none, ne_eq, not_true_eq_false, if_false, Nat.not_succ_le_self]
  obtain ⟨seq, threadId⟩ := foldPayload_place (updateThread { view with seq := view.seq + 1 }
    { seq := view.seq + 1, threadId := view.threadId, at_ := times (view.seq + 1), payload }) payload
  rw [seq, threadId]
  unfold updateThread
  split
  · exact ⟨rfl, rfl⟩
  · split <;> exact ⟨rfl, rfl⟩
  · exact ⟨rfl, rfl⟩

theorem foldEvents_numbered (view : ThreadView) (payloads : List EventPayload) :
    foldEvents view (numbered view.threadId times view.seq payloads) =
      feedAll times view payloads := by
  induction payloads generalizing view with
  | nil => rfl
  | cons payload payloads ih =>
    obtain ⟨seq, threadId⟩ := feed_place times view payload
    have rest := ih (feed times view payload)
    rw [seq, threadId] at rest
    exact rest

theorem shows_newThread (threadId : String) (rootAgent : Option RootAgentInit)
    (config : CoreConfig) :
    Shows (newThread threadId rootAgent config).state (createThreadView threadId .new) := by
  have empty : ∀ {α β : Type} {idOf : α → String} {same : β → α → Prop},
      Ledger.Mirrors (Ledger.Holds idOf .empty .empty) same .empty := by
    intro α β idOf same id
    constructor
    · rintro row (archived | ⟨_, known, _⟩) <;> simp_all
    · intro found
      simp at found
  exact ⟨rfl, rfl, rfl, empty, fun _ => rfl, empty, empty, empty⟩

/-- **Clients follow the reducer.** The numbered log of any calls, folded into an empty view,
shows the rows of the state that the calls lead to. -/
theorem shows_of_calls (fresh : FreshIds ids) (named : NoInputIds ids) {threadId : String}
    {rootAgent : Option RootAgentInit} {config : CoreConfig} {log : List EventPayload}
    (calls : Calls ids (newThread threadId rootAgent config) log w) :
    Shows w.state
      (foldEvents (createThreadView threadId .new) (numbered threadId times 0 log)) := by
  have fed := foldEvents_numbered times (createThreadView threadId .new) log
  have shown := calls.announces times fresh named (sound_newThread ids threadId rootAgent config)
    (shows_newThread threadId rootAgent config)
  rw [← fed] at shown
  exact shown

theorem noInputIds_sampleIds : NoInputIds sampleIds := by
  intro n name same
  have letters := congrArg String.toList same
  simp [sampleIds, List.replicate_succ] at letters

theorem shows_of_sample :
    ∃ log w, Calls sampleIds (newThread "thread" none sampleConfig) log w ∧
      w.state.items.keys = ["tool"] ∧ Shows w.state
        (foldEvents (createThreadView "thread" .new) (numbered "thread" id 0 log)) := by
  obtain ⟨log, w, calls, keys⟩ := calls_of_leadsTo
    (show leadsTo sampleIds sampleInputs (newThread "thread" none sampleConfig)
      (fun w => decide (w.state.items.keys = ["tool"])) = true by decide +kernel)
  exact ⟨log, w, calls, of_decide_eq_true keys,
    shows_of_calls id freshIds_sampleIds noInputIds_sampleIds calls⟩

/-- A notice with a list of one `undefined` in its raw data. -/
def holedNotice : Value := .obj [
  ("type", .str "item.upsert"), ("agent", .str "lead"), ("item", .str "note"),
  ("draft", .obj [("type", .str "notice"), ("level", .str "info"), ("text", .str "note"),
    ("raw", .arr [.obj [("type", .str "list"), ("data", .arr [.undefined])]])])]

def holePath : List Segment := [.member "raw", .element 0, .member "data", .element 0]

/-- Whether the view of `events` differs from the state's item `note` at `holePath`. -/
def differsAtHole (w : Work) : Bool :=
  match w.state.items.get? "note" with
  | none => false
  | some item =>
    match (foldEvents (createThreadView "thread" .new) (numbered "thread" id 0 w.events)).items.get?
        (Item.id item) with
    | none => false
    | some c => decide (c.observe holePath ≠ item.observe holePath)

/-- The state keeps the `undefined`, the client has a `null`. -/
theorem client_row_not_identical :
    FreshIds sampleIds ∧ NoInputIds sampleIds ∧
    ∃ log w item c, Calls sampleIds (newThread "thread" none sampleConfig) log w ∧
      w.state.items.get? "note" = some item ∧
      (foldEvents (createThreadView "thread" .new) (numbered "thread" id 0 log)).items.get?
        (Item.id item) = some c ∧
      OutsideOutput holePath ∧ c.observe holePath ≠ item.observe holePath := by
  refine ⟨freshIds_sampleIds, noInputIds_sampleIds, ?_⟩
  have ran : ∃ w, apply { now := 1, ids := sampleIds } holedNotice
      (newThread "thread" none sampleConfig) = .ok w ∧ differsAtHole w = true := by
    have checked : ((apply { now := 1, ids := sampleIds } holedNotice
        (newThread "thread" none sampleConfig)).toOption.any differsAtHole) = true := by
      decide +kernel
    cases returned : apply { now := 1, ids := sampleIds } holedNotice
        (newThread "thread" none sampleConfig) with
    | error fault => simp [returned, Except.toOption] at checked
    | ok w => exact ⟨w, rfl, by simpa [returned, Except.toOption] using checked⟩
  obtain ⟨w, returned, differs⟩ := ran
  have calls : Calls sampleIds (newThread "thread" none sampleConfig) w.events w := by
    simpa using Calls.none.apply { now := 1, ids := sampleIds } rfl holedNotice returned
  unfold differsAtHole at differs
  split at differs
  next => cases differs
  next item stored =>
    split at differs
    next => cases differs
    next c found =>
      exact ⟨w.events, w, item, c, calls, stored, found, outsideOutput_member (by decide) _,
        of_decide_eq_true differs⟩

end

end Ace
