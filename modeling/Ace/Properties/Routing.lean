import Ace.Relay.Routes
import Mathlib.Data.List.Count
import Mathlib.Data.List.Induction

/-!
# Routing over whole runs

Hosts register, clients ask for them and wait behind a ticket, and a ticket is joined, rejected,
given up or swept. Three collections are kept in step: the socket of each host id, the pending
tickets and the clients that wait.

## Main result

`routing_safe`
-/

namespace Ace.Relay

open Script

/-! ### What is followed -/

/-- The clients that a call brings in: the one that asks, or those that were recorded. -/
def Call.clients : Call → List String
  | .request socket .. => [socket]
  | .restore _ pending => pending.map (·.client)
  | _ => []

/-- The sockets that a call names as a host's. -/
def Call.hostSide : Call → List String
  | .register socket _ | .join socket .. => [socket]
  | .restore hosts _ => hosts.map (·.socket)
  | _ => []

/-- The tickets that a call issues, with the socket that each is offered to. -/
def Exchange.issues (o : RouteOptions) (exchange : Exchange) : List PendingTicket :=
  match exchange.call with
  | .request client _ _ now => exchange.actions.filterMap fun
    | .offer owner ticket => some { client, owner, ticket, expires := now + o.ticketTimeoutMs }
    | _ => none
  | .restore _ pending => pending
  | _ => []

/-- The clients whose ticket was offered: those of requests, and those that were recorded. -/
def Exchange.offered (exchange : Exchange) : List String :=
  match exchange.call, exchange.returned with
  | .request client .., .ok actions => actions.filterMap fun
    | .offer .. => some client
    | _ => none
  | .restore _ pending, .ok _ => pending.map (·.client)
  | _, _ => []

def RouteAction.closes (client : String) : RouteAction → Bool
  | .close socket .. => socket == client
  | _ => false

def RouteAction.pairs (client : String) : RouteAction → Bool
  | .pair client' _ => client' == client
  | _ => false

namespace History

def actions (history : History) : List RouteAction := history.exchanges.flatMap (·.actions)

def closes (history : History) (client : String) : Nat := history.actions.countP (·.closes client)

def pairs (history : History) (client : String) : Nat := history.actions.countP (·.pairs client)

end History

/-- A client waits behind a pending ticket. -/
def RelayRoutes.Awaits (s : RelayRoutes) (client : String) : Prop :=
  ∃ ticket entry, s.pending.get? ticket = some entry ∧ entry.client = client

structure Sound (s : RelayRoutes) (clients owners : List String) : Prop where
  owned : ∀ ticket entry, s.pending.get? ticket = some entry →
    ∃ hostId, s.hosts.get? hostId = some entry.owner
  waits : ∀ client, client ∈ s.waiting ↔ s.Awaits client
  unique : ∀ ticket entry ticket' entry', s.pending.get? ticket = some entry →
    s.pending.get? ticket' = some entry' → entry.client = entry'.client → ticket = ticket'
  known : ∀ client, s.Awaits client → client ∈ clients
  hosted : ∀ hostId socket, s.hosts.get? hostId = some socket → socket ∈ owners

theorem sound_empty : Sound {} [] [] := by
  refine ⟨by simp, fun client => ?_, by simp, ?_, by simp⟩
  · simp [RelayRoutes.Awaits]
  · rintro client ⟨ticket, entry, found, -⟩
    simp at found

/-! ### Tickets that are forgotten -/

/-- The tickets of `gone` entries are forgotten, with their clients. -/
structure Dropped (s s' : RelayRoutes) (gone : String → Pending → Prop) : Prop where
  pending : ∀ ticket entry, s'.pending.get? ticket = some entry ↔
    s.pending.get? ticket = some entry ∧ ¬gone ticket entry
  waiting : ∀ client, client ∈ s'.waiting ↔ client ∈ s.waiting ∧
    ∀ ticket entry, s.pending.get? ticket = some entry → gone ticket entry → entry.client ≠ client

section Dropped

variable {s s' : RelayRoutes} {clients owners : List String} {gone : String → Pending → Prop}

theorem Dropped.awaits (dropped : Dropped s s' gone) {client : String}
    (awaits : s'.Awaits client) : s.Awaits client := by
  obtain ⟨ticket, entry, found, same⟩ := awaits
  exact ⟨ticket, entry, ((dropped.pending ticket entry).mp found).1, same⟩

theorem Dropped.awaits_iff (dropped : Dropped s s' gone) (sound : Sound s clients owners)
    {ticket : String} {entry : Pending} (found : s.pending.get? ticket = some entry) :
    s'.Awaits entry.client ↔ ¬gone ticket entry := by
  constructor
  · rintro ⟨ticket', entry', found', same⟩
    obtain ⟨old, kept⟩ := (dropped.pending ticket' entry').mp found'
    obtain rfl := sound.unique ticket' entry' ticket entry old found same
    obtain rfl : entry' = entry := by
      rw [found] at old
      exact (Option.some.inj old).symm
    exact kept
  · intro kept
    exact ⟨ticket, entry, (dropped.pending ticket entry).mpr ⟨found, kept⟩, rfl⟩

theorem Sound.drop (sound : Sound s clients owners) (dropped : Dropped s s' gone)
    (owned : ∀ ticket entry, s.pending.get? ticket = some entry → ¬gone ticket entry →
      ∃ hostId, s'.hosts.get? hostId = some entry.owner)
    (hosted : ∀ hostId socket, s'.hosts.get? hostId = some socket → socket ∈ owners) :
    Sound s' clients owners := by
  refine ⟨?_, ?_, ?_, ?_, hosted⟩
  · intro ticket entry found
    obtain ⟨old, kept⟩ := (dropped.pending ticket entry).mp found
    exact owned ticket entry old kept
  · intro client
    rw [dropped.waiting client, sound.waits client]
    constructor
    · rintro ⟨⟨ticket, entry, found, rfl⟩, kept⟩
      exact (dropped.awaits_iff sound found).mpr fun is_gone => kept ticket entry found is_gone rfl
    · intro awaits
      refine ⟨dropped.awaits awaits, ?_⟩
      rintro ticket entry found is_gone rfl
      exact (dropped.awaits_iff sound found).mp awaits is_gone
  · intro ticket entry ticket' entry' found found' same
    exact sound.unique ticket entry ticket' entry' ((dropped.pending _ _).mp found).1
      ((dropped.pending _ _).mp found').1 same
  · intro client awaits
    exact sound.known client (dropped.awaits awaits)

theorem dropped_forget {ticket : String} {entry : Pending}
    (found : s.pending.get? ticket = some entry) :
    Dropped s (s.forget ticket entry.client) fun ticket' _ => ticket' = ticket := by
  constructor
  · intro ticket' entry'
    simp only [RelayRoutes.forget, Registry.get?_delete]
    split
    next same => simp [same]
    next other => simp [Ne.symm other]
  · intro client
    simp only [RelayRoutes.forget, mem_removeFrom]
    constructor
    · rintro ⟨waits, other⟩
      refine ⟨waits, ?_⟩
      rintro ticket' entry' found' rfl
      rw [found] at found'
      cases found'
      exact other.symm
    · rintro ⟨waits, others⟩
      exact ⟨waits, (others ticket entry found rfl).symm⟩

theorem Sound.forget (sound : Sound s clients owners) {ticket : String} {entry : Pending}
    (found : s.pending.get? ticket = some entry) :
    Sound (s.forget ticket entry.client) clients owners :=
  sound.drop (dropped_forget found) (fun ticket entry old _ => sound.owned ticket entry old)
    sound.hosted

theorem forgetAll_spec (gone : Pending → Bool) (notice : Pending → List RouteAction)
    (entries : List (String × Pending)) (nodup : (Assoc.keys entries).Nodup) (s : RelayRoutes) :
    (RelayRoutes.forgetAll gone notice entries s).1.hosts = s.hosts ∧
    (∀ ticket, (RelayRoutes.forgetAll gone notice entries s).1.pending.get? ticket =
      if (Assoc.get? entries ticket).any gone then none else s.pending.get? ticket) ∧
    (∀ client, client ∈ (RelayRoutes.forgetAll gone notice entries s).1.waiting ↔
      client ∈ s.waiting ∧ ∀ entry ∈ entries, gone entry.2 → entry.2.client ≠ client) ∧
    (RelayRoutes.forgetAll gone notice entries s).2 =
      (entries.filter (gone ·.2)).flatMap (notice ·.2) := by
  induction entries generalizing s with
  | nil => simp [RelayRoutes.forgetAll, Assoc.get?]
  | cons first rest ih =>
    obtain ⟨ticket, entry⟩ := first
    rw [Assoc.keys, List.map_cons, List.nodup_cons] at nodup
    by_cases is_gone : gone entry = true
    · obtain ⟨hosts, pending, waiting, actions⟩ := ih nodup.2 (s.forget ticket entry.client)
      simp only [RelayRoutes.forgetAll, is_gone, if_true]
      refine ⟨hosts, fun ticket' => ?_, fun client => ?_, ?_⟩
      · rw [pending, Assoc.get?]
        by_cases same : ticket = ticket'
        · simp [same, RelayRoutes.forget, is_gone]
        · simp [same, RelayRoutes.forget, Registry.get?_delete_ne]
      · rw [waiting]
        simp only [RelayRoutes.forget, mem_removeFrom, List.forall_mem_cons, is_gone, forall_const]
        tauto
      · simp [actions, is_gone]
    · obtain ⟨hosts, pending, waiting, actions⟩ := ih nodup.2 s
      simp only [RelayRoutes.forgetAll, is_gone]
      refine ⟨hosts, fun ticket' => ?_, fun client => ?_, ?_⟩
      · rw [if_neg (by simp), pending, Assoc.get?]
        by_cases same : ticket = ticket'
        · subst same
          have absent : Assoc.get? rest ticket = none := by
            rw [← Option.not_isSome_iff_eq_none, Assoc.get?_isSome_iff]
            exact nodup.1
          simp [absent, is_gone]
        · simp [same]
      · rw [if_neg (by simp), waiting]
        simp [is_gone]
      · simp [actions, is_gone]

theorem dropped_forgetAll (gone : Pending → Bool) (notice : Pending → List RouteAction)
    (s : RelayRoutes) :
    Dropped s (RelayRoutes.forgetAll gone notice s.pending.entries s).1
      fun _ entry => gone entry = true := by
  obtain ⟨-, pending, waiting, -⟩ := forgetAll_spec gone notice s.pending.entries s.pending.nodup s
  constructor
  · intro ticket entry
    rw [pending, show Assoc.get? s.pending.entries ticket = s.pending.get? ticket from rfl]
    cases found : s.pending.get? ticket with
    | none => simp
    | some entry' =>
      by_cases is_gone : gone entry' = true
      · simp only [Option.any_some, is_gone, if_true, reduceCtorEq, Option.some.injEq, false_iff]
        rintro ⟨rfl, kept⟩
        exact kept is_gone
      · simp only [Option.any_some, is_gone, Option.some.injEq]
        constructor
        · rintro ⟨rfl⟩
          exact ⟨rfl, is_gone⟩
        · rintro ⟨rfl, -⟩
          rfl
  · intro client
    rw [waiting]
    constructor
    · rintro ⟨waits, others⟩
      exact ⟨waits, fun ticket entry found => others (ticket, entry)
        ((s.pending.mem_entries_iff ticket entry).mpr found)⟩
    · rintro ⟨waits, others⟩
      exact ⟨waits, fun (ticket, entry) member => others ticket entry
        ((s.pending.mem_entries_iff ticket entry).mp member)⟩

end Dropped

/-! ### What a call does to one client -/

/-- A client is left as it was, or its ticket is settled: it is paired or told to close. -/
structure Effect (s s' : RelayRoutes) (actions : List RouteAction) (client : String) : Prop where
  closes : actions.countP (·.closes client) + actions.countP (·.pairs client) ≤ 1
  settled : actions.countP (·.closes client) + actions.countP (·.pairs client) = 1 ↔
    s.Awaits client ∧ ¬s'.Awaits client
  awaits : s'.Awaits client → s.Awaits client

section Effect

variable {s s' : RelayRoutes} {clients owners : List String} {client : String}

theorem Effect.still (same : s'.Awaits client ↔ s.Awaits client) {actions : List RouteAction}
    (none : ∀ action ∈ actions, action.closes client = false ∧ action.pairs client = false) :
    Effect s s' actions client := by
  have no_close : actions.countP (·.closes client) = 0 :=
    List.countP_eq_zero.mpr fun action member => by simp [(none action member).1]
  have no_pair : actions.countP (·.pairs client) = 0 :=
    List.countP_eq_zero.mpr fun action member => by simp [(none action member).2]
  refine ⟨by omega, ?_, same.mp⟩
  rw [no_close, no_pair, same]
  simp

theorem Sound.nodup_clients (sound : Sound s clients owners) :
    (s.pending.entries.map (·.2.client)).Nodup := by
  refine List.Nodup.map_on ?_ (List.Nodup.of_map _ s.pending.nodup)
  rintro ⟨ticket, entry⟩ member ⟨ticket', entry'⟩ member' same
  have found := (s.pending.mem_entries_iff ticket entry).mp member
  have found' := (s.pending.mem_entries_iff ticket' entry').mp member'
  obtain rfl := sound.unique ticket entry ticket' entry' found found' same
  rw [found] at found'
  cases found'
  rfl

theorem effect_forgetAll (sound : Sound s clients owners) (gone : Pending → Bool)
    (notice : Pending → List RouteAction)
    (closes : ∀ entry, (notice entry).countP (·.closes client) =
      if entry.client = client then 1 else 0)
    (no_pair : ∀ entry, (notice entry).countP (·.pairs client) = 0)
    (dropped : Dropped s s' fun _ entry => gone entry = true) :
    Effect s s' ((s.pending.entries.filter (gone ·.2)).flatMap (notice ·.2)) client := by
  have told : ∀ entries : List (String × Pending),
      (entries.flatMap (notice ·.2)).countP (·.closes client) =
        (entries.map (·.2.client)).count client ∧
      (entries.flatMap (notice ·.2)).countP (·.pairs client) = 0 := by
    intro entries
    induction entries with
    | nil => simp
    | cons entry rest ih =>
      rw [List.flatMap_cons, List.countP_append, List.countP_append, ih.1, ih.2, closes, no_pair,
        List.map_cons, List.count_cons]
      simp only [beq_iff_eq, Nat.add_zero, and_true]
      omega
  obtain ⟨all, none⟩ := told (s.pending.entries.filter (gone ·.2))
  have once : ((s.pending.entries.filter (gone ·.2)).map (·.2.client)).count client ≤ 1 :=
    List.nodup_iff_count_le_one.mp
      ((List.filter_sublist.map _).nodup sound.nodup_clients) client
  refine ⟨by omega, ?_, dropped.awaits⟩
  rw [all, none, Nat.add_zero]
  constructor
  · intro told
    have is_told : 0 < ((s.pending.entries.filter (gone ·.2)).map (·.2.client)).count client := by
      omega
    obtain ⟨⟨ticket, entry⟩, member, rfl⟩ := List.mem_map.mp (List.count_pos_iff.mp is_told)
    obtain ⟨member, is_gone⟩ := List.mem_filter.mp member
    have found := (s.pending.mem_entries_iff ticket entry).mp member
    refine ⟨⟨ticket, entry, found, rfl⟩, ?_⟩
    rw [dropped.awaits_iff sound found]
    exact not_not_intro is_gone
  · rintro ⟨⟨ticket, entry, found, rfl⟩, settled⟩
    rw [dropped.awaits_iff sound found, not_not] at settled
    refine Nat.le_antisymm once (List.count_pos_iff.mpr (List.mem_map.mpr ⟨(ticket, entry), ?_, rfl⟩))
    exact List.mem_filter.mpr ⟨(s.pending.mem_entries_iff ticket entry).mpr found, settled⟩

theorem effect_forget (sound : Sound s clients owners) {ticket : String} {entry : Pending}
    (found : s.pending.get? ticket = some entry) {actions : List RouteAction}
    (told : actions.countP (·.closes client) + actions.countP (·.pairs client) =
      if entry.client = client then 1 else 0) :
    Effect s (s.forget ticket entry.client) actions client := by
  have dropped := dropped_forget found
  refine ⟨by rw [told]; split <;> omega, ?_, dropped.awaits⟩
  rw [told]
  split
  next same =>
    subst same
    rw [dropped.awaits_iff sound found]
    simp only [not_true, not_false_iff, and_true, true_iff]
    exact ⟨ticket, entry, found, rfl⟩
  next other =>
    simp only [Nat.zero_ne_one, false_iff, not_and, not_not]
    rintro ⟨ticket', entry', found', rfl⟩
    rw [dropped.awaits_iff sound found']
    rintro rfl
    rw [found] at found'
    cases found'
    exact other rfl

/-! ### Sockets that close -/

theorem get?_hosts_close (socket : String) (entries : List (String × String))
    (hosts : Registry String) (hostId : String) :
    (entries.foldl (fun hosts (id, owner) => if owner = socket then hosts.delete id else hosts)
      hosts).get? hostId =
      if (hostId, socket) ∈ entries then none else hosts.get? hostId := by
  induction entries generalizing hosts with
  | nil => simp
  | cons first rest ih =>
    obtain ⟨id, owner⟩ := first
    rw [List.foldl_cons, ih]
    by_cases mine : owner = socket
    · subst mine
      by_cases same : id = hostId
      · subst same
        simp
      · simp [Registry.get?_delete_ne _ same, Ne.symm same]
    · simp [mine, Ne.symm mine]

theorem hosts_close (s : RelayRoutes) (socket hostId owner : String) :
    (s.close socket).1.hosts.get? hostId = some owner ↔
      s.hosts.get? hostId = some owner ∧ owner ≠ socket := by
  obtain ⟨hosts, -⟩ := forgetAll_spec
    (fun entry => entry.client = socket || entry.owner = socket)
    (fun entry => if entry.client ≠ socket then [.close entry.client 1008 "Host disconnected"]
      else []) s.pending.entries s.pending.nodup
    { s with
      hosts := s.hosts.entries.foldl (fun hosts (id, owner) =>
        if owner = socket then hosts.delete id else hosts) s.hosts
      waiting := removeFrom s.waiting socket }
  rw [RelayRoutes.close, hosts, get?_hosts_close]
  split
  next mine =>
    rw [(s.hosts.mem_entries_iff hostId socket).mp mine]
    simp only [reduceCtorEq, Option.some.injEq, false_iff, not_and, not_not]
    exact Eq.symm
  next other =>
    simp only [iff_self_and]
    rintro found rfl
    exact other ((s.hosts.mem_entries_iff hostId owner).mpr found)

theorem dropped_close (sound : Sound s clients owners) (hosts : Registry String)
    (socket : String) :
    Dropped s (RelayRoutes.close { s with hosts } socket).1 fun _ entry =>
      (entry.client = socket || entry.owner = socket : Bool) = true := by
  obtain ⟨pending, waiting⟩ := dropped_forgetAll
    (fun entry => entry.client = socket || entry.owner = socket)
    (fun entry => if entry.client ≠ socket then [.close entry.client 1008 "Host disconnected"]
      else [])
    { s with
      hosts := hosts.entries.foldl (fun hosts (id, owner) =>
        if owner = socket then hosts.delete id else hosts) hosts
      waiting := removeFrom s.waiting socket }
  refine ⟨pending, fun client => (waiting client).trans ?_⟩
  rw [mem_removeFrom]
  constructor
  · rintro ⟨⟨waits, -⟩, others⟩
    exact ⟨waits, others⟩
  · rintro ⟨waits, others⟩
    refine ⟨⟨waits, ?_⟩, others⟩
    -- the socket itself waits behind a ticket only if that ticket goes too
    rintro rfl
    obtain ⟨ticket, entry, found, same⟩ := (sound.waits client).mp waits
    exact others ticket entry found (by simp [same]) same

theorem actions_close (s : RelayRoutes) (socket : String) :
    (s.close socket).2 =
      (s.pending.entries.filter fun entry => entry.2.client = socket || entry.2.owner = socket).flatMap
        fun entry => if entry.2.client ≠ socket then
          [.close entry.2.client 1008 "Host disconnected"] else [] :=
  (forgetAll_spec _ _ s.pending.entries s.pending.nodup _).2.2.2

theorem effect_close (sound : Sound s clients owners) (hosts : Registry String)
    {socket : String} (other : client ≠ socket) :
    Effect s (RelayRoutes.close { s with hosts } socket).1
      (RelayRoutes.close { s with hosts } socket).2 client := by
  rw [actions_close]
  refine effect_forgetAll sound (fun entry => entry.client = socket || entry.owner = socket)
    (fun entry => if entry.client ≠ socket then [.close entry.client 1008 "Host disconnected"]
      else []) ?_ ?_ (dropped_close sound hosts socket)
  · intro entry
    by_cases same : entry.client = client
    · simp [same, other, RouteAction.closes]
    · split
      · simp [RouteAction.closes, same]
      · simp
  · intro entry
    split
    · simp [RouteAction.pairs]
    · rfl

theorem not_awaits_close (sound : Sound s clients owners) (hosts : Registry String)
    (socket : String) : ¬(RelayRoutes.close { s with hosts } socket).1.Awaits socket := by
  rintro ⟨ticket, entry, found, same⟩
  have kept := ((dropped_close sound hosts socket).pending ticket entry).mp found
  simp [same] at kept

theorem Sound.close (sound : Sound s clients owners) (socket : String) :
    Sound (s.close socket).1 clients owners := by
  refine sound.drop (dropped_close sound s.hosts socket) ?_ ?_
  · intro ticket entry found kept
    obtain ⟨hostId, owner⟩ := sound.owned ticket entry found
    refine ⟨hostId, (hosts_close s socket hostId entry.owner).mpr ⟨owner, ?_⟩⟩
    rintro same
    simp [same] at kept
  · intro hostId owner found
    exact sound.hosted hostId owner ((hosts_close s socket hostId owner).mp found).1

/-! ### The other calls -/

theorem Sound.mono (sound : Sound s clients owners) {clients' owners' : List String}
    (more : clients ⊆ clients') (more' : owners ⊆ owners') : Sound s clients' owners' :=
  ⟨sound.owned, sound.waits, sound.unique, fun client awaits => more (sound.known client awaits),
    fun hostId socket found => more' (sound.hosted hostId socket found)⟩

theorem Sound.await (sound : Sound s clients owners) {ticket : String} {entry : Pending}
    (vacant : s.pending.get? ticket = none) (new : ¬s.Awaits entry.client)
    (owned : ∃ hostId, s.hosts.get? hostId = some entry.owner) (known : entry.client ∈ clients) :
    Sound (s.await ticket entry) clients owners := by
  have cases_await : ∀ ticket' entry', (s.await ticket entry).pending.get? ticket' = some entry' →
      (ticket' = ticket ∧ entry' = entry) ∨ s.pending.get? ticket' = some entry' := by
    intro ticket' entry' found
    simp only [RelayRoutes.await, Registry.get?_set] at found
    split at found
    next same => exact .inl ⟨same.symm, (Option.some.inj found).symm⟩
    next => exact .inr found
  refine ⟨?_, ?_, ?_, ?_, sound.hosted⟩
  · intro ticket' entry' found
    rcases cases_await ticket' entry' found with ⟨-, rfl⟩ | old
    · exact owned
    · exact sound.owned ticket' entry' old
  · intro client
    rw [RelayRoutes.await, mem_addTo, sound.waits client]
    constructor
    · rintro (⟨ticket', entry', found, rfl⟩ | rfl)
      · refine ⟨ticket', entry', (Registry.get?_set_ne _ _ ?_).trans found, rfl⟩
        rintro rfl
        rw [vacant] at found
        cases found
      · exact ⟨ticket, entry, Registry.get?_set_self .., rfl⟩
    · rintro ⟨ticket', entry', found, rfl⟩
      rcases cases_await ticket' entry' found with ⟨-, rfl⟩ | old
      · exact .inr rfl
      · exact .inl ⟨ticket', entry', old, rfl⟩
  · intro ticket₁ entry₁ ticket₂ entry₂ found₁ found₂ same
    rcases cases_await ticket₁ entry₁ found₁ with ⟨rfl, rfl⟩ | old₁ <;>
      rcases cases_await ticket₂ entry₂ found₂ with ⟨rfl, rfl⟩ | old₂
    · rfl
    · exact absurd ⟨ticket₂, entry₂, old₂, same.symm⟩ new
    · exact absurd ⟨ticket₁, entry₁, old₁, same⟩ new
    · exact sound.unique ticket₁ entry₁ ticket₂ entry₂ old₁ old₂ same
  · rintro client ⟨ticket', entry', found, rfl⟩
    rcases cases_await ticket' entry' found with ⟨-, rfl⟩ | old
    · exact known
    · exact sound.known _ ⟨ticket', entry', old, rfl⟩

theorem awaits_await (s : RelayRoutes) {ticket : String} {entry : Pending}
    (vacant : s.pending.get? ticket = none) (client : String) :
    (s.await ticket entry).Awaits client ↔ s.Awaits client ∨ client = entry.client := by
  constructor
  · rintro ⟨ticket', entry', found, rfl⟩
    simp only [RelayRoutes.await, Registry.get?_set] at found
    split at found
    next =>
      cases found
      exact .inr rfl
    next => exact .inl ⟨ticket', entry', found, rfl⟩
  · rintro (⟨ticket', entry', found, rfl⟩ | rfl)
    · refine ⟨ticket', entry', (Registry.get?_set_ne _ _ ?_).trans found, rfl⟩
      rintro rfl
      rw [vacant] at found
      cases found
    · exact ⟨ticket, entry, Registry.get?_set_self .., rfl⟩

theorem Sound.sweep (sound : Sound s clients owners) (now : Int) :
    Sound (s.sweep now).1 clients owners := by
  have hosts : (s.sweep now).1.hosts = s.hosts :=
    (forgetAll_spec _ _ s.pending.entries s.pending.nodup s).1
  refine sound.drop (dropped_forgetAll _ _ s) ?_ ?_
  · intro ticket entry found _
    rw [hosts]
    exact sound.owned ticket entry found
  · rw [hosts]
    exact sound.hosted

theorem effect_sweep (sound : Sound s clients owners) (now : Int) :
    Effect s (s.sweep now).1 (s.sweep now).2 client := by
  rw [show (s.sweep now).2 = _ from (forgetAll_spec _ _ s.pending.entries s.pending.nodup s).2.2.2]
  refine effect_forgetAll sound (fun entry => entry.expires ≤ now)
    (fun entry => [.close entry.client 1008 "Ticket expired"]) ?_ ?_ (dropped_forgetAll _ _ s)
  · intro entry
    simp [RouteAction.closes, List.countP_cons]
  · intro entry
    simp [RouteAction.pairs]

theorem Sound.join (sound : Sound s clients owners) (socket ticket : String) (now : Int) :
    Sound (s.join socket ticket now).1 clients owners := by
  unfold RelayRoutes.join
  split
  next => exact sound
  next entry found => exact sound.forget found

theorem effect_join (sound : Sound s clients owners) {socket : String} (ticket : String)
    (now : Int) (other : client ≠ socket) :
    Effect s (s.join socket ticket now).1 (s.join socket ticket now).2 client := by
  unfold RelayRoutes.join
  split
  next => exact .still Iff.rfl (by simp [RouteAction.closes, RouteAction.pairs, other.symm])
  next entry found =>
    refine effect_forget sound found ?_
    split
    · simp [RouteAction.closes, RouteAction.pairs, List.countP_cons, other.symm]
    · simp [RouteAction.closes, RouteAction.pairs, List.countP_cons]

theorem Sound.reject (sound : Sound s clients owners) (owner ticket : String) :
    Sound (s.reject owner ticket).1 clients owners := by
  unfold RelayRoutes.reject
  split
  next => exact sound
  next entry found =>
    split
    · exact sound
    · exact sound.forget found

theorem effect_reject (sound : Sound s clients owners) (owner ticket : String) :
    Effect s (s.reject owner ticket).1 (s.reject owner ticket).2 client := by
  unfold RelayRoutes.reject
  split
  next => exact .still Iff.rfl (by simp)
  next entry found =>
    split
    · exact .still Iff.rfl (by simp)
    · apply effect_forget sound found
      simp [RouteAction.closes, RouteAction.pairs, List.countP_cons]

theorem Effect.append {actions : List RouteAction} (effect : Effect s s' actions client)
    {more : List RouteAction}
    (none : ∀ action ∈ more, action.closes client = false ∧ action.pairs client = false) :
    Effect s s' (actions ++ more) client := by
  have no_close : more.countP (·.closes client) = 0 :=
    List.countP_eq_zero.mpr fun action member => by simp [(none action member).1]
  have no_pair : more.countP (·.pairs client) = 0 :=
    List.countP_eq_zero.mpr fun action member => by simp [(none action member).2]
  obtain ⟨closes, settled, awaits⟩ := effect
  refine ⟨?_, ?_, awaits⟩
  · rw [List.countP_append, List.countP_append, no_close, no_pair]
    exact closes
  · rw [List.countP_append, List.countP_append, no_close, no_pair]
    exact settled

theorem Sound.register (sound : Sound s clients owners) (named : ∀ owner ∈ owners, owner ≠ "")
    (o : RouteOptions) (socket hostId : String) :
    Sound (s.register o socket hostId).1 clients (owners ++ [socket]) := by
  have wider := sound.mono (List.Subset.refl clients)
    (List.subset_append_left owners [socket])
  have hosted : ∀ hostId' owner, (s.hosts.set hostId socket).get? hostId' = some owner →
      owner ∈ owners ++ [socket] := by
    intro hostId' owner found
    rw [Registry.get?_set] at found
    split at found
    · cases found
      simp
    · exact wider.hosted hostId' owner found
  unfold RelayRoutes.register
  split
  · exact wider
  split
  · exact wider
  dsimp only
  split
  next previous replaced =>
    obtain ⟨found, truthy⟩ := Option.filter_eq_some_iff.mp replaced
    refine wider.drop (dropped_close wider (s.hosts.set hostId socket) previous) ?_ ?_
    · intro ticket entry pending kept
      obtain ⟨hostId', owned⟩ := sound.owned ticket entry pending
      have other_owner : entry.owner ≠ previous := by
        rintro same
        simp [same] at kept
      have other_host : hostId ≠ hostId' := by
        rintro rfl
        rw [found] at owned
        exact other_owner (Option.some.inj owned).symm
      exact ⟨hostId', (hosts_close _ previous hostId' entry.owner).mpr
        ⟨(Registry.get?_set_ne _ _ other_host).trans owned, other_owner⟩⟩
    · intro hostId' owner found'
      exact hosted hostId' owner ((hosts_close _ previous hostId' owner).mp found').1
  next kept =>
    refine ⟨?_, wider.waits, wider.unique, wider.known, hosted⟩
    intro ticket entry pending
    obtain ⟨hostId', owned⟩ := sound.owned ticket entry pending
    by_cases same : hostId = hostId'
    · -- the socket registers what it already stands for
      subst same
      have truthy : entry.owner ≠ "" := named _ (sound.hosted hostId _ owned)
      rw [owned] at kept
      have mine : entry.owner = socket := by simpa [truthy] using kept
      exact ⟨hostId, by rw [mine]; exact Registry.get?_set_self ..⟩
    · exact ⟨hostId', (Registry.get?_set_ne _ _ same).trans owned⟩

theorem effect_register (sound : Sound s clients owners) (o : RouteOptions) {socket : String}
    (hostId : String) (other : client ≠ socket) (peer : client ∉ owners) :
    Effect s (s.register o socket hostId).1 ((s.register o socket hostId).2.toOption.getD [])
      client := by
  unfold RelayRoutes.register
  split
  · exact .still Iff.rfl (by simp [Except.toOption])
  split
  · exact .still Iff.rfl
      (by simp [Except.toOption, RouteAction.closes, RouteAction.pairs, other.symm])
  dsimp only
  split
  next previous replaced =>
    obtain ⟨found, -⟩ := Option.filter_eq_some_iff.mp replaced
    have other' : client ≠ previous := by
      rintro rfl
      exact peer (sound.hosted hostId client found)
    refine (effect_close sound (s.hosts.set hostId socket) other').append ?_
    simp [RouteAction.closes, RouteAction.pairs, other'.symm]
  next =>
    apply Effect.still
    · exact Iff.rfl
    · simp [Except.toOption, RouteAction.closes, RouteAction.pairs]

theorem request_cases (o : RouteOptions) (s : RelayRoutes) (socket hostId ticket : String)
    (now : Int) :
    (∃ error, s.request o socket hostId ticket now = (s, .error error)) ∨
      s.request o socket hostId ticket now = (s, .ok [.close socket 1008 "Host unavailable"]) ∨
      ∃ owner, s.hosts.get? hostId = some owner ∧ s.pending.get? ticket = none ∧
        s.request o socket hostId ticket now =
          (s.await ticket { client := socket, owner, expires := now + o.ticketTimeoutMs },
            .ok [.offer owner ticket]) := by
  unfold RelayRoutes.request
  split
  · exact .inl ⟨_, rfl⟩
  split
  next => exact .inr (.inl rfl)
  next owner offered =>
    obtain ⟨found, -⟩ := Option.filter_eq_some_iff.mp offered
    split
    · exact .inl ⟨_, rfl⟩
    next vacant => exact .inr (.inr ⟨owner, found, by simpa using vacant, rfl⟩)

theorem Sound.request (sound : Sound s clients owners) (o : RouteOptions)
    {socket : String} (new : socket ∉ clients) (hostId ticket : String) (now : Int) :
    Sound (s.request o socket hostId ticket now).1 (clients ++ [socket]) owners := by
  have wider := sound.mono (List.subset_append_left clients [socket])
    (List.Subset.refl owners)
  rcases request_cases o s socket hostId ticket now with ⟨error, is⟩ | is | ⟨owner, found, vacant, is⟩
  · rw [is]
    exact wider
  · rw [is]
    exact wider
  · rw [is]
    apply wider.await vacant
    · exact fun awaits => new (sound.known socket awaits)
    · exact ⟨hostId, found⟩
    · simp

theorem effect_request (o : RouteOptions) (s : RelayRoutes) {socket : String}
    (hostId ticket : String) (now : Int) (other : client ≠ socket) :
    Effect s (s.request o socket hostId ticket now).1
      ((s.request o socket hostId ticket now).2.toOption.getD []) client := by
  rcases request_cases o s socket hostId ticket now with ⟨error, is⟩ | is | ⟨owner, -, vacant, is⟩
  · rw [is]
    exact .still Iff.rfl (by simp [Except.toOption])
  · rw [is]
    exact .still Iff.rfl
      (by simp [Except.toOption, RouteAction.closes, RouteAction.pairs, other.symm])
  · rw [is]
    apply Effect.still
    · rw [awaits_await s vacant]
      simp [other]
    · simp [Except.toOption, RouteAction.closes, RouteAction.pairs]

/-! ### Routes that are restored -/

theorem restoreHosts_cases (o : RouteOptions) (records : List HostRecord)
    (hosts : Registry String) (hostId socket : String)
    (found : (RelayRoutes.restoreHosts o records hosts).1.get? hostId = some socket) :
    hosts.get? hostId = some socket ∨ socket ∈ records.map (·.socket) := by
  induction records generalizing hosts with
  | nil => exact .inl found
  | cons record rest ih =>
    unfold RelayRoutes.restoreHosts at found
    split at found
    · rcases ih _ found with old | new
      · split at old
        · rw [Registry.get?_set] at old
          split at old
          · cases old
            exact .inr (by simp)
          · exact .inl old
        · exact .inl old
      · exact .inr (List.mem_cons_of_mem _ new)
    · exact .inl found

/-- What `restorePending` does with the records that it is given. -/
structure Restored (records : List PendingTicket) (s s' : RelayRoutes)
    (returned : Except RouteError (List RouteAction)) : Prop where
  hosts : s'.hosts = s.hosts
  origin : ∀ ticket entry, s'.pending.get? ticket = some entry →
    s.pending.get? ticket = some entry ∨ { toPending := entry, ticket } ∈ records
  keeps : ∀ client, s.Awaits client → s'.Awaits client
  no_pair : ∀ actions client, returned = .ok actions → actions.countP (·.pairs client) = 0
  quiet : ∀ actions client, returned = .ok actions → client ∉ records.map (·.client) →
    actions.countP (·.closes client) = 0
  fate : ∀ actions client, returned = .ok actions → client ∈ records.map (·.client) →
    ¬s.Awaits client →
    (s'.Awaits client ∧ actions.countP (·.closes client) = 0) ∨
      (¬s'.Awaits client ∧ actions.countP (·.closes client) = 1)

theorem Restored.awaits {records : List PendingTicket} {returned : Except RouteError _}
    (restored : Restored records s s' returned) (awaits : s'.Awaits client) :
    s.Awaits client ∨ client ∈ records.map (·.client) := by
  obtain ⟨ticket, entry, found, rfl⟩ := awaits
  rcases restored.origin ticket entry found with old | new
  · exact .inl ⟨ticket, entry, old, rfl⟩
  · exact .inr (List.mem_map.mpr ⟨_, new, rfl⟩)

theorem restored_restorePending (values : List String) (records : List PendingTicket)
    (nodup : (records.map (·.client)).Nodup) (s : RelayRoutes) :
    Restored records s (RelayRoutes.restorePending values records s).1
      (RelayRoutes.restorePending values records s).2 := by
  induction records generalizing s with
  | nil =>
    refine ⟨rfl, fun _ _ => .inl, fun _ => id, ?_, ?_, by simp⟩
    · rintro actions client ⟨⟩
      rfl
    · rintro actions client ⟨⟩ -
      rfl
  | cons record rest ih =>
    rw [List.map_cons, List.nodup_cons] at nodup
    unfold RelayRoutes.restorePending
    split
    · refine ⟨rfl, fun _ _ => .inl, fun _ => id, ?_, ?_, ?_⟩ <;> rintro actions client ⟨⟩
    split
    · -- the owner is gone or the ticket is taken: the client is closed
      have restored := ih nodup.2 s
      revert restored
      rcases RelayRoutes.restorePending values rest s with ⟨s', returned⟩
      intro restored
      refine ⟨restored.hosts, fun ticket entry found => ?_, restored.keeps, ?_, ?_, ?_⟩
      · exact (restored.origin ticket entry found).imp_right (List.mem_cons_of_mem _)
      all_goals
        intro actions client is_ok
        obtain ⟨rest_actions, rfl, rfl⟩ : ∃ rest_actions, returned = .ok rest_actions ∧
            .close record.client 1008 "Host disconnected" :: rest_actions = actions := by
          cases returned with
          | error => cases is_ok
          | ok rest_actions => exact ⟨rest_actions, rfl, Except.ok.inj is_ok⟩
      · rw [List.countP_cons, restored.no_pair rest_actions client rfl]
        rfl
      · intro absent
        rw [List.map_cons, List.mem_cons, not_or] at absent
        rw [List.countP_cons, restored.quiet rest_actions client rfl absent.2]
        simp [RouteAction.closes, Ne.symm absent.1]
      · intro member new
        rw [List.countP_cons]
        by_cases same : record.client = client
        · subst same
          refine .inr ⟨fun awaits => ?_, ?_⟩
          · rcases restored.awaits awaits with old | later
            · exact new old
            · exact nodup.1 later
          · rw [restored.quiet rest_actions record.client rfl nodup.1]
            simp [RouteAction.closes]
        · have later : client ∈ rest.map (·.client) := by
            rw [List.map_cons, List.mem_cons] at member
            exact member.resolve_left (Ne.symm same)
          simpa [RouteAction.closes, same] using restored.fate rest_actions client rfl later new
    next free =>
      have vacant : s.pending.get? record.ticket = none := by
        rw [Bool.or_eq_true, not_or] at free
        simpa using free.2
      have restored := ih nodup.2 (s.await record.ticket record.toPending)
      refine ⟨restored.hosts, ?_, ?_, restored.no_pair, ?_, ?_⟩
      · intro ticket entry found
        rcases restored.origin ticket entry found with old | new
        · simp only [RelayRoutes.await, Registry.get?_set] at old
          split at old
          next same =>
            subst same
            cases old
            exact .inr (by simp)
          next => exact .inl old
        · exact .inr (List.mem_cons_of_mem _ new)
      · intro client awaits
        exact restored.keeps client ((awaits_await s vacant client).mpr (.inl awaits))
      · intro actions client is_ok absent
        rw [List.map_cons, List.mem_cons, not_or] at absent
        exact restored.quiet actions client is_ok absent.2
      · intro actions client is_ok member new
        by_cases same : client = record.client
        · subst same
          exact .inl ⟨restored.keeps _ ((awaits_await s vacant _).mpr (.inr rfl)),
            restored.quiet actions _ is_ok nodup.1⟩
        · rw [List.map_cons, List.mem_cons] at member
          refine restored.fate actions client is_ok (member.resolve_left same) fun awaits => ?_
          rcases (awaits_await s vacant client).mp awaits with old | first
          · exact new old
          · exact same first

theorem Sound.restorePending {values : List String} (records : List PendingTicket)
    (sound : Sound s clients owners) (nodup : (records.map (·.client)).Nodup)
    (new : ∀ client ∈ records.map (·.client), ¬s.Awaits client)
    (known : records.map (·.client) ⊆ clients)
    (owned : ∀ owner ∈ values, ∃ hostId, s.hosts.get? hostId = some owner) :
    Sound (RelayRoutes.restorePending values records s).1 clients owners := by
  induction records generalizing s with
  | nil => exact sound
  | cons record rest ih =>
    rw [List.map_cons, List.nodup_cons] at nodup
    rw [List.map_cons, List.forall_mem_cons] at new
    rw [List.map_cons, List.cons_subset] at known
    unfold RelayRoutes.restorePending
    split
    · exact sound
    split
    · exact ih sound nodup.2 new.2 known.2 owned
    next free =>
      rw [Bool.or_eq_true, not_or] at free
      have vacant : s.pending.get? record.ticket = none := by simpa using free.2
      have owner : record.owner ∈ values := by simpa using free.1
      refine ih (sound.await vacant new.1 (owned _ owner) known.1) nodup.2 ?_ known.2 owned
      intro client member awaits
      rcases (awaits_await s vacant client).mp awaits with old | rfl
      · exact new.2 client member old
      · exact nodup.1 member

theorem restore_cases (o : RouteOptions) (s : RelayRoutes) (hosts : List HostRecord)
    (pending : List PendingTicket) :
    (∃ error, s.restore o hosts pending = (s, .error error)) ∨
      (∀ ticket, s.pending.get? ticket = none) ∧
        ((∃ error, s.restore o hosts pending =
          ({ s with hosts := (RelayRoutes.restoreHosts o hosts s.hosts).1 }, .error error)) ∨
        s.restore o hosts pending =
          RelayRoutes.restorePending (RelayRoutes.restoreHosts o hosts s.hosts).1.values pending
            { s with hosts := (RelayRoutes.restoreHosts o hosts s.hosts).1 }) := by
  unfold RelayRoutes.restore
  split
  · exact .inl ⟨_, rfl⟩
  next unused =>
    simp only [ne_eq, Bool.or_eq_true, decide_eq_true_eq, not_or, not_not] at unused
    have empty : s.pending.entries = [] := List.length_eq_zero_iff.mp unused.2
    refine .inr ⟨fun ticket => by rw [Registry.get?, empty]; rfl, ?_⟩
    rcases RelayRoutes.restoreHosts o hosts s.hosts with ⟨hosts', error | ⟨⟨⟩⟩⟩
    · exact .inl ⟨error, rfl⟩
    · exact .inr rfl

theorem mem_values {α : Type} (d : Registry α) {value : α} (member : value ∈ d.values) :
    ∃ key, d.get? key = some value := by
  obtain ⟨⟨key, value⟩, entry, rfl⟩ := List.mem_map.mp member
  exact ⟨key, (d.mem_entries_iff key value).mp entry⟩

theorem Sound.restore (sound : Sound s clients owners) (o : RouteOptions)
    (hosts : List HostRecord) {pending : List PendingTicket}
    (nodup : (pending.map (·.client)).Nodup) :
    Sound (s.restore o hosts pending).1 (clients ++ pending.map (·.client))
      (owners ++ hosts.map (·.socket)) := by
  have wider := sound.mono (List.subset_append_left clients (pending.map (·.client)))
    (List.subset_append_left owners (hosts.map (·.socket)))
  rcases restore_cases o s hosts pending with ⟨error, fails⟩ | ⟨empty, rest⟩
  · rw [fails]
    exact wider
  -- nothing is pending, so that nothing is owned yet
  have nobody : ∀ client, ¬s.Awaits client := by
    rintro client ⟨ticket, entry, found, -⟩
    rw [empty] at found
    cases found
  have started : Sound { s with hosts := (RelayRoutes.restoreHosts o hosts s.hosts).1 }
      (clients ++ pending.map (·.client)) (owners ++ hosts.map (·.socket)) := by
    refine ⟨fun ticket entry found => ?_, wider.waits, wider.unique, wider.known, ?_⟩
    · rw [show s.pending.get? ticket = none from empty ticket] at found
      cases found
    · intro hostId socket found
      rcases restoreHosts_cases o hosts s.hosts hostId socket found with old | new
      · exact List.mem_append_left _ (sound.hosted hostId socket old)
      · exact List.mem_append_right _ new
  rcases rest with ⟨error, fails⟩ | restores
  · rw [fails]
    exact started
  · rw [restores]
    exact started.restorePending pending nodup (fun client _ => nobody client)
      (List.subset_append_right ..) (fun owner => mem_values _)

/-! ### One call -/

theorem Sound.call (sound : Sound s clients owners) (named : ∀ owner ∈ owners, owner ≠ "")
    (o : RouteOptions) (call : Call) (nodup : call.clients.Nodup)
    (new : ∀ client ∈ call.clients, client ∉ clients) :
    Sound (s.call o call).1 (clients ++ call.clients) (owners ++ call.hostSide) := by
  cases call with
  | restore hosts pending => exact sound.restore o hosts nodup
  | register socket hostId =>
    simp only [Call.clients, List.append_nil]
    exact sound.register named o socket hostId
  | request socket hostId ticket now =>
    simp only [Call.hostSide, List.append_nil]
    exact sound.request o (new socket (by simp [Call.clients])) hostId ticket now
  | join socket ticket now =>
    simp only [Call.clients, List.append_nil]
    exact (sound.join socket ticket now).mono (List.Subset.refl _) (List.subset_append_left ..)
  | reject owner ticket =>
    simp only [Call.clients, Call.hostSide, List.append_nil]
    exact sound.reject owner ticket
  | close socket =>
    simp only [Call.clients, Call.hostSide, List.append_nil]
    exact sound.close socket
  | sweep now =>
    simp only [Call.clients, Call.hostSide, List.append_nil]
    exact sound.sweep now

theorem effect_call (sound : Sound s clients owners) (o : RouteOptions) {call : Call}
    (nodup : call.clients.Nodup) (asks : client ∉ call.clients) (peer : client ∉ owners) (peer' : client ∉ call.hostSide)
    (stays : call ≠ .close client) :
    Effect s (s.call o call).1 ((s.call o call).2.toOption.getD []) client := by
  cases call with
  | restore hosts pending =>
    rcases restore_cases o s hosts pending with ⟨error, fails⟩ | ⟨-, ⟨error, fails⟩ | restores⟩
    · rw [RelayRoutes.call, fails]
      exact .still Iff.rfl (by simp [Except.toOption])
    · rw [RelayRoutes.call, fails]
      apply Effect.still
      · exact Iff.rfl
      · simp [Except.toOption]
    · -- the records are not about this client
      rw [RelayRoutes.call, restores]
      have restored := restored_restorePending
        (RelayRoutes.restoreHosts o hosts s.hosts).1.values pending nodup
        { s with hosts := (RelayRoutes.restoreHosts o hosts s.hosts).1 }
      apply Effect.still
      · constructor
        · exact fun awaits => (restored.awaits awaits).resolve_right asks
        · exact restored.keeps client
      · intro action member
        cases returned : (RelayRoutes.restorePending
            (RelayRoutes.restoreHosts o hosts s.hosts).1.values pending
            { s with hosts := (RelayRoutes.restoreHosts o hosts s.hosts).1 }).2 with
        | error error => simp [returned, Except.toOption] at member
        | ok actions =>
          rw [returned] at member
          have no_close := List.countP_eq_zero.mp (restored.quiet actions client returned asks)
          have no_pair := List.countP_eq_zero.mp (restored.no_pair actions client returned)
          exact ⟨by simpa using no_close action member, by simpa using no_pair action member⟩
  | register socket hostId =>
    rw [Call.hostSide, List.mem_singleton] at peer'
    exact effect_register sound o hostId peer' peer
  | request socket hostId ticket now =>
    rw [Call.clients, List.mem_singleton] at asks
    exact effect_request o s hostId ticket now asks
  | join socket ticket now =>
    rw [Call.hostSide, List.mem_singleton] at peer'
    exact effect_join sound ticket now peer'
  | reject owner ticket => exact effect_reject sound owner ticket
  | close socket =>
    apply effect_close sound s.hosts
    rintro rfl
    exact stays rfl
  | sweep now => exact effect_sweep sound now

theorem no_pair_close (s : RelayRoutes) (socket : String) {action : RouteAction}
    (member : action ∈ (s.close socket).2) : action.pairs client = false := by
  rw [actions_close, List.mem_flatMap] at member
  obtain ⟨entry, -, member⟩ := member
  split at member
  · rw [List.mem_singleton] at member
    subst member
    rfl
  · cases member

theorem no_pair_restore (o : RouteOptions) (s : RelayRoutes) (hosts : List HostRecord)
    {pending : List PendingTicket} (nodup : (pending.map (·.client)).Nodup)
    {action : RouteAction} (member : action ∈ (s.restore o hosts pending).2.toOption.getD []) :
    action.pairs client = false := by
  rcases restore_cases o s hosts pending with ⟨error, fails⟩ | ⟨-, ⟨error, fails⟩ | restores⟩
  · rw [fails] at member
    cases member
  · rw [fails] at member
    cases member
  · rw [restores] at member
    have restored := restored_restorePending
      (RelayRoutes.restoreHosts o hosts s.hosts).1.values pending nodup
      { s with hosts := (RelayRoutes.restoreHosts o hosts s.hosts).1 }
    cases returned : (RelayRoutes.restorePending
        (RelayRoutes.restoreHosts o hosts s.hosts).1.values pending
        { s with hosts := (RelayRoutes.restoreHosts o hosts s.hosts).1 }).2 with
    | error error =>
      rw [returned] at member
      cases member
    | ok actions =>
      rw [returned] at member
      simpa using List.countP_eq_zero.mp (restored.no_pair actions client returned) action member

theorem pairs_call (o : RouteOptions) {call : Call} (nodup : call.clients.Nodup)
    {action : RouteAction} (member : action ∈ (s.call o call).2.toOption.getD [])
    (pairs : action.pairs client = true) :
    ∃ socket ticket now entry, call = .join socket ticket now ∧
      s.pending.get? ticket = some entry ∧ entry.client = client ∧ now < entry.expires ∧
      s.call o call = (s.forget ticket client, .ok [.pair client socket]) := by
  have never : action.pairs client ≠ false := by simp [pairs]
  cases call with
  | restore hosts pending => exact absurd (no_pair_restore o s hosts nodup member) never
  | register socket hostId =>
    simp only [RelayRoutes.call, RelayRoutes.register] at member
    split at member
    · cases member
    split at member
    · rw [Except.toOption, Option.getD_some, List.mem_singleton] at member
      subst member
      exact absurd rfl never
    split at member
    · rw [Except.toOption, Option.getD_some, List.mem_append] at member
      rcases member with member | member
      · exact absurd (no_pair_close _ _ member) never
      · rw [List.mem_cons, List.mem_singleton] at member
        rcases member with rfl | rfl
        · exact absurd rfl never
        · exact absurd rfl never
    · rw [Except.toOption, Option.getD_some, List.mem_singleton] at member
      subst member
      exact absurd rfl never
  | request socket hostId ticket now =>
    rw [RelayRoutes.call] at member
    rcases request_cases o s socket hostId ticket now with ⟨error, is⟩ | is | ⟨owner, -, -, is⟩
    · rw [is] at member
      cases member
    · rw [is, Except.toOption, Option.getD_some, List.mem_singleton] at member
      subst member
      exact absurd rfl never
    · rw [is, Except.toOption, Option.getD_some, List.mem_singleton] at member
      subst member
      exact absurd rfl never
  | join socket ticket now =>
    simp only [RelayRoutes.call, RelayRoutes.join] at member ⊢
    cases found : s.pending.get? ticket with
    | none =>
      simp only [found, Prod.map, Except.toOption, Option.getD_some, List.mem_singleton] at member
      subst member
      exact absurd rfl never
    | some entry =>
      simp only [found, Prod.map, Except.toOption, Option.getD_some] at member
      split at member
      · rw [List.mem_cons, List.mem_singleton] at member
        rcases member with rfl | rfl
        · exact absurd rfl never
        · exact absurd rfl never
      next early =>
        rw [List.mem_singleton] at member
        subst member
        have same : entry.client = client := by simpa [RouteAction.pairs] using pairs
        subst same
        refine ⟨socket, ticket, now, entry, rfl, found, rfl, by omega, ?_⟩
        simp only [Prod.map, id, early, if_false]
  | reject owner ticket =>
    simp only [RelayRoutes.call, RelayRoutes.reject] at member
    split at member
    · cases member
    split at member
    · cases member
    · simp only [Prod.map, Except.toOption, Option.getD_some, List.mem_singleton] at member
      subst member
      exact absurd rfl never
  | close socket => exact absurd (no_pair_close s socket member) never
  | sweep now =>
    have actions := (forgetAll_spec (fun entry => entry.expires ≤ now)
      (fun entry => [.close entry.client 1008 "Ticket expired"]) s.pending.entries
      s.pending.nodup s).2.2.2
    have listed : action ∈ (s.sweep now).2 := member
    rw [show (s.sweep now).2 = _ from actions, List.mem_flatMap] at listed
    obtain ⟨entry, -, listed⟩ := listed
    rw [List.mem_singleton] at listed
    subst listed
    exact absurd rfl never

theorem client_of_issue {o : RouteOptions} {exchange : Exchange} {record : PendingTicket}
    (issued : record ∈ exchange.issues o) : record.client ∈ exchange.call.clients := by
  obtain ⟨call, returned⟩ := exchange
  cases call with
  | request socket hostId ticket now =>
    obtain ⟨action, -, is_record⟩ := List.mem_filterMap.mp issued
    cases action with
    | offer owner ticket' =>
      cases is_record
      exact List.mem_singleton.mpr rfl
    | _ => cases is_record
  | restore hosts pending => exact List.mem_map.mpr ⟨record, issued, rfl⟩
  | _ => cases issued

theorem origin_call (sound : Sound s clients owners) (o : RouteOptions) {call : Call}
    (nodup : call.clients.Nodup) {ticket : String} {entry : Pending}
    (found : (s.call o call).1.pending.get? ticket = some entry) :
    s.pending.get? ticket = some entry ∨
      { toPending := entry, ticket } ∈ Exchange.issues o ⟨call, (s.call o call).2⟩ := by
  cases call with
  | restore hosts pending =>
    rw [RelayRoutes.call] at found
    rcases restore_cases o s hosts pending with ⟨error, fails⟩ | ⟨-, ⟨error, fails⟩ | restores⟩
    · rw [fails] at found
      exact .inl found
    · rw [fails] at found
      exact .inl found
    · rw [restores] at found
      exact (restored_restorePending (RelayRoutes.restoreHosts o hosts s.hosts).1.values pending
        nodup { s with hosts := (RelayRoutes.restoreHosts o hosts s.hosts).1 }).origin ticket entry
        found
  | register socket hostId =>
    refine .inl ?_
    simp only [RelayRoutes.call, RelayRoutes.register] at found
    split at found
    · exact found
    split at found
    · exact found
    split at found
    · exact ((dropped_close sound _ _).pending ticket entry).mp found |>.1
    · exact found
  | request socket hostId ticket' now =>
    rw [RelayRoutes.call] at found ⊢
    rcases request_cases o s socket hostId ticket' now with ⟨error, is⟩ | is | ⟨owner, -, -, is⟩
    · rw [is] at found
      exact .inl found
    · rw [is] at found
      exact .inl found
    · rw [is] at found ⊢
      simp only [RelayRoutes.await, Registry.get?_set] at found
      split at found
      next same =>
        subst same
        cases found
        exact .inr (by simp [Exchange.issues, Exchange.actions, Except.toOption])
      next => exact .inl found
  | join socket ticket' now =>
    refine .inl ?_
    simp only [RelayRoutes.call, RelayRoutes.join] at found
    split at found
    · exact found
    next found' => exact ((dropped_forget found').pending ticket entry).mp found |>.1
  | reject owner ticket' =>
    refine .inl ?_
    simp only [RelayRoutes.call, RelayRoutes.reject] at found
    split at found
    · exact found
    next found' =>
      split at found
      · exact found
      · exact ((dropped_forget found').pending ticket entry).mp found |>.1
  | close socket => exact .inl (((dropped_close sound s.hosts socket).pending ticket entry).mp found).1
  | sweep now => exact .inl (((dropped_forgetAll _ _ s).pending ticket entry).mp found).1

theorem awaits_call (sound : Sound s clients owners) (o : RouteOptions) {call : Call}
    (nodup : call.clients.Nodup) (awaits : (s.call o call).1.Awaits client) :
    s.Awaits client ∨ client ∈ call.clients := by
  obtain ⟨ticket, entry, found, rfl⟩ := awaits
  rcases origin_call sound o nodup found with old | issued
  · exact .inl ⟨ticket, entry, old, rfl⟩
  · exact .inr (client_of_issue issued)

theorem no_close_close (s : RelayRoutes) (socket : String) :
    (s.close socket).2.countP (·.closes socket) = 0 := by
  rw [List.countP_eq_zero]
  intro action member
  rw [actions_close, List.mem_flatMap] at member
  obtain ⟨entry, -, member⟩ := member
  split at member
  next other =>
    rw [List.mem_singleton] at member
    subst member
    simpa [RouteAction.closes] using other
  next => cases member

theorem fate_offered (o : RouteOptions) {call : Call} (nodup : call.clients.Nodup)
    (offered : client ∈ Exchange.offered ⟨call, (s.call o call).2⟩) :
    client ∈ call.clients ∧
    (((s.call o call).1.Awaits client ∧
      ((s.call o call).2.toOption.getD []).countP (·.closes client) = 0) ∨
    (¬(s.call o call).1.Awaits client ∧
      ((s.call o call).2.toOption.getD []).countP (·.closes client) = 1)) := by
  cases call with
  | request socket hostId ticket now =>
    rw [RelayRoutes.call] at offered ⊢
    rcases request_cases o s socket hostId ticket now with ⟨error, is⟩ | is | ⟨owner, -, vacant, is⟩
    · rw [is] at offered
      cases offered
    · rw [is] at offered
      cases offered
    · rw [is] at offered ⊢
      have same : client = socket := by simpa [Exchange.offered] using offered
      subst same
      refine ⟨List.mem_singleton.mpr rfl, .inl ⟨(awaits_await s vacant client).mpr (.inr rfl), ?_⟩⟩
      simp [Except.toOption, RouteAction.closes]
  | restore hosts pending =>
    rw [RelayRoutes.call] at offered ⊢
    rcases restore_cases o s hosts pending with ⟨error, fails⟩ | ⟨empty, ⟨error, fails⟩ | restores⟩
    · rw [fails] at offered
      cases offered
    · rw [fails] at offered
      cases offered
    · rw [restores] at offered ⊢
      have restored := restored_restorePending
        (RelayRoutes.restoreHosts o hosts s.hosts).1.values pending nodup
        { s with hosts := (RelayRoutes.restoreHosts o hosts s.hosts).1 }
      cases returned : (RelayRoutes.restorePending
          (RelayRoutes.restoreHosts o hosts s.hosts).1.values pending
          { s with hosts := (RelayRoutes.restoreHosts o hosts s.hosts).1 }).2 with
      | error error =>
        rw [returned] at offered
        cases offered
      | ok actions =>
        rw [returned] at offered
        have member : client ∈ pending.map (·.client) := offered
        refine ⟨member, restored.fate actions client returned member ?_⟩
        rintro ⟨ticket, entry, found, -⟩
        rw [show s.pending.get? ticket = none from empty ticket] at found
        cases found
  | _ => cases offered

end Effect

/-! ### Runs -/

/-- What holds after every call. -/
structure Told (o : RouteOptions) (calls : List Call) (history : History) : Prop where
  sound : Sound history.s (calls.flatMap Call.clients) (calls.flatMap Call.hostSide)
  issued : ∀ ticket entry, history.s.pending.get? ticket = some entry →
    { toPending := entry, ticket } ∈ history.exchanges.flatMap (Exchange.issues o)
  unpaired : ∀ client, history.s.Awaits client ∨ client ∉ calls.flatMap Call.clients →
    history.pairs client = 0
  paired : ∀ client, history.pairs client ≤ 1
  unclosed : ∀ client, client ∉ calls.flatMap Call.clients →
    client ∉ calls.flatMap Call.hostSide → history.closes client = 0
  known : ∀ client ∈ history.exchanges.flatMap Exchange.offered,
    client ∈ calls.flatMap Call.clients
  fate : ∀ client ∈ history.exchanges.flatMap Exchange.offered,
    client ∉ calls.flatMap Call.hostSide →
    (history.s.Awaits client ∧ history.closes client = 0) ∨
    (¬history.s.Awaits client ∧
      (history.pairs client = 1 ∨ history.closes client = 1 ∨ .close client ∈ calls))

theorem told_empty (o : RouteOptions) : Told o [] {} := by
  refine ⟨sound_empty, ?_, fun _ _ => rfl, fun _ => Nat.zero_le 1, fun _ _ _ => rfl, ?_, ?_⟩
  · intro ticket entry found
    simp at found
  · simp
  · simp

section Advance

variable {o : RouteOptions} {history : History} {call : Call} {calls : List Call}

theorem closes_advance (client : String) :
    (history.advance o call).closes client = history.closes client +
      ((history.s.call o call).2.toOption.getD []).countP (·.closes client) := by
  simp [History.closes, History.actions, History.advance, Exchange.actions]

theorem pairs_advance (client : String) :
    (history.advance o call).pairs client = history.pairs client +
      ((history.s.call o call).2.toOption.getD []).countP (·.pairs client) := by
  simp [History.pairs, History.actions, History.advance, Exchange.actions]

theorem Told.pairs_call (told : Told o calls history) (nodup : call.clients.Nodup)
    {client : String}
    (pairs : ((history.s.call o call).2.toOption.getD []).countP (·.pairs client) ≠ 0) :
    history.s.Awaits client ∧ ¬(history.s.call o call).1.Awaits client ∧
      ((history.s.call o call).2.toOption.getD []).countP (·.pairs client) = 1 := by
  obtain ⟨action, member, is_pair⟩ := List.countP_pos_iff.mp (Nat.pos_of_ne_zero pairs)
  obtain ⟨socket, ticket, now, entry, -, found, rfl, -, is⟩ :=
    Ace.Relay.pairs_call o nodup member is_pair
  refine ⟨⟨ticket, entry, found, rfl⟩, ?_, ?_⟩
  · rw [is, (dropped_forget found).awaits_iff told.sound found]
    exact not_not_intro rfl
  · rw [is]
    simp [Except.toOption, RouteAction.pairs]

theorem Told.advance (told : Told o calls history)
    (named : ∀ owner ∈ calls.flatMap Call.hostSide, owner ≠ "")
    (once : ((calls ++ [call]).flatMap Call.clients).Nodup) :
    Told o (calls ++ [call]) (history.advance o call) := by
  simp only [List.flatMap_append, List.flatMap_singleton, List.nodup_append] at once
  obtain ⟨-, nodup, apart⟩ := once
  have new : ∀ client ∈ call.clients, client ∉ calls.flatMap Call.clients :=
    fun client asks before => apart client before client asks rfl
  refine ⟨?_, ?_, ?_, ?_, ?_, ?_, ?_⟩
  · simp only [List.flatMap_append, List.flatMap_singleton]
    exact told.sound.call named o call nodup new
  · intro ticket entry found
    rw [History.advance, List.flatMap_append, List.mem_append, List.flatMap_singleton]
    rcases origin_call told.sound o nodup found with old | issued
    · exact .inl (told.issued ticket entry old)
    · exact .inr issued
  · intro client idle
    rw [pairs_advance]
    have before : history.pairs client = 0 := by
      apply told.unpaired
      rcases idle with awaits | unknown
      · rcases awaits_call told.sound o nodup awaits with old | asks
        · exact .inl old
        · exact .inr (new client asks)
      · rw [List.flatMap_append, List.mem_append, not_or] at unknown
        exact .inr unknown.1
    rw [before, Nat.zero_add]
    by_contra pairs
    obtain ⟨awaits, settled, -⟩ := told.pairs_call nodup pairs
    rcases idle with awaits' | unknown
    · exact settled awaits'
    · rw [List.flatMap_append, List.mem_append, not_or] at unknown
      exact unknown.1 (told.sound.known client awaits)
  · intro client
    rw [pairs_advance]
    by_cases pairs : ((history.s.call o call).2.toOption.getD []).countP (·.pairs client) = 0
    · rw [pairs]
      exact told.paired client
    · obtain ⟨awaits, -, one⟩ := told.pairs_call nodup pairs
      have before := told.unpaired client (.inl awaits)
      omega
  · intro client unknown peer
    rw [List.flatMap_append, List.mem_append, not_or, List.flatMap_singleton] at unknown peer
    rw [closes_advance, told.unclosed client unknown.1 peer.1, Nat.zero_add]
    by_cases leaves : call = .close client
    · subst leaves
      exact no_close_close history.s client
    · have effect := effect_call told.sound o nodup unknown.2 peer.1 peer.2 leaves
      by_contra closes
      have all := effect.closes
      exact unknown.1 (told.sound.known client (effect.settled.mp (by omega)).1)
  · intro client offered
    rw [History.advance, List.flatMap_append, List.mem_append, List.flatMap_singleton] at offered
    rw [List.flatMap_append, List.mem_append, List.flatMap_singleton]
    rcases offered with old | offered
    · exact .inl (told.known client old)
    · exact .inr (fate_offered o nodup offered).1
  · intro client offered peer
    rw [History.advance, List.flatMap_append, List.mem_append, List.flatMap_singleton] at offered
    rw [List.flatMap_append, List.mem_append, not_or, List.flatMap_singleton] at peer
    rw [closes_advance, pairs_advance]
    rcases offered with old | offered
    · have asks : client ∉ call.clients := fun asks => new client asks (told.known client old)
      by_cases leaves : call = .close client
      · subst leaves
        exact .inr ⟨not_awaits_close told.sound history.s.hosts client, .inr (.inr (by simp))⟩
      · have effect := effect_call told.sound o nodup asks peer.1 peer.2 leaves
        have bound := effect.closes
        rcases told.fate client old peer.1 with ⟨awaits, unclosed⟩ | ⟨settled, how⟩
        · -- the ticket is still pending, or this call settles it
          have unpaired := told.unpaired client (.inl awaits)
          by_cases after : (history.s.call o call).1.Awaits client
          · have quiet : ¬(_ + _ = 1) := fun is_settled => (effect.settled.mp is_settled).2 after
            exact .inl ⟨after, by omega⟩
          · have is_settled := effect.settled.mpr ⟨awaits, after⟩
            refine .inr ⟨after, ?_⟩
            omega
        · have quiet : ¬(_ + _ = 1) := fun is_settled => settled (effect.settled.mp is_settled).1
          refine .inr ⟨fun after => settled (effect.awaits after), ?_⟩
          rcases how with paired | closed | left
          · exact .inl (by omega)
          · exact .inr (.inl (by omega))
          · exact .inr (.inr (List.mem_append_left _ left))
    · obtain ⟨asks, fate⟩ := fate_offered o nodup offered
      rw [told.unclosed client (new client asks) peer.1, Nat.zero_add]
      exact fate.imp_right fun ⟨settled, closed⟩ => ⟨settled, .inr (.inl closed)⟩

end Advance

theorem told_run (o : RouteOptions) (calls : List Call)
    (named : ∀ owner ∈ calls.flatMap Call.hostSide, owner ≠ "")
    (once : (calls.flatMap Call.clients).Nodup) : Told o calls (.run o calls) := by
  induction calls using List.reverseRecOn with
  | nil => exact told_empty o
  | append_singleton calls call ih =>
    have once' := once
    rw [List.flatMap_append, List.nodup_append] at once'
    rw [List.flatMap_append, List.forall_mem_append] at named
    rw [History.run, List.foldl_append]
    exact (ih named.1 once'.1).advance named.1 once

/-- **Routing is safe over whole runs.** Let no socket of a host be the empty string, and let a
socket ask, or be recorded as one that asks, once at most. After any calls

* the owner of a pending ticket is the socket of a registered host;
* the clients that wait are those of the pending tickets;
* no client has been paired twice, and a client is paired only by a join, with a ticket that was
  issued for it, before the ticket expires and while the socket that it was offered to is
  registered;
* a client whose ticket was offered, and whose socket is not used on the hosts' side, is still
  pending, has been paired once, has been told to close once, or has closed itself. -/
theorem routing_safe (o : RouteOptions) (calls : List Call)
    (named : ∀ socket ∈ calls.flatMap Call.hostSide, socket ≠ "")
    (once : (calls.flatMap Call.clients).Nodup) :
    (∀ ticket entry, (History.run o calls).s.pending.get? ticket = some entry →
      ∃ hostId, (History.run o calls).s.hosts.get? hostId = some entry.owner) ∧
    (∀ client, client ∈ (History.run o calls).s.waiting ↔ (History.run o calls).s.Awaits client) ∧
    ((∀ client, (History.run o calls).pairs client ≤ 1) ∧
      ∀ before call, before ++ [call] <+: calls → ∀ client socket,
        .pair client socket ∈ ((History.run o before).s.call o call).2.toOption.getD [] →
        ∃ now, ∃ issue ∈ (History.run o before).exchanges.flatMap (Exchange.issues o),
          call = .join socket issue.ticket now ∧ issue.client = client ∧ now < issue.expires ∧
          ∃ hostId, (History.run o before).s.hosts.get? hostId = some issue.owner) ∧
    (∀ client ∈ (History.run o calls).exchanges.flatMap Exchange.offered,
      client ∉ calls.flatMap Call.hostSide →
      (History.run o calls).s.Awaits client ∨ (History.run o calls).pairs client = 1 ∨
        (History.run o calls).closes client = 1 ∨ .close client ∈ calls) := by
  have told := told_run o calls named once
  refine ⟨told.sound.owned, told.sound.waits, ⟨told.paired, ?_⟩, ?_⟩
  · rintro before call ⟨rest, rfl⟩ client socket pairs
    rw [List.append_assoc, List.flatMap_append, List.forall_mem_append] at named
    rw [List.append_assoc, List.flatMap_append, List.nodup_append, List.flatMap_append,
      List.nodup_append, List.flatMap_singleton] at once
    have told' := told_run o before named.1 once.1
    obtain ⟨socket', ticket, now, entry, is_join, found, same, early, is⟩ :=
      pairs_call o once.2.1.1 pairs (beq_self_eq_true client)
    rw [is] at pairs
    have same_socket : socket = socket' := by simpa [Except.toOption] using pairs
    subst same_socket
    exact ⟨now, _, told'.issued ticket entry found, is_join, same, early,
      told'.sound.owned ticket entry found⟩
  · intro client offered peer
    rcases told.fate client offered peer with ⟨awaits, -⟩ | ⟨-, how⟩
    · exact .inl awaits
    · exact .inr how

/-! ### Samples -/

def sampleRoutes : RouteOptions where
  ticketTimeoutMs := 10000

def sampleHost : String := "AAAAAAAAAAAAAAAAAAAAAAAAAAAAAAAAAAAAAAAAAAAAAAAAAAAA"

def sampleTicket (c : Char) : String := String.ofList (List.replicate 64 c)

def sampleCalls : List Call :=
  [.register "host" sampleHost, .request "client" sampleHost (sampleTicket 'a') 0,
    .request "other" sampleHost (sampleTicket 'b') 0, .join "stream" (sampleTicket 'a') 5]

/-- A client is paired, and another one waits for its host. -/
theorem routing_safe_sample :
    (∃ hostId, (History.run sampleRoutes sampleCalls).s.hosts.get? hostId = some "host") ∧
      ((History.run sampleRoutes sampleCalls).s.Awaits "client" ∨
        (History.run sampleRoutes sampleCalls).pairs "client" = 1 ∨
        (History.run sampleRoutes sampleCalls).closes "client" = 1 ∨
        .close "client" ∈ sampleCalls) := by
  obtain ⟨owned, -, -, fate⟩ :=
    routing_safe sampleRoutes sampleCalls (by decide +kernel) (by decide +kernel)
  exact ⟨owned (sampleTicket 'b') ⟨"other", "host", 10000⟩ (by decide +kernel),
    fate "client" (by decide +kernel) (by decide +kernel)⟩

/-- The joins of a run, each with its ticket. -/
def History.joins (history : History) : List (String × List RouteAction) :=
  history.exchanges.filterMap fun exchange => match exchange.call with
    | .join _ ticket _ => some (ticket, exchange.actions)
    | _ => none

/-- A ticket that was joined is issued again. -/
def reusedTicket : History := .run sampleRoutes [.register "host" sampleHost,
  .request "client" sampleHost (sampleTicket 'a') 0, .join "stream" (sampleTicket 'a') 1,
  .request "other" sampleHost (sampleTicket 'a') 2, .join "second" (sampleTicket 'a') 3]

/-- A client joins, too. -/
def mixedRoles : History := .run sampleRoutes [.register "host" sampleHost,
  .request "client" sampleHost (sampleTicket 'a') 0, .join "client" (sampleTicket 'b') 1,
  .sweep 10000]

/-- Two recorded tickets have one client. -/
def recordedTwice : History := .run sampleRoutes [.restore [⟨"host", sampleHost⟩]
  [⟨⟨"client", "host", 10⟩, sampleTicket 'a'⟩, ⟨⟨"client", "host", 10⟩, sampleTicket 'b'⟩],
  .join "stream" (sampleTicket 'a') 1]

/-- A socket without a name is replaced. -/
def namelessHost : History := .run sampleRoutes [.restore [⟨"", sampleHost⟩]
  [⟨⟨"client", "", 10⟩, sampleTicket 'a'⟩], .register "host" sampleHost]

theorem routing_unsafe_samples :
    reusedTicket.joins = [(sampleTicket 'a', [.pair "client" "stream"]),
      (sampleTicket 'a', [.pair "other" "second"])] ∧
    ("client" ∈ mixedRoles.exchanges.flatMap Exchange.offered ∧ mixedRoles.s.pending = .empty ∧
      mixedRoles.pairs "client" = 0 ∧ mixedRoles.closes "client" = 2) ∧
    (recordedTwice.s.pending.get? (sampleTicket 'b') = some ⟨"client", "host", 10⟩ ∧
      "client" ∉ recordedTwice.s.waiting) ∧
    (namelessHost.s.pending.get? (sampleTicket 'a') = some ⟨"client", "", 10⟩ ∧
      namelessHost.s.hosts.values = ["host"]) := by
  decide +kernel

end Ace.Relay
