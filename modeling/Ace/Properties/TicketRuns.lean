import Ace.Properties.PendingTickets

/-!
# Tickets are used once, soon and by their device

A history is a run with its answers. A ticket is pending after a history if it was issued in it and
nothing after that has used it up (`Pending`), and the tickets of a pool are at all times those that
are pending after its history (`Tracks`).

## Main result

`tickets_single_use`
-/

namespace Ace.TicketPool

open ExpiryMap

/-! ### Histories -/

abbrev History : Type := List (Call × Answer)

/-- When a call is made; a revocation does not say. -/
def Call.time : Call → Option ℚ
  | .issue _ _ _ now => some now
  | .consume _ now => some now
  | .revoke _ => none

/-- The key that a call asks a ticket for. -/
def Call.issuedKey : Call → Option String
  | .issue key _ _ _ => some key
  | .consume _ _ => none
  | .revoke _ => none

/-- A call and its answer that leave a ticket pending. -/
structure Spares (key deviceId : String) (expiresAt : ℚ) (e : Call × Answer) : Prop where
  before : ∀ now, e.1.time = some now → now < expiresAt
  unused : ∀ now holder, e ≠ (.consume key now, .consumed (some holder))
  kept : e.1 ≠ .revoke deviceId

theorem spares_iff {key d : String} {x now : ℚ} {e : Call × Answer} (timed : e.1.time = some now)
    (unused : ∀ now holder, e ≠ (.consume key now, .consumed (some holder))) :
    Spares key d x e ↔ now < x := by
  constructor
  · intro spares
    exact spares.before now timed
  · intro later
    refine ⟨fun now' time => ?_, unused, fun revoked => ?_⟩
    · rw [timed] at time
      cases time
      exact later
    · rw [revoked] at timed
      cases timed

/-- A ticket was issued for a minute, and nothing that came after it has used it up. -/
def Pending (h : History) (key deviceId generation : String) (expiresAt : ℚ) : Prop :=
  ∃ before after now,
    h = before ++ (.issue key deviceId generation now, .issued (.ticket expiresAt)) :: after ∧
      expiresAt = now + 60000 ∧ ∀ e ∈ after, Spares key deviceId expiresAt e

theorem pending_snoc {h : History} {e : Call × Answer} {key d g : String} {x : ℚ} :
    Pending (h ++ [e]) key d g x ↔
      (∃ now, e = (.issue key d g now, .issued (.ticket x)) ∧ x = now + 60000) ∨
        Pending h key d g x ∧ Spares key d x e := by
  constructor
  · rintro ⟨before, after, now, split, minute, spared⟩
    rcases after.eq_nil_or_concat' with rfl | ⟨after, last, rfl⟩
    · -- the ticket was issued just now
      obtain ⟨_, same⟩ := List.append_inj' split rfl
      exact .inl ⟨now, List.singleton_inj.mp same, minute⟩
    · rw [← List.cons_append, ← List.append_assoc] at split
      obtain ⟨same, isLast⟩ := List.append_inj' split rfl
      rw [List.singleton_inj.mp isLast]
      refine .inr ⟨⟨before, after, now, same, minute, fun f member => ?_⟩, ?_⟩
      · exact spared f (List.mem_append_left _ member)
      · exact spared last (List.mem_append_right _ (List.mem_singleton_self last))
  · rintro (⟨now, rfl, minute⟩ | ⟨⟨before, after, now, rfl, minute, spared⟩, spares⟩)
    · exact ⟨h, [], now, rfl, minute, fun f member => by cases member⟩
    · refine ⟨before, after ++ [e], now, by simp, minute, fun f member => ?_⟩
      rcases List.mem_append.mp member with old | new
      · exact spared f old
      · rw [List.mem_singleton.mp new]
        exact spares

theorem Pending.asked {h : History} {key d g : String} {x : ℚ} (pending : Pending h key d g x) :
    key ∈ (h.map Prod.fst).filterMap Call.issuedKey := by
  obtain ⟨before, after, now, rfl, _, _⟩ := pending
  rw [List.mem_filterMap]
  exact ⟨.issue key d g now, by simp, rfl⟩

/-- The tickets are those that are pending after a history. -/
def Tracks (h : History) (t : Table Ticket ℚ) : Prop :=
  ∀ key v x, t key = some (v, x) ↔
    v.expiresAt = x ∧ Pending h key v.deviceId v.generation x

theorem Tracks.unasked {h : History} {t : Table Ticket ℚ} (tracks : Tracks h t) {key : String}
    (fresh : key ∉ (h.map Prod.fst).filterMap Call.issuedKey) : t key = none := by
  cases held : t key with
  | none => rfl
  | some pair => exact absurd ((tracks key pair.1 pair.2).mp held).2.asked fresh

theorem Tracks.kept {h : History} {t t' : Table Ticket ℚ} (tracks : Tracks h t) {e : Call × Answer}
    (notIssued : ∀ key d g now x, e ≠ (.issue key d g now, .issued (.ticket x)))
    (spared : ∀ key v x, t' key = some (v, x) ↔
      t key = some (v, x) ∧ Spares key v.deviceId x e) : Tracks (h ++ [e]) t' := by
  intro key v x
  rw [spared, tracks key v x, pending_snoc, and_assoc]
  constructor
  · rintro ⟨stamp, pending, spares⟩
    exact ⟨stamp, .inr ⟨pending, spares⟩⟩
  · rintro ⟨stamp, ⟨now, issued, _⟩ | rest⟩
    · exact absurd issued (notIssued key v.deviceId v.generation now x)
    · exact ⟨stamp, rest⟩

theorem Tracks.issued {h : History} {t : Table Ticket ℚ} (tracks : Tracks h t) {key d g : String}
    {now : ℚ} (fresh : key ∉ (h.map Prod.fst).filterMap Call.issuedKey) :
    Tracks (h ++ [(.issue key d g now, .issued (.ticket (now + 60000)))])
      ((t.after now).put key ⟨d, g, now + 60000⟩ (now + 60000)) := by
  intro k v x
  rw [pending_snoc]
  unfold Table.put
  split
  next isKey =>
    rw [isKey, Option.some.injEq, Prod.mk.injEq]
    constructor
    · rintro ⟨rfl, rfl⟩
      exact ⟨rfl, .inl ⟨now, rfl, rfl⟩⟩
    · rintro ⟨stamp, ⟨now', same, minute⟩ | ⟨pending, _⟩⟩
      · obtain ⟨device, generation, expiresAt⟩ := v
        cases same
        exact ⟨by rw [← stamp], rfl⟩
      · exact absurd pending.asked fresh
  next other =>
    have unused : ∀ now' holder, (Call.issue key d g now, Answer.issued (.ticket (now + 60000))) ≠
        (.consume k now', .consumed (some holder)) := by
      intro now' holder same
      cases same
    rw [Table.after_iff, tracks k v x, and_assoc, spares_iff rfl unused]
    constructor
    · rintro ⟨stamp, pending, later⟩
      exact ⟨stamp, .inr ⟨pending, later⟩⟩
    · rintro ⟨stamp, ⟨now', same, _⟩ | rest⟩
      · cases same
        exact absurd rfl other
      · exact ⟨stamp, rest⟩

variable {limits : TicketLimits}

theorem step_tracks {h : History} {t t' : Table Ticket ℚ} {r r' : Table Rate ℚ} {call : Call}
    {answer : Answer} (tracks : Tracks h t) (changes : Changes limits t r call answer t' r')
    (fresh : ∀ key, call.issuedKey = some key →
      key ∉ (h.map Prod.fst).filterMap Call.issuedKey) :
    Tracks (h ++ [(call, answer)]) t' := by
  cases changes with
  | refused key d g now error =>
    apply tracks.kept
    · intro key' d' g' now' x same
      cases same
    · intro key' v x
      rw [Table.after_iff, spares_iff rfl]
      intro now' holder same
      cases same
  | opened key d g now => exact tracks.issued (fresh key rfl)
  | counted key d g now => exact tracks.issued (fresh key rfl)
  | unknown key now absent =>
    apply tracks.kept
    · intro key' d' g' now' x same
      cases same
    · intro key' v x
      rw [Table.after_iff, spares_iff rfl]
      intro now' holder same
      cases same
  | @consumed key now used _ held =>
    apply tracks.kept
    · intro key' d' g' now' x same
      cases same
    · intro key' v x
      unfold Table.drop
      split
      next isKey =>
        -- the ticket that is consumed is not spared
        rw [isKey]
        constructor
        · intro absent
          cases absent
        · rintro ⟨_, spares⟩
          exact absurd rfl (spares.unused now ⟨used.deviceId, used.generation⟩)
      next other =>
        rw [Table.after_iff, spares_iff rfl]
        intro now' holder same
        cases same
        exact other rfl
  | revoked d =>
    apply tracks.kept
    · intro key' d' g' now' x same
      cases same
    · intro key' v x
      rw [without_iff]
      constructor
      · rintro ⟨held, other⟩
        refine ⟨held, ⟨fun now' time => ?_, fun _ _ => ?_, fun same => ?_⟩⟩
        · cases time
        · intro same
          cases same
        · cases same
          exact other rfl
      · rintro ⟨held, spares⟩
        exact ⟨held, fun same => spares.kept (congrArg Call.revoke same.symm)⟩

/-! ### Runs -/

/-- A pool with the tables it stands for. -/
structure Snapshot where
  pool : TicketPool
  tickets : Table Ticket ℚ
  rates : Table Rate ℚ

/-- A run with its history, call by call. -/
inductive Chain (limits : TicketLimits) : Snapshot → History → Snapshot → Prop
  | nil (s : Snapshot) : Chain limits s [] s
  | cons {s s' s'' : Snapshot} {call : Call} {answer : Answer} {h : History}
      (stepped : s.pool.step call = .ok (answer, s'.pool))
      (changes : Changes limits s.tickets s.rates call answer s'.tickets s'.rates)
      (good : Good limits s'.pool s'.tickets s'.rates) (rest : Chain limits s' h s'') :
      Chain limits s ((call, answer) :: h) s''

theorem Chain.run {s s' : Snapshot} {h : History} (chain : Chain limits s h s') :
    s.pool.run (h.map Prod.fst) = .ok (h.map Prod.snd, s'.pool) := by
  induction chain with
  | nil => rfl
  | cons stepped changes good rest ih =>
    simp only [List.map_cons, TicketPool.run, stepped, ih, bind, Except.bind, pure, Except.pure]

theorem Chain.split {before after : History} : ∀ {s s'' : Snapshot},
    Chain limits s (before ++ after) s'' →
      ∃ s', Chain limits s before s' ∧ Chain limits s' after s'' := by
  induction before with
  | nil => exact fun {s s''} chain => ⟨s, .nil s, chain⟩
  | cons e before ih =>
    intro s s'' chain
    cases chain with
    | cons stepped changes good rest =>
      obtain ⟨s', first, second⟩ := ih rest
      exact ⟨s', .cons stepped changes good first, second⟩

theorem Chain.good {s s' : Snapshot} {h : History} (chain : Chain limits s h s')
    (good : Good limits s.pool s.tickets s.rates) : Good limits s'.pool s'.tickets s'.rates := by
  induction chain with
  | nil => exact good
  | cons _ _ good' _ ih => exact ih good'

theorem fresh_head {h : History} {call : Call} {calls : List Call}
    (fresh : ((h.map Prod.fst ++ call :: calls).filterMap Call.issuedKey).Nodup) {key : String}
    (asks : call.issuedKey = some key) : key ∉ (h.map Prod.fst).filterMap Call.issuedKey := by
  intro member
  rw [List.filterMap_append, List.filterMap_cons, asks, List.nodup_append] at fresh
  exact fresh.2.2 key member key List.mem_cons_self rfl

theorem Chain.tracks {s s' : Snapshot} {h : History} (chain : Chain limits s h s') :
    ∀ {h₀ : History}, Tracks h₀ s.tickets →
      ((h₀ ++ h).map Prod.fst |>.filterMap Call.issuedKey).Nodup →
      Tracks (h₀ ++ h) s'.tickets := by
  induction chain with
  | nil =>
    intro h₀ tracks _
    rw [List.append_nil]
    exact tracks
  | @cons s s' s'' call answer h stepped changes good rest ih =>
    intro h₀ tracks fresh
    have asks : ∀ key, call.issuedKey = some key →
        key ∉ (h₀.map Prod.fst).filterMap Call.issuedKey := by
      intro key asked
      rw [List.map_append, List.map_cons] at fresh
      exact fresh_head fresh asked
    have next := ih (step_tracks tracks changes asks) (by rwa [List.append_assoc])
    rwa [List.append_assoc] at next

theorem exists_chain (calls : List Call) : ∀ {s : Snapshot} {h₀ : History},
    Good limits s.pool s.tickets s.rates → Tracks h₀ s.tickets →
    ((h₀.map Prod.fst ++ calls).filterMap Call.issuedKey).Nodup →
    ∃ h s', h.map Prod.fst = calls ∧ Chain limits s h s' := by
  induction calls with
  | nil => exact fun {s h₀} _ _ _ => ⟨[], s, rfl, .nil s⟩
  | cons call calls ih =>
    intro s h₀ good tracks fresh
    obtain ⟨answer, pool, t, r, stepped, changes, good'⟩ := step_good good call <| by
      intro key d g now isIssue
      rw [isIssue] at fresh
      exact tracks.unasked (fresh_head fresh rfl)
    have tracks' := step_tracks tracks changes fun key asked => fresh_head fresh asked
    have fresh' : (((h₀ ++ [(call, answer)]).map Prod.fst ++ calls).filterMap
        Call.issuedKey).Nodup := by
      rw [List.map_append, List.append_assoc]
      exact fresh
    obtain ⟨h, s', same, rest⟩ := ih (s := ⟨pool, t, r⟩) good' tracks' fresh'
    exact ⟨(call, answer) :: h, s', by rw [List.map_cons, same],
      .cons stepped changes good' rest⟩

/-! ### Windows -/

/-- Whether a ticket is issued to a device. -/
def issuedTo (deviceId : String) : Call × Answer → Bool
  | (.issue _ d _ _, .issued (.ticket _)) => d == deviceId
  | _ => false

theorem step_window {t t' : Table Ticket ℚ} {r r' : Table Rate ℚ} {call : Call} {answer : Answer}
    (changes : Changes limits t r call answer t' r') {d : String} {w : Rate}
    (opened : r d = some (w, w.resetsAt)) (early : ∀ now, call.time = some now → now < w.resetsAt)
    (kept : call ≠ .revoke d) :
    r' d = some (⟨w.count + if issuedTo d (call, answer) then 1 else 0, w.resetsAt⟩,
      w.resetsAt) := by
  have stays : ∀ now, call.time = some now → r.after now d = some (w, w.resetsAt) :=
    fun now time => Table.after_iff.mpr ⟨opened, early now time⟩
  cases changes with
  | refused key d' g now error => exact stays now rfl
  | opened key d' g now closed =>
    have other : d' ≠ d := by
      rintro rfl
      rw [stays now rfl] at closed
      cases closed
    rw [Table.put, if_neg (Ne.symm other), stays now rfl]
    simp [issuedTo, other]
  | @counted key d' g now w' x window =>
    by_cases same : d = d'
    · rw [← same, stays now rfl, Option.some.injEq, Prod.mk.injEq] at window
      rw [Table.put, if_pos same, ← window.1]
      simp [issuedTo, same]
    · rw [Table.put, if_neg same, stays now rfl]
      simp [issuedTo, Ne.symm same]
  | unknown key now => exact stays now rfl
  | consumed key now => exact stays now rfl
  | revoked d' =>
    rw [Table.drop, if_neg fun same => kept (congrArg Call.revoke same.symm)]
    exact opened

theorem Chain.window {s s' : Snapshot} {h : History} (chain : Chain limits s h s') {d : String} :
    ∀ {w : Rate}, s.rates d = some (w, w.resetsAt) →
    (∀ e ∈ h, ∀ now, e.1.time = some now → now < w.resetsAt) → (∀ e ∈ h, e.1 ≠ .revoke d) →
    s'.rates d = some (⟨w.count + h.countP (issuedTo d), w.resetsAt⟩, w.resetsAt) := by
  induction chain with
  | nil => exact fun opened _ _ => opened
  | cons stepped changes good rest ih =>
    intro w opened early kept
    have next := step_window changes opened (early _ List.mem_cons_self)
      (kept _ List.mem_cons_self)
    have final := ih next (fun e member => early e (List.mem_cons_of_mem _ member))
      (fun e member => kept e (List.mem_cons_of_mem _ member))
    rw [List.countP_cons, Nat.add_comm (List.countP _ _), ← Nat.add_assoc]
    exact final

/-! ### Single use -/

/-- What is consumed was pending, and has not expired; and it is not consumed again. -/
structure UsedOnce (h : History) : Prop where
  pending : ∀ before key now holder after,
    h = before ++ (.consume key now, .consumed (some holder)) :: after →
      ∃ expiresAt, Pending before key holder.deviceId holder.generation expiresAt ∧ now < expiresAt
  once : ∀ before key now holder after,
    h = before ++ (.consume key now, .consumed (some holder)) :: after →
      ∀ now' holder', (.consume key now', .consumed (some holder')) ∉ after

/-- The index of every device has the keys of its pending tickets, and the limits hold. -/
structure Bounded (limits : TicketLimits) (h : History) (pool : TicketPool) : Prop where
  held : ∀ key v, pool.tickets.get key = .ok (some v) ↔
    Pending h key v.deviceId v.generation v.expiresAt
  index : ∀ d key, key ∈ keysOf pool.owned d ↔
    ∃ v, pool.tickets.get key = .ok (some v) ∧ v.deviceId = d
  nodup : ∀ d, (keysOf pool.owned d).Nodup
  perDevice : ∀ d, (keysOf pool.owned d).length ≤ limits.perDevice
  total : pool.tickets.size ≤ limits.global

/-- A call to issue a ticket finds no window of its device open. -/
def Opens (limits : TicketLimits) (before : History) (deviceId : String) (now : ℚ) : Prop :=
  ∃ answers pool pool', run { limits } (before.map Prod.fst) = .ok (answers, pool) ∧
    pool.evict now = .ok pool' ∧ pool'.rates.get deviceId = .ok none

/-- From the ticket that opens a window until that window resets, so many are issued to a device
that is not revoked in between. -/
def Paced (limits : TicketLimits) (h : History) : Prop :=
  ∀ before key d g now inside after,
    h = before ++ (.issue key d g now, .issued (.ticket (now + 60000))) :: (inside ++ after) →
      Opens limits before d now →
      (∀ e ∈ inside, ∀ now', e.1.time = some now' → now' < now + 60000) →
      (∀ e ∈ inside, e.1 ≠ .revoke d) → 1 + inside.countP (issuedTo d) ≤ limits.perMinute

def Snapshot.start (limits : TicketLimits) : Snapshot := ⟨{ limits }, Table.empty, Table.empty⟩

theorem tracks_start : Tracks [] Table.empty := by
  intro key v x
  constructor
  · intro held
    cases held
  · rintro ⟨_, before, after, now, split, _⟩
    cases before with
    | nil => cases split
    | cons => cases split

theorem chain_tracks {h : History} {s : Snapshot} (chain : Chain limits (.start limits) h s)
    (fresh : ((h.map Prod.fst).filterMap Call.issuedKey).Nodup) : Tracks h s.tickets :=
  chain.tracks tracks_start fresh

theorem fresh_left {before after : History}
    (fresh : (((before ++ after).map Prod.fst).filterMap Call.issuedKey).Nodup) :
    ((before.map Prod.fst).filterMap Call.issuedKey).Nodup := by
  rw [List.map_append, List.filterMap_append] at fresh
  exact (List.nodup_append.mp fresh).1

theorem Changes.of_consumed {t t' : Table Ticket ℚ} {r r' : Table Rate ℚ} {key : String} {now : ℚ}
    {holder : Holder}
    (changes : Changes limits t r (.consume key now) (.consumed (some holder)) t' r') :
    ∃ v x, t.after now key = some (v, x) ∧ holder = ⟨v.deviceId, v.generation⟩ := by
  cases changes with
  | consumed key now held => exact ⟨_, _, held, rfl⟩

theorem consumed_pending {h before after : History} {s : Snapshot} {key : String} {now : ℚ}
    {holder : Holder} (chain : Chain limits (.start limits) h s)
    (fresh : ((h.map Prod.fst).filterMap Call.issuedKey).Nodup)
    (split : h = before ++ (.consume key now, .consumed (some holder)) :: after) :
    ∃ expiresAt, Pending before key holder.deviceId holder.generation expiresAt ∧
      now < expiresAt := by
  rw [split] at chain fresh
  obtain ⟨s', first, second⟩ := chain.split
  have tracks := chain_tracks first (fresh_left fresh)
  cases second with
  | cons stepped changes good rest =>
    obtain ⟨v, x, held, rfl⟩ := changes.of_consumed
    obtain ⟨was, later⟩ := Table.after_iff.mp held
    exact ⟨x, ((tracks key v x).mp was).2, later⟩

theorem used_once {h : History} {s : Snapshot} (chain : Chain limits (.start limits) h s)
    (fresh : ((h.map Prod.fst).filterMap Call.issuedKey).Nodup) : UsedOnce h where
  pending := fun before key now holder after split => consumed_pending chain fresh split
  once := by
    intro before key now holder after split now' holder' member
    obtain ⟨x, pending, _⟩ := consumed_pending chain fresh split
    obtain ⟨middle, later, isAfter⟩ := List.append_of_mem member
    -- the second one needs a ticket that the first one has not used up
    have split' : h = (before ++ (.consume key now, .consumed (some holder)) :: middle) ++
        (.consume key now', .consumed (some holder')) :: later := by
      rw [split, isAfter, List.append_assoc, List.cons_append]
    obtain ⟨x', ⟨b, a, issue, same, _, spared⟩, _⟩ := consumed_pending chain fresh split'
    rcases List.append_eq_append_iff.mp same with ⟨more, isB, isRest⟩ | ⟨more, isBefore, isA⟩
    · -- issued after the first use, although its key was asked for before
      have asked := pending.asked
      have again : key ∈ ((((.consume key now, .consumed (some holder)) :: middle :
          History)).map Prod.fst).filterMap Call.issuedKey := by
        rw [isRest, List.map_append, List.filterMap_append, List.mem_append, List.map_cons]
        exact .inr (List.mem_filterMap.mpr ⟨_, List.mem_cons_self, rfl⟩)
      have part := fresh
      rw [split'] at part
      have nodup := fresh_left part
      rw [List.map_append, List.filterMap_append, List.nodup_append] at nodup
      exact nodup.2.2 key asked key again rfl
    · cases more with
      | nil =>
        rw [List.nil_append] at isA
        cases isA
      | cons first more =>
        rw [List.cons_append, List.cons.injEq] at isA
        have among : (.consume key now, .consumed (some holder)) ∈ a := by
          rw [isA.2]
          exact List.mem_append_right _ List.mem_cons_self
        exact (spared _ among).unused now holder rfl

theorem bounded {h : History} {s : Snapshot}
    (good : Good limits s.pool s.tickets s.rates) (tracks : Tracks h s.tickets) :
    Bounded limits h s.pool where
  held := by
    intro key v
    rw [get_spec good.tickets key, Except.ok.injEq, Option.map_eq_some_iff]
    constructor
    · rintro ⟨⟨v', x⟩, held, rfl⟩
      obtain ⟨stamp, pending⟩ := (tracks key v' x).mp held
      rw [stamp]
      exact pending
    · intro pending
      exact ⟨(v, v.expiresAt), (tracks key v v.expiresAt).mpr ⟨rfl, pending⟩, rfl⟩
  index := by
    intro d key
    rw [good.indexed.exact d key, get_spec good.tickets key]
    simp only [Except.ok.injEq, Option.map_eq_some_iff]
    constructor
    · rintro ⟨v, x, held, named⟩
      exact ⟨v, ⟨(v, x), held, rfl⟩, named⟩
    · rintro ⟨v, ⟨⟨v', x⟩, held, rfl⟩, named⟩
      exact ⟨v', x, held, named⟩
  nodup := good.indexed.nodup
  perDevice := good.quota
  total := good.total

theorem Changes.of_opening {t t' : Table Ticket ℚ} {r r' : Table Rate ℚ} {key d g : String}
    {now x : ℚ} (changes : Changes limits t r (.issue key d g now) (.issued (.ticket x)) t' r')
    (closed : r.after now d = none) : r' d = some (⟨1, now + 60000⟩, now + 60000) := by
  cases changes with
  | opened => exact if_pos rfl
  | counted key d g now window =>
    rw [closed] at window
    cases window

theorem paced {h : History} {s : Snapshot} (chain : Chain limits (.start limits) h s) :
    Paced limits h := by
  rintro before key d g now inside after split ⟨answers, pool, pool', ran, evicted, shut⟩ early kept
  rw [split] at chain
  obtain ⟨s₁, first, second⟩ := chain.split
  have good := first.good good_start
  -- the pool before the call is the one that the calls before it lead to
  have same : s₁.pool = pool := by
    have runs := first.run
    rw [show (Snapshot.start limits).pool = { limits } from rfl, ran] at runs
    cases runs
    rfl
  obtain ⟨pool'', evicted', good'⟩ := evict_good good now
  rw [same, evicted, Except.ok.injEq] at evicted'
  rw [evicted', get_spec good'.rates d, Except.ok.injEq, Option.map_eq_none_iff] at shut
  cases second with
  | cons stepped changes good₂ rest =>
    obtain ⟨s₃, within, _⟩ := rest.split
    have opened := changes.of_opening shut
    have counts := within.window opened early kept
    exact ((within.good good₂).minute d _ _ counts).2

/-- Tickets are used once, before they expire and unless their device is revoked, for the device and
the generation they were issued to; the index and the limits are kept at all times. The keys that
tickets are issued under are fresh. -/
theorem tickets_single_use (limits : TicketLimits) (calls : List Call)
    (fresh : (calls.filterMap Call.issuedKey).Nodup) :
    ∃ h pool, h.map Prod.fst = calls ∧ run { limits } calls = .ok (h.map Prod.snd, pool) ∧
      UsedOnce h ∧ Bounded limits h pool ∧ Paced limits h := by
  obtain ⟨h, s, same, chain⟩ :=
    exists_chain calls (s := .start limits) good_start tracks_start (by simpa using fresh)
  rw [← same] at fresh ⊢
  exact ⟨h, s.pool, rfl, chain.run, used_once chain fresh,
    bounded (chain.good good_start) (chain_tracks chain fresh), paced chain⟩

/-- A ticket that is asked for, used and tried again. -/
theorem tickets_single_use_login :
    ∃ h pool, h.map Prod.fst =
        [.issue "key" "device" "generation" 0, .consume "key" 1, .consume "key" 2] ∧
      run { limits := defaultTicketLimits }
        [.issue "key" "device" "generation" 0, .consume "key" 1, .consume "key" 2] =
          .ok (h.map Prod.snd, pool) ∧
      UsedOnce h ∧ Bounded defaultTicketLimits h pool ∧ Paced defaultTicketLimits h :=
  tickets_single_use defaultTicketLimits
    [.issue "key" "device" "generation" 0, .consume "key" 1, .consume "key" 2] (by decide)

end Ace.TicketPool
