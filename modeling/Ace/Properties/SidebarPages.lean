import Ace.Daemon.SidebarStorage
import Ace.Script.Sorting

/-!
# The stored sidebar and the projected one

The stored sidebar writes the predicates of the projection again, in SQL. They say the same of an
entry but for one hold: a queue that the person stopped asks for attention in SQL and not in the
projection, so that a thread settled on its own is live in one and paged in the other. The ids of
entries listed at one time compare by code points in SQL and by UTF-16 code units in the
projection.

## Main result

`stored_sidebar_matches_iff`
-/

namespace Ace.Sidebar

open Script Sql

/-! ### What the columns hold -/

theorem extract_status (entry : ThreadListEntry) :
    extract entry.encode.status ["state"] = .text entry.state.text := by
  simp only [ThreadListEntry.encode, extract_json, List.foldl_cons, List.foldl_nil]
  simp [Value.field, Value.fields, Assoc.get?, Value.json, ofValue]

theorem extract_client (entry : ThreadListEntry) (k : String) :
    extract entry.encode.client [k] =
      ofValue ((Value.obj [("pinned", .ofOption .bool entry.pinned),
        ("settledAt", .ofOption .nat entry.settledAt),
        ("settledReason", .ofOption (fun reason => .str reason.text) entry.settledReason),
        ("deletedAt", .ofOption .nat entry.deletedAt),
        ("activityAt", .ofOption .nat entry.activityAt),
        ("hasSentMessage", .ofOption .bool entry.hasSentMessage)]).field k).json := by
  simp only [ThreadListEntry.encode, extract_json, List.foldl_cons, List.foldl_nil]

theorem isNull_extract_delegatedFrom (entry : ThreadListEntry) :
    isNull (extract entry.encode.transitions ["delegatedFrom"]) =
      some (decide (entry.delegatedFrom = none)) := by
  simp only [ThreadListEntry.encode, extract_json, List.foldl_cons, List.foldl_nil]
  cases entry.delegatedFrom <;>
    simp [Value.field, Value.fields, Assoc.get?, Value.ofOption, Value.json, ofValue,
      DelegatedFrom.encode]

theorem extract_queue (entry : ThreadListEntry) (k : String) :
    extract entry.encode.providerMetadata ["queue", k] =
      ofValue ((Value.ofOption QueueState.encode entry.queue).field k).json := by
  simp only [ThreadListEntry.encode, extract_json, List.foldl_cons, List.foldl_nil]
  simp [Value.field, Value.fields, Assoc.get?]

theorem ofValue_time (time : Option Nat) :
    ofValue (Value.ofOption .nat time).json = time.elim .null fun n => .num n := by
  cases time <;> rfl

theorem ofValue_flag (flag : Option Bool) :
    ofValue (Value.ofOption .bool flag).json =
      flag.elim .null fun b => .num (if b then 1 else 0) := by
  cases flag <;> rfl

theorem extract_pinned (entry : ThreadListEntry) :
    extract entry.encode.client ["pinned"] =
      entry.pinned.elim .null fun b => .num (if b then 1 else 0) := by
  rw [extract_client, ← ofValue_flag]
  simp [Value.field, Value.fields, Assoc.get?]

theorem extract_settledAt (entry : ThreadListEntry) :
    extract entry.encode.client ["settledAt"] = entry.settledAt.elim .null fun n => .num n := by
  rw [extract_client, ← ofValue_time]
  simp [Value.field, Value.fields, Assoc.get?]

theorem extract_settledReason (entry : ThreadListEntry) :
    extract entry.encode.client ["settledReason"] =
      entry.settledReason.elim .null fun reason => .text reason.text := by
  rw [extract_client]
  cases entry.settledReason <;>
    simp [Value.field, Value.fields, Assoc.get?, Value.ofOption, Value.json, ofValue]

theorem extract_deletedAt (entry : ThreadListEntry) :
    extract entry.encode.client ["deletedAt"] = entry.deletedAt.elim .null fun n => .num n := by
  rw [extract_client, ← ofValue_time]
  simp [Value.field, Value.fields, Assoc.get?]

theorem extract_activityAt (entry : ThreadListEntry) :
    extract entry.encode.client ["activityAt"] = entry.activityAt.elim .null fun n => .num n := by
  rw [extract_client, ← ofValue_time]
  simp [Value.field, Value.fields, Assoc.get?]

theorem extract_hasSentMessage (entry : ThreadListEntry) :
    extract entry.encode.client ["hasSentMessage"] =
      entry.hasSentMessage.elim .null fun b => .num (if b then 1 else 0) := by
  rw [extract_client, ← ofValue_flag]
  simp [Value.field, Value.fields, Assoc.get?]

/-! ### The predicates -/

theorem counted_encode (entry : ThreadListEntry) :
    Row.counted entry.encode = some (counted entry) := by
  rw [Row.counted, extract_hasSentMessage, extract_status, isNull_extract_delegatedFrom]
  have title : entry.encode.title = entry.title := rfl
  have fresh : entry.state.text = "new" ↔ entry.state = .new := by
    cases entry.state <;> decide
  rw [title, counted]
  cases entry.hasSentMessage with
  | none => simp [fresh, Bool.and_comm]
  | some sent => cases sent <;> simp [Bool.and_comm]

theorem isNull_time (time : Option Nat) :
    isNull (time.elim Sql.null fun n => .num n) = some (decide (time = none)) := by
  cases time <;> rfl

theorem visible_encode (archived : Bool) (entry : ThreadListEntry) :
    Row.visible archived entry.encode = some (sidebarVisible entry archived) := by
  have kept : entry.encode.archivedAt = entry.archivedAt := rfl
  rw [Row.visible, Row.deleted, Row.archivedValue, extract_deletedAt, kept, isNull_time,
    isNull_time, sidebarVisible]
  cases archived <;> cases entry.archivedAt <;> simp

/-- Shown for the options, on either side. -/
def shown (options : SidebarOptions) (entry : ThreadListEntry) : Bool :=
  sidebarVisible entry options.archived && ofProject options entry.workspaceId

theorem matching_encode (options : SidebarOptions) (entry : ThreadListEntry) :
    Row.matching options entry.encode = some (shown options entry) := by
  have kept : entry.encode.workspaceId = entry.workspaceId := rfl
  rw [Row.matching, shown, ofProject, visible_encode, kept]
  cases options.project with
  | none => simp
  | some project => by_cases empty : project = "" <;> simp [empty]

/-- A queue that the person stopped, with a thread that they did not settle. -/
def stoppedHold (entry : ThreadListEntry) : Bool :=
  entry.settledReason ≠ some .manual && entry.queue.any fun queue =>
    queue.paused && queue.reason = some .stopped && queue.resumeAt = none

theorem attention_encode (entry : ThreadListEntry) :
    Row.attention entry.encode = some ((threadAttention entry).isSome ||
      entry.queue.any fun queue =>
        queue.paused && queue.reason = some .stopped && queue.resumeAt = none) := by
  simp only [Row.attention, extract_queue, threadAttention]
  cases entry.queue with
  | none => simp [Value.ofOption, Value.field, Value.fields, Assoc.get?, Value.json, ofValue]
  | some queue =>
    obtain ⟨pendingCount, paused, reason, resumeAt⟩ := queue
    -- an absent count is no pending message in both
    cases pendingCount <;> cases paused <;> cases reason <;> cases resumeAt <;>
      simp [QueueState.encode, Value.ofOption, Value.field, Value.fields, Assoc.get?, Value.json,
        ofValue, Value.nat]
    next reason => cases reason <;> simp [QueueReason.text]
    next count reason => cases reason <;> by_cases empty : count = 0 <;>
      simp [QueueReason.text, empty]

theorem settled_encode (entry : ThreadListEntry) :
    Row.settled entry.encode =
      some (!entry.pinned.getD false && sidebarSettled entry && !stoppedHold entry) := by
  rw [Row.settled, extract_pinned, extract_settledAt, isNull_time, extract_status,
    extract_settledReason, attention_encode, sidebarSettled, stoppedHold]
  have busy : entry.state.text ∉ ["working", "needs_you"] ↔
      entry.state ≠ .working ∧ entry.state ≠ .needsYou := by
    cases entry.state <;> decide
  have byHand : eq (Sql.coalesce (entry.settledReason.elim Sql.null fun reason => .text reason.text)
      (.text "")) (.text "manual") = some (decide (entry.settledReason = some .manual)) := by
    cases entry.settledReason with
    | none => simp
    | some reason => cases reason <;> simp [SettledReason.text]
  have unpinned : Truth.not (eq (Sql.coalesce (entry.pinned.elim Sql.null fun b =>
      .num (if b then 1 else 0)) (.num 0)) (.num 1)) = some !entry.pinned.getD false := by
    cases entry.pinned with
    | none => simp
    | some pinned => cases pinned <;> simp
  rw [byHand, unpinned, text_notIn]
  simp only [Truth.not_some, Truth.and_some, Truth.or_some]
  rw [Option.some_inj, Bool.eq_iff_iff]
  simp only [Bool.and_eq_true, Bool.or_eq_true, Bool.not_eq_true', decide_eq_true_eq,
    decide_eq_false_iff_not, busy, Bool.or_eq_false_iff, Bool.and_eq_false_iff,
    Option.isSome_eq_false_iff, Option.isNone_iff_eq_none]
  tauto

def storedPaged (archived : Bool) (entry : ThreadListEntry) : Bool :=
  paged archived entry && (archived || !stoppedHold entry)

theorem paged_encode (archived : Bool) (entry : ThreadListEntry) :
    Row.paged archived entry.encode = some (storedPaged archived entry) := by
  rw [Row.paged, settled_encode, storedPaged, paged]
  cases archived <;> simp

theorem activity_encode {archived : Bool} {entry : ThreadListEntry}
    (visible : sidebarVisible entry archived) :
    Row.activity archived entry.encode = .num (listedAt archived entry) := by
  have kept : entry.encode.archivedAt = entry.archivedAt := rfl
  have updated : entry.encode.updatedAt = entry.updatedAt := rfl
  rw [Row.activity, listedAt, Row.archivedValue, extract_activityAt, kept, updated]
  cases archived with
  | true =>
    -- an archived entry that is visible has its time
    simp only [sidebarVisible, beq_iff_eq, Bool.and_eq_true, Option.isSome_iff_exists] at visible
    obtain ⟨-, time, archivedAt⟩ := visible
    simp [archivedAt]
  | false => cases entry.activityAt <;> simp

/-! ### Orders of ids -/

theorem codePoints_injective : Function.Injective Row.codePoints := by
  intro s t same
  rw [Row.codePoints, Row.codePoints] at same
  have chars : s.toList = t.toList :=
    List.map_injective_iff.mpr (fun c d => Char.toNat_inj.mp) same
  exact String.toList_inj.mp chars

theorem not_surrogate (c : Char) : c.toNat < 0xD800 ∨ 0xDFFF < c.toNat ∧ c.toNat < 0x110000 :=
  c.valid

theorem codeUnits_injective : Function.Injective codeUnits := by
  intro s t same
  apply String.toList_inj.mp
  simp only [codeUnits] at same
  generalize s.toList = cs at same
  generalize t.toList = ds at same
  -- the first unit of a character tells how many it has
  induction cs generalizing ds with
  | nil =>
    cases ds with
    | nil => rfl
    | cons d ds =>
      rw [List.flatMap_nil, List.flatMap_cons] at same
      split at same <;> simp at same
  | cons c cs ih =>
    cases ds with
    | nil =>
      rw [List.flatMap_nil, List.flatMap_cons] at same
      split at same <;> simp at same
    | cons d ds =>
      rw [List.flatMap_cons, List.flatMap_cons] at same
      have basic := not_surrogate c
      have basic' := not_surrogate d
      split at same <;> split at same <;>
        simp only [List.cons_append, List.nil_append, List.cons.injEq] at same
      · rw [Char.toNat_inj.mp same.1, ih ds same.2]
      · omega
      · omega
      · have whole : c.toNat = d.toNat := by omega
        rw [Char.toNat_inj.mp whole, ih ds same.2.2]

/-- The order of a sidebar whose ids compare by their keys. -/
def listedBy (key : String → List Nat) (archived : Bool) (a b : ThreadListEntry) : Prop :=
  listedAt archived b < listedAt archived a ∨
    (listedAt archived a = listedAt archived b ∧ key a.id ≤ key b.id)

instance (key : String → List Nat) (archived : Bool) : DecidableRel (listedBy key archived) :=
  fun _ _ => inferInstanceAs (Decidable (_ ∨ _))

def afterBy (key : String → List Nat) (archived : Bool) (before : Option ThreadListCursor)
    (entry : ThreadListEntry) : Bool :=
  match before with
  | none => true
  | some before => listedAt archived entry < before.time ||
    (listedAt archived entry = before.time && key before.id < key entry.id)

section

variable (key : String → List Nat) (archived : Bool)

instance : Std.Total (listedBy key archived) where
  total a b := by
    simp only [listedBy]
    rcases lt_trichotomy (listedAt archived a) (listedAt archived b) with earlier | same | later
    · exact .inr (.inl earlier)
    · rcases le_total (key a.id) (key b.id) with first | first
      · exact .inl (.inr ⟨same, first⟩)
      · exact .inr (.inr ⟨same.symm, first⟩)
    · exact .inl (.inl later)

instance : IsTrans ThreadListEntry (listedBy key archived) where
  trans a b c first second := by
    simp only [listedBy] at *
    rcases first with first | ⟨time, first⟩
    · left
      omega
    · rcases second with second | ⟨time', second⟩
      · left
        omega
      · exact .inr ⟨by omega, first.trans second⟩

theorem listedBy_refl (entry : ThreadListEntry) : listedBy key archived entry entry :=
  .inr ⟨rfl, le_rfl⟩

end

variable {entries : List ThreadListEntry} {key : String → List Nat} {archived : Bool}

theorem eq_of_listedBy (injective : Function.Injective key) (nodup : (entries.map (·.id)).Nodup)
    {a b : ThreadListEntry} (inA : a ∈ entries) (inB : b ∈ entries)
    (first : listedBy key archived a b) (second : listedBy key archived b a) : a = b := by
  simp only [listedBy] at first second
  have ids : key a.id = key b.id := by
    rcases first with first | ⟨time, first⟩ <;> rcases second with second | ⟨time', second⟩
    · omega
    · omega
    · omega
    · exact le_antisymm first second
  exact List.inj_on_of_nodup_map nodup inA inB (injective ids)

theorem sort_perm (injective : Function.Injective key) (nodup : (entries.map (·.id)).Nodup)
    {l m : List ThreadListEntry} (sub : ∀ entry ∈ l, entry ∈ entries) (perm : l.Perm m)
    (sorted : m.Pairwise (listedBy key archived)) :
    l.insertionSort (listedBy key archived) = m := by
  apply sorted_eq_of_agree _ (fun _ _ _ _ => Iff.rfl) (List.pairwise_insertionSort _ _) sorted
  · exact (List.perm_insertionSort _ _).trans perm
  · intro a inA b inB
    rw [List.mem_insertionSort] at inA inB
    exact eq_of_listedBy injective nodup (sub a inA) (sub b inB)

/-! ### Both sidebars as one -/

/-- The entries below the live ones, after the cursor. -/
def restBy (key : String → List Nat) (isPaged : ThreadListEntry → Bool)
    (entries : List ThreadListEntry) (options : SidebarOptions)
    (before : Option ThreadListCursor) : List ThreadListEntry :=
  (entries.filter fun entry => shown options entry && isPaged entry &&
    afterBy key options.archived before entry).insertionSort (listedBy key options.archived)

def liveBy (key : String → List Nat) (isPaged : ThreadListEntry → Bool)
    (entries : List ThreadListEntry) (options : SidebarOptions) : List ThreadListEntry :=
  (entries.filter fun entry => shown options entry && !isPaged entry).insertionSort
    (listedBy key options.archived)

/-- A sidebar that compares ids by their keys and pages what it is told to. -/
def pageBy (key : String → List Nat) (isPaged : ThreadListEntry → Bool)
    (entries : List ThreadListEntry) (options : SidebarOptions)
    (before : Option ThreadListCursor) : SidebarPage :=
  let rest := restBy key isPaged entries options before
  { threads := (if before.isSome then [] else liveBy key isPaged entries options) ++
      rest.take options.limit
    before := if rest.length > options.limit then
      (rest.take options.limit).getLast?.map (cursorOf options.archived) else none
    total := (entries.filter fun entry => shown options entry && isPaged entry).length
    counts := tally ((entries.filter fun entry =>
      sidebarVisible entry options.archived && counted entry).map (·.workspaceId)) }

theorem filter_shown (entries : List ThreadListEntry) (options : SidebarOptions) :
    ((entries.filter fun entry => sidebarVisible entry options.archived).filter fun entry =>
      ofProject options entry.workspaceId) = entries.filter (shown options) := by
  rw [List.filter_filter]
  apply List.filter_congr
  intro entry _
  rw [shown, Bool.and_comm]

theorem filter_after (nodup : (entries.map (·.id)).Nodup) (options : SidebarOptions)
    (before : Option ThreadListCursor) :
    (((entries.filter (shown options)).filter (paged options.archived)).insertionSort
      (listedBefore options.archived)).filter (isAfter options.archived before) =
      restBy codeUnits (paged options.archived) entries options before := by
  symm
  apply sort_perm codeUnits_injective nodup
  · intro entry inside
    exact List.mem_of_mem_filter inside
  · have same : (entries.filter fun entry => shown options entry && paged options.archived entry &&
        afterBy codeUnits options.archived before entry) =
        ((entries.filter (shown options)).filter (paged options.archived)).filter
          (isAfter options.archived before) := by
      rw [List.filter_filter, List.filter_filter]
      apply List.filter_congr
      intro entry _
      rw [Bool.and_comm, Bool.and_comm (shown options entry), ← Bool.and_assoc]
      rfl
    rw [same]
    exact ((List.perm_insertionSort _ _).filter _).symm
  · apply List.Pairwise.filter
    exact List.pairwise_insertionSort (listedBy codeUnits options.archived) _

theorem sidebarPage_eq (nodup : (entries.map (·.id)).Nodup) (options : SidebarOptions)
    (before : Option ThreadListCursor) :
    sidebarPage entries options before =
      pageBy codeUnits (paged options.archived) entries options before := by
  have live : (entries.filter (shown options)).filter (fun entry =>
      !paged options.archived entry) =
      entries.filter fun entry => shown options entry && !paged options.archived entry := by
    rw [List.filter_filter]
    simp only [Bool.and_comm]
  have total : ((entries.filter (shown options)).filter (paged options.archived)).length =
      (entries.filter fun entry => shown options entry && paged options.archived entry).length := by
    rw [List.filter_filter]
    simp only [Bool.and_comm]
  have tallied : (entries.filter fun entry => sidebarVisible entry options.archived).filter
      counted = entries.filter fun entry =>
        sidebarVisible entry options.archived && counted entry := by
    rw [List.filter_filter]
    simp only [Bool.and_comm]
  simp only [sidebarPage, pageBy, filter_shown, filter_after nodup, List.length_insertionSort,
    total, tallied, live, List.take_take, List.length_take]
  rw [Nat.min_eq_left (Nat.le_succ _)]
  congr 1
  by_cases more : options.limit < (restBy codeUnits (paged options.archived) entries options
      before).length
  · rw [if_pos (show _ > _ by omega), if_pos more]
  · rw [if_neg (show ¬ _ > _ by omega), if_neg more]

/-! ### The stored sidebar -/

/-- The same page, with counts read as a mapping. -/
structure SamePage (page page' : SidebarPage) : Prop where
  threads : page.threads = page'.threads
  before : page.before = page'.before
  total : page.total = page'.total
  counts : ∀ project, Assoc.get? page.counts project = Assoc.get? page'.counts project

theorem get?_append_single {counts : List (String × Nat)} {key : String}
    (absent : Assoc.get? counts key = none) (n : Nat) (k : String) :
    Assoc.get? (counts ++ [(key, n)]) k = if key = k then some n else Assoc.get? counts k := by
  induction counts with
  | nil => simp [Assoc.get?]
  | cons entry rest ih =>
    simp only [Assoc.get?, List.cons_append] at absent ⊢
    split at absent
    next => cases absent
    next other =>
      rw [ih absent]
      by_cases same : key = k
      · subst same
        simp [other]
      · simp [same]

theorem get?_tally (keys : List String) (k : String) :
    Assoc.get? (tally keys) k = if k ∈ keys then some (keys.count k) else none := by
  induction keys using List.reverseRecOn with
  | nil => rfl
  | append_singleton keys key ih =>
    rw [tally, List.foldl_append, List.foldl_cons, List.foldl_nil, ← tally]
    split
    next counted =>
      rw [Assoc.get?_replace, if_pos counted, ih]
      by_cases same : key = k
      · subst same
        rw [ih] at counted ⊢
        split at counted
        next inside => simp [inside, List.count_append]
        next => cases counted
      · simp [same, Ne.symm same, List.count_append]
    next missing =>
      have new : Assoc.get? (tally keys) key = none := by simpa using missing
      rw [get?_append_single new, ih]
      by_cases same : key = k
      · subst same
        have none : key ∉ keys := by
          intro inside
          rw [ih, if_pos inside] at new
          cases new
        simp [List.count_append, List.count_eq_zero_of_not_mem none]
      · simp [same, Ne.symm same, List.count_append]

theorem exists_decoded {decode : Row → ThreadListEntry} {rows : List Row}
    (decodes : ∀ entry ∈ entries, decode entry.encode = entry)
    (stored : rows.Perm (entries.map (·.encode))) :
    ∃ found : List ThreadListEntry, found.Perm entries ∧ rows = found.map (·.encode) := by
  refine ⟨rows.map decode, ?_, ?_⟩
  · have same : (entries.map (·.encode)).map decode = entries := by
      rw [List.map_map]
      exact (List.map_congr_left decodes).trans (List.map_id' _)
    have mapped := stored.map decode
    rwa [same] at mapped
  · rw [List.map_map]
    have encodes : ∀ row ∈ rows, (decode row).encode = row := by
      intro row inside
      obtain ⟨entry, inEntries, rfl⟩ := List.mem_map.mp (stored.mem_iff.mp inside)
      rw [decodes entry inEntries]
    exact ((List.map_congr_left encodes).trans (List.map_id' _)).symm

theorem stored_sorted {decode : Row → ThreadListEntry} {rows : List Row}
    (nodup : (entries.map (·.id)).Nodup) (decodes : ∀ entry ∈ entries, decode entry.encode = entry)
    (stored : rows.Perm (entries.map (·.encode))) {keeps : Row → Bool} {kept : ThreadListEntry → Bool}
    (same : ∀ entry, keeps entry.encode = kept entry)
    (visible : ∀ entry, kept entry → sidebarVisible entry archived) :
    ((rows.filter keeps).insertionSort (Row.ordered archived)).map decode =
      (entries.filter kept).insertionSort (listedBy Row.codePoints archived) := by
  obtain ⟨found, perm, rfl⟩ := exists_decoded decodes stored
  have kept_eq : (found.map (·.encode)).filter keeps = (found.filter kept).map (·.encode) := by
    rw [List.filter_map]
    congr 1
    exact List.filter_congr fun entry _ => same entry
  have order : ∀ a ∈ found.filter kept, ∀ b ∈ found.filter kept,
      listedBy Row.codePoints archived a b ↔ Row.ordered archived a.encode b.encode := by
    intro a inA b inB
    rw [List.mem_filter] at inA inB
    rw [Row.ordered, activity_encode (visible a inA.2), activity_encode (visible b inB.2),
      num_less_num, num_eq_num, listedBy]
    simp [ThreadListEntry.encode]
  rw [kept_eq, ← List.map_insertionSort _ _ _ _ order, List.map_map]
  have decoded : ∀ entry ∈ (found.filter kept).insertionSort (listedBy Row.codePoints archived),
      decode entry.encode = entry := by
    intro entry inside
    rw [List.mem_insertionSort] at inside
    exact decodes entry (perm.mem_iff.mp (List.mem_of_mem_filter inside))
  refine ((List.map_congr_left decoded).trans (List.map_id' _)).trans ?_
  symm
  apply sort_perm codePoints_injective nodup
  · intro entry inside
    exact List.mem_of_mem_filter inside
  · exact (perm.symm.filter kept).trans (List.perm_insertionSort _ _).symm
  · exact List.pairwise_insertionSort _ _

theorem storage_same {decode : Row → ThreadListEntry} {rows : List Row}
    (nodup : (entries.map (·.id)).Nodup) (decodes : ∀ entry ∈ entries, decode entry.encode = entry)
    (stored : rows.Perm (entries.map (·.encode))) (options : SidebarOptions)
    (before : Option ThreadListCursor) :
    SamePage (sidebarPageStorage decode rows options before)
      (pageBy Row.codePoints (storedPaged options.archived) entries options before) := by
  have after : ∀ entry, sidebarVisible entry options.archived →
      Row.isAfter options.archived before entry.encode =
        some (afterBy Row.codePoints options.archived before entry) := by
    intro entry visible
    cases before with
    | none => rfl
    | some cursor =>
      have kept : entry.encode.id = entry.id := rfl
      simp [Row.isAfter, afterBy, activity_encode visible, kept]
  have visible : ∀ entry, shown options entry → sidebarVisible entry options.archived := by
    intro entry inside
    rw [shown, Bool.and_eq_true] at inside
    exact inside.1
  have rest : ((rows.filter fun row => (((Row.matching options row).and
      (Row.paged options.archived row)).and
      (Row.isAfter options.archived before row)).holds).insertionSort
        (Row.ordered options.archived)).map decode =
      restBy Row.codePoints (storedPaged options.archived) entries options before := by
    apply stored_sorted nodup decodes stored
    · intro entry
      rw [matching_encode, paged_encode, Truth.and_some]
      cases inside : shown options entry with
      | false => simp
      | true => rw [after entry (visible entry inside)]; simp
    · intro entry inside
      rw [Bool.and_eq_true, Bool.and_eq_true] at inside
      exact visible entry inside.1.1
  have live : ((rows.filter fun row => ((Row.matching options row).and
      (Row.paged options.archived row).not).holds).insertionSort
        (Row.ordered options.archived)).map decode =
      liveBy Row.codePoints (storedPaged options.archived) entries options := by
    apply stored_sorted nodup decodes stored
    · intro entry
      rw [matching_encode, paged_encode, Truth.not_some, Truth.and_some, Truth.holds_some]
    · intro entry inside
      rw [Bool.and_eq_true] at inside
      exact visible entry inside.1
  have length := congrArg List.length rest
  rw [List.length_map] at length
  have page : ∀ next : List Row, next.map decode = restBy Row.codePoints
      (storedPaged options.archived) entries options before →
      ((next.take (options.limit + 1)).take options.limit).map decode =
        (restBy Row.codePoints (storedPaged options.archived) entries options before).take
          options.limit := by
    intro next same
    rw [List.take_take, Nat.min_eq_left (Nat.le_succ _), List.map_take, same]
  constructor
  · simp only [sidebarPageStorage, pageBy]
    rw [page _ rest, live]
  · simp only [sidebarPageStorage, pageBy]
    rw [page _ rest, List.length_take, length]
    by_cases more : options.limit < (restBy Row.codePoints (storedPaged options.archived) entries
        options before).length
    · rw [if_pos (show _ > _ by omega), if_pos more]
    · rw [if_neg (show ¬ _ > _ by omega), if_neg more]
  · simp only [sidebarPageStorage, pageBy]
    rw [(stored.filter _).length_eq, List.filter_map, List.length_map]
    congr 1
    apply List.filter_congr
    intro entry _
    simp only [Function.comp_apply]
    rw [matching_encode, paged_encode, Truth.and_some, Truth.holds_some]
  · intro project
    simp only [sidebarPageStorage, pageBy]
    have perm : ((rows.filter fun row => ((Row.visible options.archived row).and
        (Row.counted row)).holds).map (·.workspaceId)).Perm ((entries.filter fun entry =>
          sidebarVisible entry options.archived && counted entry).map (·.workspaceId)) := by
      apply ((stored.filter _).map _).trans
      rw [List.filter_map, List.map_map]
      have same : ∀ entry ∈ entries, ((Row.visible options.archived entry.encode).and
          (Row.counted entry.encode)).holds =
            (sidebarVisible entry options.archived && counted entry) := by
        intro entry _
        rw [visible_encode, counted_encode, Truth.and_some, Truth.holds_some]
      exact List.Perm.of_eq (congrArg _ (List.filter_congr same))
    rw [get?_tally, get?_tally, perm.count_eq]
    simp only [perm.mem_iff]

/-! ### When they are the same -/

/-- On some page after the cursor. -/
def listed (options : SidebarOptions) (before : Option ThreadListCursor)
    (entry : ThreadListEntry) : Bool :=
  shown options entry && if paged options.archived entry then
    afterBy codeUnits options.archived before entry else before.isNone

/-- What the stored sidebar needs of the entries to be the projected one. -/
structure Alike (entries : List ThreadListEntry) (options : SidebarOptions)
    (before : Option ThreadListCursor) : Prop where
  /-- No settled thread that is shown holds a queue that the person stopped. -/
  unstopped : options.archived = false → ∀ entry ∈ entries, shown options entry →
    paged options.archived entry → stoppedHold entry = false
  /-- Code points put the ids of one time after the cursor's, or not, as code units do. -/
  cursor : ∀ cursor, before = some cursor → ∀ entry ∈ entries, shown options entry →
    paged options.archived entry → listedAt options.archived entry = cursor.time →
    (Row.codePoints cursor.id < Row.codePoints entry.id ↔
      codeUnits cursor.id < codeUnits entry.id)
  /-- Code points order the ids that are listed at one time on one side as code units do. -/
  ids : ∀ a ∈ entries, ∀ b ∈ entries, listed options before a → listed options before b →
    paged options.archived a = paged options.archived b →
    listedAt options.archived a = listedAt options.archived b →
    (Row.codePoints a.id ≤ Row.codePoints b.id ↔ codeUnits a.id ≤ codeUnits b.id)

variable {options : SidebarOptions} {before : Option ThreadListCursor}

theorem storedPaged_iff_of_shown :
    (options.archived = false → ∀ entry ∈ entries, shown options entry →
      paged options.archived entry → stoppedHold entry = false) ↔
    ∀ entry ∈ entries, shown options entry →
      storedPaged options.archived entry = paged options.archived entry := by
  constructor
  · intro unstopped entry inside shows
    rw [storedPaged]
    cases archived : options.archived with
    | true => simp
    | false =>
      cases isPaged : paged false entry with
      | false => rfl
      | true =>
        rw [unstopped archived entry inside shows (archived ▸ isPaged)]
        rfl
  · intro same archived entry inside shows isPaged
    have stored := same entry inside shows
    rw [storedPaged, isPaged, archived] at stored
    simpa using stored

theorem storedPaged_of_total
    (total : (entries.filter fun entry =>
      shown options entry && storedPaged options.archived entry).length =
      (entries.filter fun entry => shown options entry && paged options.archived entry).length) :
    ∀ entry ∈ entries, shown options entry →
      storedPaged options.archived entry = paged options.archived entry := by
  have narrowed : (entries.filter fun entry =>
      shown options entry && storedPaged options.archived entry) =
      (entries.filter fun entry => shown options entry && paged options.archived entry).filter
        (storedPaged options.archived) := by
    rw [List.filter_filter]
    apply List.filter_congr
    intro entry _
    rw [storedPaged]
    cases shown options entry <;> cases paged options.archived entry <;> simp
  rw [narrowed, List.length_filter_eq_length_iff] at total
  intro entry inside shows
  cases isPaged : paged options.archived entry with
  | false => simp [storedPaged, isPaged]
  | true => exact total entry (List.mem_filter.mpr ⟨inside, by simp [shows, isPaged]⟩)

theorem pageBy_congr {isPaged isPaged' : ThreadListEntry → Bool} (limit : Nat)
    (same : ∀ entry ∈ entries, shown options entry → isPaged entry = isPaged' entry) :
    pageBy key isPaged entries { options with limit } before =
      pageBy key isPaged' entries { options with limit } before := by
  have each : ∀ (f : ThreadListEntry → Bool → Bool), (entries.filter fun entry =>
      shown { options with limit } entry && f entry (isPaged entry)) =
      entries.filter fun entry =>
        shown { options with limit } entry && f entry (isPaged' entry) := by
    intro f
    apply List.filter_congr
    intro entry inside
    cases shows : shown { options with limit } entry with
    | false => rfl
    | true => rw [same entry inside shows]
  have rest : restBy key isPaged entries { options with limit } before =
      restBy key isPaged' entries { options with limit } before := by
    simp only [restBy, Bool.and_assoc]
    rw [each fun entry isPaged => isPaged && afterBy key options.archived before entry]
  have live : liveBy key isPaged entries { options with limit } =
      liveBy key isPaged' entries { options with limit } := by
    rw [liveBy, each fun _ isPaged => !isPaged, liveBy]
  simp only [pageBy, rest, live, each fun _ isPaged => isPaged]

theorem listedBy_iff_of_time {a b : ThreadListEntry}
    (time : listedAt archived a = listedAt archived b) :
    listedBy key archived a b ↔ key a.id ≤ key b.id := by
  simp [listedBy, time]

theorem listedBy_agree {a b : ThreadListEntry} {key' : String → List Nat}
    (ids : listedAt archived a = listedAt archived b → (key a.id ≤ key b.id ↔ key' a.id ≤ key' b.id)) :
    listedBy key archived a b ↔ listedBy key' archived a b := by
  by_cases time : listedAt archived a = listedAt archived b
  · rw [listedBy_iff_of_time time, listedBy_iff_of_time time, ids time]
  · simp [listedBy, time]

theorem sort_eq_iff (nodup : (entries.map (·.id)).Nodup) (kept : ThreadListEntry → Bool) :
    (entries.filter kept).insertionSort (listedBy Row.codePoints archived) =
      (entries.filter kept).insertionSort (listedBy codeUnits archived) ↔
    ∀ a ∈ entries, ∀ b ∈ entries, kept a → kept b → listedAt archived a = listedAt archived b →
      (Row.codePoints a.id ≤ Row.codePoints b.id ↔ codeUnits a.id ≤ codeUnits b.id) := by
  constructor
  · intro same a inA b inB keptA keptB time
    have sorted := List.pairwise_insertionSort (listedBy Row.codePoints archived)
      (entries.filter kept)
    have sorted' := List.pairwise_insertionSort (listedBy codeUnits archived)
      (entries.filter kept)
    rw [← same] at sorted'
    have inside : ∀ entry, entry ∈ (entries.filter kept).insertionSort
        (listedBy Row.codePoints archived) → entry ∈ entries := by
      intro entry sortedIn
      rw [List.mem_insertionSort] at sortedIn
      exact List.mem_of_mem_filter sortedIn
    have agree := agree_of_sorted
      (fun a inA b inB => eq_of_listedBy codePoints_injective nodup (inside a inA) (inside b inB))
      (fun a inA b inB => eq_of_listedBy codeUnits_injective nodup (inside a inA) (inside b inB))
      (listedBy_refl _ _) (listedBy_refl _ _) sorted sorted' a
      (by rw [List.mem_insertionSort]; exact List.mem_filter.mpr ⟨inA, keptA⟩) b
      (by rw [List.mem_insertionSort]; exact List.mem_filter.mpr ⟨inB, keptB⟩)
    rwa [listedBy_iff_of_time time, listedBy_iff_of_time time] at agree
  · intro ids
    apply sort_perm codePoints_injective nodup
    · intro entry inside
      exact List.mem_of_mem_filter inside
    · exact (List.perm_insertionSort _ _).symm
    · refine (List.pairwise_insertionSort _ _).imp_of_mem fun {a b} inA inB related => ?_
      rw [List.mem_insertionSort, List.mem_filter] at inA inB
      exact (listedBy_agree (ids a inA.1 b inB.1 inA.2 inB.2)).mpr related

theorem afterBy_agree_iff {key' : String → List Nat} :
    (∀ entry ∈ entries, shown options entry → paged options.archived entry →
      afterBy key options.archived before entry = afterBy key' options.archived before entry) ↔
    ∀ cursor, before = some cursor → ∀ entry ∈ entries, shown options entry →
      paged options.archived entry → listedAt options.archived entry = cursor.time →
      (key cursor.id < key entry.id ↔ key' cursor.id < key' entry.id) := by
  cases before with
  | none => simp [afterBy]
  | some cursor =>
    simp only [Option.some_inj, forall_eq']
    refine forall₄_congr fun entry _ _ _ => ?_
    by_cases time : listedAt options.archived entry = cursor.time
    · simp [afterBy, time]
    · simp [afterBy, time]

theorem rest_eq_iff (nodup : (entries.map (·.id)).Nodup) :
    restBy Row.codePoints (paged options.archived) entries options before =
      restBy codeUnits (paged options.archived) entries options before ↔
    (∀ entry ∈ entries, shown options entry → paged options.archived entry →
      afterBy Row.codePoints options.archived before entry =
        afterBy codeUnits options.archived before entry) ∧
    ∀ a ∈ entries, ∀ b ∈ entries, listed options before a → listed options before b →
      paged options.archived a → paged options.archived b →
      listedAt options.archived a = listedAt options.archived b →
      (Row.codePoints a.id ≤ Row.codePoints b.id ↔ codeUnits a.id ≤ codeUnits b.id) := by
  have member : ∀ (key : String → List Nat) (entry : ThreadListEntry), entry ∈ entries →
      shown options entry → paged options.archived entry →
      (entry ∈ restBy key (paged options.archived) entries options before ↔
        afterBy key options.archived before entry = true) := by
    intro key entry inside shows isPaged
    rw [restBy, List.mem_insertionSort, List.mem_filter]
    simp [inside, shows, isPaged]
  have after_iff : (restBy Row.codePoints (paged options.archived) entries options before =
      restBy codeUnits (paged options.archived) entries options before →
      ∀ entry ∈ entries, shown options entry → paged options.archived entry →
        afterBy Row.codePoints options.archived before entry =
          afterBy codeUnits options.archived before entry) := by
    intro same entry inside shows isPaged
    rw [Bool.eq_iff_iff, ← member _ entry inside shows isPaged,
      ← member _ entry inside shows isPaged, same]
  have sorted_iff (agree : ∀ entry ∈ entries, shown options entry → paged options.archived entry →
      afterBy Row.codePoints options.archived before entry =
        afterBy codeUnits options.archived before entry) :
      restBy Row.codePoints (paged options.archived) entries options before =
        restBy codeUnits (paged options.archived) entries options before ↔
      ∀ a ∈ entries, ∀ b ∈ entries, listed options before a → listed options before b →
        paged options.archived a → paged options.archived b →
        listedAt options.archived a = listedAt options.archived b →
        (Row.codePoints a.id ≤ Row.codePoints b.id ↔ codeUnits a.id ≤ codeUnits b.id) := by
    have filtered : (entries.filter fun entry => shown options entry &&
        paged options.archived entry && afterBy Row.codePoints options.archived before entry) =
        entries.filter fun entry => shown options entry && paged options.archived entry &&
          afterBy codeUnits options.archived before entry := by
      apply List.filter_congr
      intro entry inside
      cases shows : shown options entry with
      | false => rfl
      | true =>
        cases isPaged : paged options.archived entry with
        | false => rfl
        | true => rw [agree entry inside shows isPaged]
    rw [restBy, restBy, filtered, sort_eq_iff nodup]
    refine forall₄_congr fun a _ b _ => ?_
    have same : ∀ entry, (shown options entry && paged options.archived entry &&
        afterBy codeUnits options.archived before entry) = true ↔
        listed options before entry ∧ paged options.archived entry := by
      intro entry
      rw [listed]
      cases paged options.archived entry <;> simp
    rw [same, same]
    exact ⟨fun ids inA inB pagedA pagedB => ids ⟨inA, pagedA⟩ ⟨inB, pagedB⟩,
      fun ids inA inB => ids inA.1 inB.1 inA.2 inB.2⟩
  constructor
  · intro same
    exact ⟨after_iff same, (sorted_iff (after_iff same)).mp same⟩
  · rintro ⟨agree, ids⟩
    exact (sorted_iff agree).mpr ids

theorem live_eq_iff (nodup : (entries.map (·.id)).Nodup) (first : before = none) :
    liveBy Row.codePoints (paged options.archived) entries options =
      liveBy codeUnits (paged options.archived) entries options ↔
    ∀ a ∈ entries, ∀ b ∈ entries, listed options before a → listed options before b →
      paged options.archived a = false → paged options.archived b = false →
      listedAt options.archived a = listedAt options.archived b →
      (Row.codePoints a.id ≤ Row.codePoints b.id ↔ codeUnits a.id ≤ codeUnits b.id) := by
  rw [liveBy, liveBy, sort_eq_iff nodup]
  refine forall₄_congr fun a _ b _ => ?_
  have same : ∀ entry, (shown options entry && !paged options.archived entry) = true ↔
      listed options before entry ∧ paged options.archived entry = false := by
    intro entry
    rw [listed, first]
    cases paged options.archived entry <;> simp
  rw [same, same]
  exact ⟨fun ids inA inB pagedA pagedB => ids ⟨inA, pagedA⟩ ⟨inB, pagedB⟩,
    fun ids inA inB => ids inA.1 inB.1 inA.2 inB.2⟩

theorem pageBy_whole {isPaged : ThreadListEntry → Bool} (limit : Nat)
    (reach : entries.length ≤ limit) :
    (pageBy key isPaged entries { options with limit } before).threads =
      (if before.isSome then [] else liveBy key isPaged entries options) ++
        restBy key isPaged entries options before := by
  have short : (restBy key isPaged entries options before).length ≤ limit := by
    rw [restBy, List.length_insertionSort]
    exact (List.length_filter_le _ _).trans reach
  have whole : (restBy key isPaged entries options before).take limit =
      restBy key isPaged entries options before := List.take_of_length_le short
  exact congrArg _ whole

theorem pageBy_of_lists {key' : String → List Nat} {isPaged : ThreadListEntry → Bool} (limit : Nat)
    (live : (if before.isSome then [] else liveBy key isPaged entries options) =
      if before.isSome then [] else liveBy key' isPaged entries options)
    (rest : restBy key isPaged entries options before =
      restBy key' isPaged entries options before) :
    pageBy key isPaged entries { options with limit } before =
      pageBy key' isPaged entries { options with limit } before := by
  have live' : (if before.isSome then [] else liveBy key isPaged entries { options with limit }) =
      if before.isSome then [] else liveBy key' isPaged entries { options with limit } := live
  have rest' : restBy key isPaged entries { options with limit } before =
      restBy key' isPaged entries { options with limit } before := rest
  simp only [pageBy, live', rest']

theorem pages_same_iff (nodup : (entries.map (·.id)).Nodup) :
    (∀ limit, 1 ≤ limit →
      SamePage
        (pageBy Row.codePoints (storedPaged options.archived) entries { options with limit } before)
        (pageBy codeUnits (paged options.archived) entries { options with limit } before)) ↔
    Alike entries options before := by
  constructor
  · intro same
    have split : ∀ entry ∈ entries, shown options entry →
        storedPaged options.archived entry = paged options.archived entry :=
      storedPaged_of_total (same 1 le_rfl).total
    -- a limit beyond all entries compares the lists whole
    have threads := (same (entries.length + 1) (by omega)).threads
    rw [pageBy_congr _ split, pageBy_whole _ (Nat.le_succ _), pageBy_whole _ (Nat.le_succ _)]
      at threads
    have liveLength : (if before.isSome then [] else
        liveBy Row.codePoints (paged options.archived) entries options).length =
        (if before.isSome then [] else
          liveBy codeUnits (paged options.archived) entries options).length := by
      split <;> simp [liveBy]
    obtain ⟨live, rest⟩ := List.append_inj threads liveLength
    obtain ⟨after, ids⟩ := (rest_eq_iff nodup).mp rest
    refine ⟨storedPaged_iff_of_shown.mpr split, afterBy_agree_iff.mp after, ?_⟩
    intro a inA b inB listedA listedB side time
    cases isPaged : paged options.archived a with
    | true => exact ids a inA b inB listedA listedB isPaged (side ▸ isPaged) time
    | false =>
      have first : before = none := by
        rw [listed, isPaged] at listedA
        simpa using (Bool.and_eq_true_iff.mp listedA).2
      rw [first] at live
      exact (live_eq_iff nodup first).mp live a inA b inB listedA listedB isPaged
        (side ▸ isPaged) time
  · intro alike limit _
    have split := storedPaged_iff_of_shown.mp alike.unstopped
    have rest := (rest_eq_iff nodup).mpr ⟨afterBy_agree_iff.mpr alike.cursor,
      fun a inA b inB listedA listedB pagedA pagedB =>
        alike.ids a inA b inB listedA listedB (pagedA.trans pagedB.symm)⟩
    have live : (if before.isSome then [] else
        liveBy Row.codePoints (paged options.archived) entries options) =
        (if before.isSome then [] else
          liveBy codeUnits (paged options.archived) entries options) := by
      cases first : before with
      | some cursor => rfl
      | none =>
        apply (live_eq_iff nodup first).mpr
        intro a inA b inB listedA listedB pagedA pagedB
        exact alike.ids a inA b inB listedA listedB (pagedA.trans pagedB.symm)
    rw [pageBy_congr _ split, pageBy_of_lists limit live rest]
    exact ⟨rfl, rfl, rfl, fun _ => rfl⟩

theorem SamePage.trans_iff {p q r : SidebarPage} (same : SamePage p q) :
    SamePage p r ↔ SamePage q r := by
  constructor
  · intro other
    exact ⟨same.threads.symm.trans other.threads, same.before.symm.trans other.before,
      same.total.symm.trans other.total, fun k => (same.counts k).symm.trans (other.counts k)⟩
  · intro other
    exact ⟨same.threads.trans other.threads, same.before.trans other.before,
      same.total.trans other.total, fun k => (same.counts k).trans (other.counts k)⟩

/-- The stored sidebar gives the page of the projection for every limit, and puts every visible
entry on one side, exactly when its rows are alike in both. -/
theorem stored_sidebar_matches_iff (decode : Row → ThreadListEntry) (rows : List Row)
    (entries : List ThreadListEntry) (options : SidebarOptions)
    (before : Option ThreadListCursor) (nodup : (entries.map (·.id)).Nodup)
    (decodes : ∀ entry ∈ entries, decode entry.encode = entry)
    (stored : rows.Perm (entries.map (·.encode))) :
    ((∀ limit, 1 ≤ limit →
      SamePage (sidebarPageStorage decode rows { options with limit } before)
        (sidebarPage entries { options with limit } before)) ∧
      ∀ entry ∈ entries, sidebarVisible entry options.archived →
        Xor (Row.paged options.archived entry.encode).holds
          (Row.paged options.archived entry.encode).not.holds) ↔
    Alike entries options before := by
  have split : ∀ entry ∈ entries, sidebarVisible entry options.archived →
      Xor (Row.paged options.archived entry.encode).holds
        (Row.paged options.archived entry.encode).not.holds := by
    intro entry _ _
    rw [paged_encode, Truth.not_some, Truth.holds_some, Truth.holds_some]
    cases storedPaged options.archived entry <;> simp [Xor]
  rw [and_iff_left split, ← pages_same_iff nodup]
  refine forall₂_congr fun limit _ => ?_
  rw [(storage_same nodup decodes stored { options with limit } before).trans_iff,
    sidebarPage_eq nodup]

/-- A thread that settled when its pull request merged. -/
def settledSample : ThreadListEntry :=
  { id := "a", workspaceId := "w", title := "Fix the build", updatedAt := 5, state := .done,
    settledAt := some 6, settledReason := some .prMerged }

/-- A thread that waits for an answer. -/
def askingSample : ThreadListEntry :=
  { id := "b", workspaceId := "w", title := "Add a test", updatedAt := 7, state := .needsYou }

/-- A thread that settled on its own, with its queue stopped by the person. -/
def stoppedSample : ThreadListEntry :=
  { settledSample with
    queue := some { pendingCount := some 1, paused := true, reason := some .stopped,
                    resumeAt := none } }

theorem stored_sidebar_matches_sample :
    SamePage
      (sidebarPageStorage (fun row => if row.id = "a" then settledSample else askingSample)
        [askingSample.encode, settledSample.encode] { limit := 1 } none)
      (sidebarPage [settledSample, askingSample] { limit := 1 } none) := by
  refine ((stored_sidebar_matches_iff
    (fun row => if row.id = "a" then settledSample else askingSample)
    [askingSample.encode, settledSample.encode] [settledSample, askingSample] { limit := 1 } none
    (by decide) (by decide) (List.Perm.swap _ _ _)).mpr ?_).1 1 le_rfl
  constructor
  · decide
  · rintro cursor ⟨⟩
  · decide

/-- A stopped queue counts as attention in SQL only: the thread is live there and paged here. -/
theorem stored_sidebar_differs :
    ¬ SamePage (sidebarPageStorage (fun _ => stoppedSample) [stoppedSample.encode] { limit := 1 } none)
      (sidebarPage [stoppedSample] { limit := 1 } none) := by
  intro same
  have total := same.total
  revert total
  decide

end Ace.Sidebar
