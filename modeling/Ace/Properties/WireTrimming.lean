import Ace.Projection.WireTrim
import Ace.Script.Defaults

/-!
# Trimming is invisible

What a client hands on of a trimmed connection is what the daemon built. The schema of every item
type fills in exactly the members that its items leave out, and the two dictionaries of capability
keys stay in step: the restorer knows every key of the trimmer before a thread names it.

## Main result

`wire_trimming_invisible`
-/

namespace Ace.WireTrim

open Script Script.Schema

/-! ### Items -/

/-- The members that are left out, with the values that they are left out for. -/
def trimmedDefaults : List (String × Value) :=
  [("complete", .bool true), ("synthetic", .bool false), ("raw", .arr [])]

theorem ignoresDefault_shape {entry : String × Value} (trimmed : entry ∈ trimmedDefaults)
    {shape : List (String × Schema)}
    (known : ∀ s, (("complete", s) ∈ shape → s = withDefault boolean (.bool true)) ∧
      (("synthetic", s) ∈ shape → s = withDefault boolean (.bool false)) ∧
      (("raw", s) ∈ shape → s = Protocol.rawDefault)) :
    IgnoresDefault entry.1 entry.2 (object shape) := by
  apply ignoresDefault_object
  intro s inside
  simp only [trimmedDefaults, List.mem_cons, List.not_mem_nil, or_false] at trimmed
  rcases trimmed with rfl | rfl | rfl
  · rw [(known s).1 inside]
    exact ⟨.bool true, rfl, rfl, rfl⟩
  · rw [(known s).2.1 inside]
    exact ⟨.bool false, rfl, rfl, rfl⟩
  · rw [(known s).2.2 inside]
    exact ⟨.arr [], rfl, rfl, rfl⟩

theorem item_ignoresDefault {entry : String × Value} (trimmed : entry ∈ trimmedDefaults) :
    IgnoresDefault entry.1 entry.2 Protocol.item := by
  have names : entry.1 ≠ "type" ∧ entry.1 ≠ "data" := by
    revert entry
    decide
  apply ignoresDefault_discriminated names.1
  intro option member
  simp only [List.mem_cons, List.not_mem_nil, or_false] at member
  rcases member with rfl | rfl | rfl | rfl | rfl | rfl | rfl | rfl | rfl | rfl | rfl
  -- an unknown item must have its data
  case inr.inr.inr.inr.inr.inr.inr.inr.inr.inl =>
    refine IgnoresDefault.requireMember ?_ names.2
    exact ignoresDefault_shape trimmed (by simp [Protocol.itemBase])
  all_goals exact ignoresDefault_shape trimmed (by simp [Protocol.itemBase])

theorem jsonFields_deleteWhen {k : String} {test : Value → Bool}
    (seen : ∀ v : Value, test v.json = test v) (fs : List (String × Value)) :
    Value.jsonFields (deleteWhen k test fs) = deleteWhen k test (Value.jsonFields fs) := by
  rw [deleteWhen, deleteWhen, Value.get?_jsonFields, seen]
  split
  · exact jsonFields_erase fs k
  · rfl

theorem item_deleteWhen {k : String} {d : Value} (trimmed : (k, d) ∈ trimmedDefaults)
    (fs : List (String × Value)) :
    Protocol.item (.obj (deleteWhen k (· == d) fs)) = Protocol.item (.obj fs) := by
  have defined : d ≠ .undefined := by
    have all : ∀ entry ∈ trimmedDefaults, entry.2 ≠ .undefined := by decide
    exact all (k, d) trimmed
  rw [deleteWhen]
  split
  next equal =>
    rw [beq_iff_eq] at equal
    apply item_ignoresDefault trimmed
    cases present : Assoc.get? fs k with
    | none =>
      rw [present] at equal
      exact absurd equal.symm defined
    | some v =>
      rw [present] at equal
      exact congrArg some equal
  next => rfl

theorem decodeItem_trimItem (item : Value) :
    WireSchemas.decodeItem (trimItem item) = WireSchemas.decodeItem item := by
  have object : Protocol.item item.json = Protocol.item (.obj (Value.jsonFields item.fields)) := by
    cases item <;> first | rfl | simp [Protocol.item, discriminated, Value.json, Value.field, Value.fields, Assoc.get?, Value.jsonFields]
  have bool : ∀ (b : Bool) (v : Value), (v.json == .bool b) = (v == .bool b) := by
    intro b v
    cases v <;> rfl
  have empty : ∀ v : Value, (v.json == .arr []) = (v == .arr []) := by
    intro v
    cases v with
    | arr vs => cases vs <;> rfl
    | _ => rfl
  rw [WireSchemas.decodeItem, WireSchemas.decodeItem, object, trimItem, Value.json,
    jsonFields_deleteWhen empty, jsonFields_deleteWhen (bool false),
    jsonFields_deleteWhen (bool true), item_deleteWhen (by decide), item_deleteWhen (by decide),
    item_deleteWhen (by decide)]

/-! ### Keys -/

def keyOf (n : Nat) : String := "c" ++ toString (n + 1)

theorem keyOf_injective : Function.Injective keyOf := by
  intro m n same
  have digits : (toString (m + 1)).toList = (toString (n + 1)).toList := by
    simpa [keyOf, String.toList_append] using congrArg String.toList same
  rw [Nat.toString_eq_repr, Nat.toString_eq_repr, Nat.toList_repr, Nat.toList_repr] at digits
  have numbers := congrArg (fun digits => Nat.ofDigitChars 10 digits 0) digits
  simp only [Nat.ofDigitChars_ten_toDigits] at numbers
  omega

theorem keyOf_length {n : Nat} (few : n < maxCapabilityKeys) :
    1 ≤ utf16Length (keyOf n) ∧ utf16Length (keyOf n) ≤ 64 := by
  have all : ∀ n < maxCapabilityKeys, 1 ≤ utf16Length (keyOf n) ∧ utf16Length (keyOf n) ≤ 64 := by
    decide +kernel
  exact all n few

/-- The keys of a trimmer are numbered in the order in which they were taught. -/
structure WellKeyed (keys : List (Json × String)) : Prop where
  numbered : keys.map (·.2) = (List.range keys.length).map keyOf
  bounded : keys.length ≤ maxCapabilityKeys

theorem wellKeyed_nil : WellKeyed [] := ⟨rfl, Nat.zero_le _⟩

namespace WellKeyed

variable {keys : List (Json × String)}

theorem nodup (keyed : WellKeyed keys) : (keys.map (·.2)).Nodup := by
  rw [keyed.numbered]
  exact List.nodup_range.map keyOf_injective

theorem length_key (keyed : WellKeyed keys) {entry : Json × String} (member : entry ∈ keys) :
    1 ≤ utf16Length entry.2 ∧ utf16Length entry.2 ≤ 64 := by
  have named : entry.2 ∈ keys.map (·.2) := List.mem_map.mpr ⟨entry, member, rfl⟩
  rw [keyed.numbered, List.mem_map] at named
  obtain ⟨n, inside, same⟩ := named
  rw [← same]
  apply keyOf_length
  rw [List.mem_range] at inside
  have bounded := keyed.bounded
  omega

theorem append (keyed : WellKeyed keys) (room : keys.length < maxCapabilityKeys)
    (capabilities : Json) : WellKeyed (keys ++ [(capabilities, keyOf keys.length)]) := by
  constructor
  · rw [List.map_append, keyed.numbered, List.length_append, List.length_singleton,
      List.range_succ, List.map_append]
    rfl
  · rw [List.length_append, List.length_singleton]
    exact room

end WellKeyed

def teach (entry : Json × String) : ServerMessage := .providerCapabilities entry.2 entry.1

/-- What trimming did to a trimmer: it taught fresh keys, and nothing else. -/
structure Teaches (schemas : WireSchemas) (trimmer next : WireTrimmer)
    (before after : List ServerMessage) (fresh : List (Json × String)) : Prop where
  items : next.items = trimmer.items
  capabilities : next.capabilities = trimmer.capabilities
  keys : next.keys = trimmer.keys ++ fresh
  frames : after = before ++ fresh.map teach
  keyed : WellKeyed next.keys
  readable : ∀ entry ∈ fresh, schemas.capabilities entry.1 = some entry.1

/-- A restorer that knows every key of the trimmer. -/
def InStep (restorer : WireRestorer) (trimmer : WireTrimmer) : Prop :=
  ∀ entry ∈ trimmer.keys, Assoc.get? restorer entry.2 = some entry.1

variable {schemas : WireSchemas} {trimmer next last : WireTrimmer} {restorer : WireRestorer}
  {before middle after : List ServerMessage} {fresh fresh' : List (Json × String)}

theorem Teaches.refl (keyed : WellKeyed trimmer.keys) :
    Teaches schemas trimmer trimmer before before [] :=
  ⟨rfl, rfl, by simp, by simp, keyed, by simp⟩

theorem Teaches.trans (first : Teaches schemas trimmer next before middle fresh)
    (second : Teaches schemas next last middle after fresh') :
    Teaches schemas trimmer last before after (fresh ++ fresh') where
  items := second.items.trans first.items
  capabilities := second.capabilities.trans first.capabilities
  keys := by rw [second.keys, first.keys, List.append_assoc]
  frames := by rw [second.frames, first.frames, List.map_append, List.append_assoc]
  keyed := second.keyed
  readable := by
    intro entry member
    rcases List.mem_append.mp member with member | member
    · exact first.readable entry member
    · exact second.readable entry member

theorem Teaches.inStep (teaches : Teaches schemas trimmer next before after fresh)
    (step : InStep restorer next) : InStep restorer trimmer := by
  intro entry member
  apply step
  rw [teaches.keys]
  exact List.mem_append_left _ member

/-! ### Threads -/

theorem structuredCopy_eq (value : Json) : structuredCopy value = value :=
  Subtype.ext value.2

theorem mem_of_lookup {keys : List (Json × String)} {capabilities : Json} {key : String}
    (found : keys.lookup capabilities = some key) : (capabilities, key) ∈ keys := by
  induction keys with
  | nil => cases found
  | cons entry keys ih =>
    rw [List.lookup_cons] at found
    split at found
    next same =>
      obtain rfl := beq_iff_eq.mp same
      obtain rfl := Option.some.inj found
      exact List.mem_cons_self
    next => exact List.mem_cons_of_mem _ (ih found)

/-- A restorer in step makes of a thread what it was. -/
def Restores (schemas : WireSchemas) (rest : Schema) (next : WireTrimmer) (sent thread : Thread) :
    Prop :=
  schemas.decodeThread rest sent = some sent ∧
    ∀ restorer : WireRestorer, InStep restorer next → restorer.thread sent = thread

theorem decodeThread_self_iff {rest : Schema} {thread : Thread} :
    schemas.decodeThread rest thread = some thread ↔
      (∀ c, thread.capabilities = some c → schemas.capabilities c = some c) ∧
      (∀ key, thread.capabilitiesRef = some key → 1 ≤ utf16Length key ∧ utf16Length key ≤ 64) ∧
      rest thread.rest.json = some thread.rest := by
  obtain ⟨capabilities, capabilitiesRef, members⟩ := thread
  simp only [WireSchemas.decodeThread]
  cases capabilities with
  | none => cases capabilitiesRef <;> simp [Option.bind_eq_some_iff]
  | some c =>
    cases parsed : schemas.capabilities c with
    | none => simp [parsed]
    | some d => cases capabilitiesRef <;> simp [parsed, Option.bind_eq_some_iff] <;> tauto

theorem thread_spec {rest : Schema} {thread : Thread} (before : List ServerMessage)
    (keyed : WellKeyed trimmer.keys) (valid : schemas.decodeThread rest thread = some thread)
    (whole : thread.capabilitiesRef = none) :
    ∃ fresh, Teaches schemas trimmer (trimmer.thread before thread).2.1 before
        (trimmer.thread before thread).2.2 fresh ∧
      Restores schemas rest (trimmer.thread before thread).2.1 (trimmer.thread before thread).1
        thread := by
  have untouched : Restores schemas rest trimmer thread thread :=
    ⟨valid, fun restorer _ => by rw [WireRestorer.thread, whole]⟩
  obtain ⟨readable, -, members⟩ := decodeThread_self_iff.mp valid
  -- a thread that names a key which the trimmer has
  have named : ∀ (next : WireTrimmer) (capabilities : Json) (key : String),
      thread.capabilities = some capabilities → WellKeyed next.keys →
      (capabilities, key) ∈ next.keys →
      Restores schemas rest next
        { thread with capabilities := none, capabilitiesRef := some key } thread := by
    intro next capabilities key has keyed member
    constructor
    · apply decodeThread_self_iff.mpr
      refine ⟨by simp, ?_, members⟩
      intro key' same
      obtain rfl := Option.some.inj same
      exact keyed.length_key member
    · intro restorer step
      have known : Assoc.get? restorer key = some capabilities := step _ member
      simp only [WireRestorer.thread, known, structuredCopy_eq]
      rw [← has, ← whole]
  rw [WireTrimmer.thread]
  split
  next => exact ⟨[], Teaches.refl keyed, untouched⟩
  next capabilities has =>
    split
    next => exact ⟨[], Teaches.refl keyed, untouched⟩
    next =>
      split
      next key found =>
        exact ⟨[], Teaches.refl keyed, named _ _ _ has keyed (mem_of_lookup found)⟩
      next =>
        split
        next => exact ⟨[], Teaches.refl keyed, untouched⟩
        next room =>
          have keyed' := keyed.append (Nat.lt_of_not_le room) capabilities
          refine ⟨[(capabilities, keyOf trimmer.keys.length)], ?_, ?_⟩
          · exact ⟨rfl, rfl, rfl, rfl, keyed', by simpa using readable capabilities has⟩
          · exact named _ _ _ has keyed' (by simp)

theorem threads_spec {rest : Schema} {record : List (String × Thread)}
    (before : List ServerMessage) (keyed : WellKeyed trimmer.keys)
    (valid : WireSchemas.decodeRecords (schemas.decodeThread rest) record = some record)
    (whole : ∀ entry ∈ record, entry.2.capabilitiesRef = none) :
    ∃ fresh, Teaches schemas trimmer (trimmer.threads before record).2.1 before
        (trimmer.threads before record).2.2 fresh ∧
      WireSchemas.decodeRecords (schemas.decodeThread rest) (trimmer.threads before record).1 =
        some (trimmer.threads before record).1 ∧
      ∀ restorer : WireRestorer, InStep restorer (trimmer.threads before record).2.1 →
        mapRecord (trimmer.threads before record).1 restorer.thread = record := by
  induction record generalizing trimmer before with
  | nil => exact ⟨[], Teaches.refl keyed, rfl, fun _ _ => rfl⟩
  | cons entry record ih =>
    obtain ⟨id, thread⟩ := entry
    simp only [WireSchemas.decodeRecords, Option.bind_eq_bind, Option.bind_eq_some_iff,
      Option.pure_def, Option.some.injEq, List.cons.injEq, Prod.mk.injEq, true_and] at valid
    obtain ⟨thread, parsed, record, parsedRest, rfl, rfl⟩ := valid
    obtain ⟨fresh, teaches, decoded, restores⟩ :=
      thread_spec before keyed parsed (whole _ List.mem_cons_self)
    obtain ⟨fresh', teaches', decoded', restores'⟩ :=
      ih (trimmer.thread before thread).2.2 teaches.keyed parsedRest
        fun entry member => whole entry (List.mem_cons_of_mem _ member)
    refine ⟨fresh ++ fresh', teaches.trans teaches', ?_, ?_⟩
    · simp only [WireTrimmer.threads, WireSchemas.decodeRecords, decoded, decoded']
      rfl
    · intro restorer step
      -- the keys of the first thread are among those of all
      have first := restores restorer (teaches'.inStep step)
      simp only [WireTrimmer.threads, mapRecord, List.map_cons, first]
      exact congrArg _ (restores' restorer step)

/-! ### Messages -/

/-- As the daemon builds a message: its threads have their capabilities, and it teaches no key. -/
def ServerMessage.Whole : ServerMessage → Prop
  | .snapshot (.thread thread _ _) _ => thread.capabilitiesRef = none
  | .snapshot (.threads threads _) _ => ∀ entry ∈ threads, entry.2.capabilitiesRef = none
  | .threadsPatch threads _ => ∀ entry ∈ threads, entry.2.capabilitiesRef = none
  | .providerCapabilities _ _ => False
  | _ => True

theorem decodeRecords_trimItem (items : List (String × Value)) :
    WireSchemas.decodeRecords WireSchemas.decodeItem (mapRecord items trimItem) =
      WireSchemas.decodeRecords WireSchemas.decodeItem items := by
  induction items with
  | nil => rfl
  | cons entry items ih =>
    simp only [mapRecord, List.map_cons, WireSchemas.decodeRecords, decodeItem_trimItem] at ih ⊢
    rw [ih]

theorem mapM_trimItem (items : List Value) :
    (items.map trimItem).mapM WireSchemas.decodeItem = items.mapM WireSchemas.decodeItem := by
  induction items with
  | nil => rfl
  | cons item items ih => rw [List.map_cons, List.mapM_cons, List.mapM_cons, ih, decodeItem_trimItem]

theorem trim_spec {message : ServerMessage} (keyed : WellKeyed trimmer.keys)
    (valid : schemas.decode message = some message) (whole : message.Whole) :
    ∃ fresh, Teaches schemas trimmer (trimmer.trim message).2.1 [] (trimmer.trim message).2.2 fresh ∧
      ∃ decoded, schemas.decode (trimmer.trim message).1 = some decoded ∧
        ∀ restorer : WireRestorer, InStep restorer (trimmer.trim message).2.1 →
          restorer.restore decoded = (some message, restorer) := by
  match message with
  | .snapshot (.thread thread items viewRest) rest =>
    simp only [WireSchemas.decode, Option.bind_eq_bind, Option.bind_eq_some_iff, Option.pure_def,
      Option.some.injEq, ServerMessage.snapshot.injEq, View.thread.injEq] at valid
    obtain ⟨thread, parsed, items, parsedItems, viewRest, parsedView, rest, parsedRest,
      ⟨rfl, rfl, rfl⟩, rfl⟩ := valid
    obtain ⟨fresh, teaches, decoded, restores⟩ := thread_spec [] keyed parsed whole
    have read : WireSchemas.decodeRecords WireSchemas.decodeItem
        (if trimmer.items then mapRecord items trimItem else items) = some items := by
      split
      · rw [decodeRecords_trimItem, parsedItems]
      · exact parsedItems
    refine ⟨fresh, teaches,
      .snapshot (.thread (trimmer.thread [] thread).1 items viewRest) rest, ?_, ?_⟩
    · simp only [WireTrimmer.trim, WireSchemas.decode, decoded, read, parsedView, parsedRest,
        Option.bind_eq_bind, Option.bind_some, Option.pure_def]
    · intro restorer step
      simp only [WireRestorer.restore, restores restorer step]
  | .snapshot (.threads threads viewRest) rest =>
    simp only [WireSchemas.decode, Option.bind_eq_bind, Option.bind_eq_some_iff, Option.pure_def,
      Option.some.injEq, ServerMessage.snapshot.injEq, View.threads.injEq] at valid
    obtain ⟨threads, parsed, viewRest, parsedView, rest, parsedRest, ⟨rfl, rfl⟩, rfl⟩ := valid
    obtain ⟨fresh, teaches, decoded, restores⟩ := threads_spec [] keyed parsed whole
    refine ⟨fresh, teaches, .snapshot (.threads (trimmer.threads [] threads).1 viewRest) rest,
      ?_, ?_⟩
    · simp only [WireTrimmer.trim, WireSchemas.decode, decoded, parsedView, parsedRest,
        Option.bind_eq_bind, Option.bind_some, Option.pure_def]
    · intro restorer step
      simp only [WireRestorer.restore, restores restorer step]
  | .threadsPatch threads rest =>
    simp only [WireSchemas.decode, Option.bind_eq_bind, Option.bind_eq_some_iff, Option.pure_def,
      Option.some.injEq, ServerMessage.threadsPatch.injEq] at valid
    obtain ⟨threads, parsed, rest, parsedRest, rfl, rfl⟩ := valid
    obtain ⟨fresh, teaches, decoded, restores⟩ := threads_spec [] keyed parsed whole
    refine ⟨fresh, teaches, .threadsPatch (trimmer.threads [] threads).1 rest, ?_, ?_⟩
    · simp only [WireTrimmer.trim, WireSchemas.decode, decoded, parsedRest, Option.bind_eq_bind,
        Option.bind_some, Option.pure_def]
    · intro restorer step
      simp only [WireRestorer.restore, restores restorer step]
  | .itemsPage items rest =>
    refine ⟨[], Teaches.refl keyed, .itemsPage items rest, ?_, fun _ _ => rfl⟩
    simp only [WireTrimmer.trim]
    split
    · simpa only [WireSchemas.decode, mapM_trimItem] using valid
    · exact valid
  | .itemsWindow items rest =>
    refine ⟨[], Teaches.refl keyed, .itemsWindow items rest, ?_, fun _ _ => rfl⟩
    simp only [WireTrimmer.trim]
    split
    · simpa only [WireSchemas.decode, mapM_trimItem] using valid
    · exact valid
  | .providerCapabilities key capabilities => exact whole.elim
  | .other rest => exact ⟨[], Teaches.refl keyed, _, valid, fun _ _ => rfl⟩

/-- What a restorer knows after the teaching messages. -/
def learn (restorer : WireRestorer) (fresh : List (Json × String)) : WireRestorer :=
  fresh.foldl (fun restorer entry => Assoc.put entry.2 entry.1 restorer) restorer

theorem received_teach {frames : List ServerMessage} (restorer : WireRestorer)
    (readable : ∀ entry ∈ fresh, schemas.capabilities entry.1 = some entry.1)
    (short : ∀ entry ∈ fresh, 1 ≤ utf16Length entry.2 ∧ utf16Length entry.2 ≤ 64) :
    received schemas restorer (fresh.map teach ++ frames) =
      received schemas (learn restorer fresh) frames := by
  induction fresh generalizing restorer with
  | nil => rfl
  | cons entry fresh ih =>
    have taught : schemas.decode (teach entry) = some (teach entry) := by
      simp only [teach, WireSchemas.decode, readable entry List.mem_cons_self]
      rw [if_pos (short entry List.mem_cons_self)]
      rfl
    have rest := ih (Assoc.put entry.2 entry.1 restorer)
      (fun entry member => readable entry (List.mem_cons_of_mem _ member))
      (fun entry member => short entry (List.mem_cons_of_mem _ member))
    rw [List.map_cons, List.cons_append, received, taught]
    simp only [Option.bind_eq_bind, Option.bind_some, teach, WireRestorer.restore,
      Option.toList_none, List.nil_append, Option.pure_def, Option.bind_fun_some]
    exact rest

theorem inStep_learn (step : InStep restorer trimmer)
    (teaches : Teaches schemas trimmer next before after fresh) :
    InStep (learn restorer fresh) next := by
  have nodup := teaches.keyed.nodup
  rw [InStep, teaches.keys]
  rw [teaches.keys] at nodup
  clear teaches
  induction fresh generalizing restorer trimmer with
  | nil => simpa [InStep, learn] using step
  | cons entry fresh ih =>
    -- a key that is taught is not one that is known
    have first : InStep (Assoc.put entry.2 entry.1 restorer)
        { trimmer with keys := trimmer.keys ++ [entry] } := by
      intro known member
      rcases List.mem_append.mp member with member | member
      · have other : entry.2 ≠ known.2 := by
          intro same
          rw [List.map_append, List.nodup_append] at nodup
          exact nodup.2.2 known.2 (List.mem_map_of_mem member) entry.2
            (List.mem_map_of_mem List.mem_cons_self) same.symm
        rw [Assoc.get?_put, if_neg other]
        exact step known member
      · obtain rfl := List.mem_singleton.mp member
        rw [Assoc.get?_put, if_pos rfl]
    have all := ih first (by simpa using nodup)
    simpa [learn] using all

theorem restore_whole {message : ServerMessage} (whole : message.Whole) :
    restorer.restore message = (some message, restorer) := by
  have threads : ∀ record : List (String × Thread), (∀ entry ∈ record,
      entry.2.capabilitiesRef = none) → mapRecord record restorer.thread = record := by
    intro record all
    have each : ∀ entry ∈ record, (entry.1, restorer.thread entry.2) = entry := by
      intro entry member
      rw [WireRestorer.thread, all entry member]
    exact (List.map_congr_left each).trans (List.map_id' _)
  match message with
  | .snapshot (.thread thread items viewRest) rest =>
    have same : restorer.thread thread = thread := by
      rw [WireRestorer.thread, show thread.capabilitiesRef = none from whole]
    simp only [WireRestorer.restore, same]
  | .snapshot (.threads record viewRest) rest =>
    simp only [WireRestorer.restore, threads record whole]
  | .threadsPatch record rest => simp only [WireRestorer.restore, threads record whole]
  | .itemsPage items rest => rfl
  | .itemsWindow items rest => rfl
  | .providerCapabilities key capabilities => exact whole.elim
  | .other rest => rfl

theorem outgoing_spec {message : ServerMessage} (keyed : WellKeyed trimmer.keys)
    (valid : schemas.decode message = some message) (whole : message.Whole) :
    ∃ fresh last decoded,
      Teaches schemas trimmer (trimmer.outgoing message).2 [] (fresh.map teach) fresh ∧
      (trimmer.outgoing message).1 = fresh.map teach ++ [last] ∧
      schemas.decode last = some decoded ∧
      ∀ restorer : WireRestorer, InStep restorer (trimmer.outgoing message).2 →
        restorer.restore decoded = (some message, restorer) := by
  rw [WireTrimmer.outgoing]
  split
  next =>
    exact ⟨[], message, message, Teaches.refl keyed, rfl, valid, fun _ _ => restore_whole whole⟩
  next =>
    obtain ⟨fresh, teaches, decoded, read, restores⟩ := trim_spec keyed valid whole
    have frames : (trimmer.trim message).2.2 = fresh.map teach := by simpa using teaches.frames
    refine ⟨fresh, (trimmer.trim message).1, decoded, frames ▸ teaches, ?_, read, restores⟩
    simp only [frames]

theorem received_sent {messages : List ServerMessage} (keyed : WellKeyed trimmer.keys)
    (step : InStep restorer trimmer)
    (valid : ∀ message ∈ messages, schemas.decode message = some message)
    (whole : ∀ message ∈ messages, message.Whole) :
    received schemas restorer (trimmer.sent messages) = some messages := by
  induction messages generalizing trimmer restorer with
  | nil => rfl
  | cons message messages ih =>
    obtain ⟨fresh, last, decoded, teaches, frames, read, restores⟩ :=
      outgoing_spec keyed (valid message List.mem_cons_self) (whole message List.mem_cons_self)
    have step' := inStep_learn step teaches
    have short : ∀ entry ∈ fresh, 1 ≤ utf16Length entry.2 ∧ utf16Length entry.2 ≤ 64 := by
      intro entry member
      apply teaches.keyed.length_key
      rw [teaches.keys]
      exact List.mem_append_right _ member
    have rest := ih teaches.keyed step'
      (fun message member => valid message (List.mem_cons_of_mem _ member))
      (fun message member => whole message (List.mem_cons_of_mem _ member))
    rw [WireTrimmer.sent]
    simp only [frames, List.append_assoc, List.singleton_append]
    rw [received_teach restorer teaches.readable short, received, read]
    simp [restores _ step', rest]

/-- Trimming is invisible: a client hands on the messages that the daemon built, in order and
whole, whichever trims it asked for. -/
theorem wire_trimming_invisible (schemas : WireSchemas) (trims : Option (List String))
    (messages : List ServerMessage)
    (valid : ∀ message ∈ messages, schemas.decode message = some message)
    (whole : ∀ message ∈ messages, message.Whole) :
    received schemas [] ((WireTrimmer.new trims).sent messages) = some messages := by
  apply received_sent wellKeyed_nil _ valid whole
  intro entry member
  exact absurd member List.not_mem_nil

/-- Schemas that check nothing but items and keys. -/
def openSchemas : WireSchemas where
  capabilities := some
  thread := some
  threadListEntry := some
  threadView := some
  threadListView := some
  snapshot := some
  threadsPatch := some
  itemsPage := some
  itemsWindow := some
  other := some

def reasoningSample : Value :=
  .obj [("id", .str "i"), ("agentId", .str "a"), ("createdAt", .num 1), ("complete", .bool true),
    ("type", .str "reasoning"), ("text", .str "Read the file."), ("summary", .bool false),
    ("raw", .arr [])]

/-- Two lists of threads with one capability set, and a page of items. -/
def trimmedSample : List ServerMessage :=
  let thread : Thread := { capabilities := some ⟨.obj [("steer", .bool true)], rfl⟩, rest := .obj [] }
  [.snapshot (.threads [("t", thread), ("u", thread)] (.obj [])) (.obj []),
    .threadsPatch [("t", thread)] (.obj []),
    .itemsPage [reasoningSample] (.obj [])]

theorem wire_trimming_sample :
    received openSchemas []
      ((WireTrimmer.new (some ["item-defaults", "provider-capabilities"])).sent trimmedSample) =
        some trimmedSample := by
  apply wire_trimming_invisible
  · intro message member
    simp only [trimmedSample, List.mem_cons, List.not_mem_nil, or_false] at member
    rcases member with rfl | rfl | rfl <;> rfl
  · intro message member
    simp only [trimmedSample, List.mem_cons, List.not_mem_nil, or_false] at member
    rcases member with rfl | rfl | rfl <;> simp [ServerMessage.Whole]

end Ace.WireTrim
