import Ace.Properties.SettingsReads
import Ace.Script.Numbering

/-!
# Decoding settings ends and changes nothing twice

Each of the three migrations removes what it looks for and adds nothing that another one looks for,
so that after at most three of them a document is left alone.

## Main result

`decode_settles`
-/

namespace Ace.Settings.Document

open Script Script.Schema

variable {host : Host} {values : SettingsValues}

/-! ### What the migrations look for -/

def NoRetired (ss : List (String × Value)) : Prop :=
  ∀ key, isRetiredWorkflowKey key = true → Assoc.get? ss key = none

def NetworksSettled (values : SettingsValues) (ss : List (String × Value)) : Prop :=
  ∀ settings, Reads values ss settings → remoteNetworksMigration settings = none

def CursorSettled (values : SettingsValues) (ss : List (String × Value)) : Prop :=
  ∀ settings rows next, Reads values ss settings →
    settings.field "providers.configuration" = .arr rows → cursorConfiguration rows = some next →
    Value.sameJson (.arr next) (.arr rows) = true

/-- How many migrations a document may still need. -/
def Needs (values : SettingsValues) : Nat → List (String × Value) → Prop
  | 0, ss => NoRetired ss ∧ NetworksSettled values ss ∧ CursorSettled values ss
  | 1, ss => NoRetired ss ∧ NetworksSettled values ss
  | 2, ss => NoRetired ss
  | _ + 3, _ => True

/-- The keys that the migration of networks writes. -/
def networkKeys : List String :=
  ["remote.lan", "remote.tailscale", "remote.relay", "remote.transport"]

/-- A key that a migration names. -/
def Named (key : String) : Prop :=
  isRetiredWorkflowKey key = true ∨ key ∈ networkKeys ∨ key = "providers.configuration"

theorem networkKeys_kept : ∀ key ∈ networkKeys, isRetiredWorkflowKey key = false := by decide

theorem retiredWorkflowKeys_eq_nil {ss : List (String × Value)} {settings : Value}
    (reads : Reads values ss settings) : retiredWorkflowKeys settings = [] ↔ NoRetired ss := by
  have isKey : ∀ key, key ∈ Assoc.keys settings.fields ↔ (Assoc.get? ss key).isSome = true :=
    fun key => by rw [← Assoc.get?_isSome_iff, ← reads.isSome]; rfl
  rw [retiredWorkflowKeys, List.filter_eq_nil_iff]
  constructor
  · intro none_ key retired
    cases found : Assoc.get? ss key with
    | none => rfl
    | some v => exact absurd retired (none_ key ((isKey key).mpr (by rw [found]; rfl)))
  · intro none_ key member retired
    have := (isKey key).mp member
    rw [none_ key retired] at this
    cases this

theorem Reads.field_eq {ss ss' : List (String × Value)} {settings settings' : Value}
    (reads : Reads values ss settings) (reads' : Reads values ss' settings') {key : String}
    {s : Schema} (member : (key, s) ∈ values.shape)
    (same : Assoc.get? ss' key = Assoc.get? ss key) : settings'.field key = settings.field key := by
  have first := reads.member key s member
  have second := reads'.member key s member
  rw [same] at second
  exact Option.some.inj (second.symm.trans first)

theorem Reads.migration_eq {ss ss' : List (String × Value)} {settings settings' : Value}
    (reads : Reads values ss settings) (reads' : Reads values ss' settings')
    (same : ∀ key, key ≠ "providers.configuration" → Assoc.get? ss' key = Assoc.get? ss key) :
    remoteNetworksMigration settings' = remoteNetworksMigration settings := by
  obtain ⟨check, relayUrl⟩ := values.relayUrl
  rw [remoteNetworksMigration, remoteNetworksMigration,
    reads.field_eq reads' relayUrl (same _ (by decide)),
    reads.field_eq reads' values.transport (same _ (by decide)),
    reads.field_eq reads' values.lan (same _ (by decide)),
    reads.field_eq reads' values.tailscale (same _ (by decide)),
    reads.field_eq reads' values.relay (same _ (by decide))]

theorem Reads.no_transport {ss : List (String × Value)} {settings : Value}
    (reads : Reads values ss settings) (data : fieldsAreData true ss = true)
    (settled : remoteNetworksMigration settings = none) :
    Assoc.get? ss "remote.transport" = none := by
  cases found : Assoc.get? ss "remote.transport" with
  | none => rfl
  | some v =>
    have parsed := reads.member _ _ values.transport
    have isThere := data_of_get? data found
    rw [found, Option.getD_some] at parsed
    rw [remoteNetworksMigration] at settled
    cases v with
    | str s =>
      have same : settings.field "remote.transport" = .str s := by
        simp only [Schema.optional, enumeration] at parsed
        split at parsed
        · exact (Option.some.inj parsed).symm
        · cases parsed
      rw [same] at settled
      cases settled
    | undefined => cases isThere
    | _ => cases parsed

/-! ### What the migrations write -/

theorem Stands.data {lib : Jsonc} (edits : lib.EditsOne) {text : String}
    {ss : List (String × Value)} (stands : Stands lib text ss) : fieldsAreData true ss = true := by
  obtain ⟨faultless, fields, parsed, -, settings⟩ := stands
  have whole := edits.data text faultless
  rw [parsed] at whole
  exact data_of_get? whole settings

theorem removed_data : ∀ v, (none : Option Value) = some v → isJsonData v = true := nofun

theorem removeKeys_stands (edits : host.lib.EditsOne) {keys : List String} :
    ∀ {text : String} {ss : List (String × Value)}, Stands host.lib text ss →
      ∃ ss', Stands host.lib (removeKeys host text keys) ss' ∧
        ∀ key, Assoc.get? ss' key = if key ∈ keys then none else Assoc.get? ss key := by
  induction keys with
  | nil => exact fun stands => ⟨_, stands, fun key => (if_neg List.not_mem_nil).symm⟩
  | cons first keys ih =>
    intro text ss stands
    obtain ⟨ss', after, members⟩ := ih (stands.edit edits first removed_data)
    refine ⟨ss', after, fun key => ?_⟩
    rw [members key]
    by_cases same : first = key
    · subst same
      rw [get?_assign_self, ite_self, if_pos List.mem_cons_self]
    · rw [get?_assign_ne same]
      simp only [List.mem_cons, Ne.symm same, false_or]

theorem bool_data (b : Bool) : ∀ v, some (Value.bool b) = some v → isJsonData v = true := by
  intro v same
  cases same
  rfl

theorem writeNetworks_stands (edits : host.lib.EditsOne) {text : String}
    {ss : List (String × Value)} (stands : Stands host.lib text ss) (migration : NetworksMigration) :
    ∃ ss', Stands host.lib (writeNetworks host text migration) ss' ∧
      (∀ key, key ∉ networkKeys → Assoc.get? ss' key = Assoc.get? ss key) ∧
      Assoc.get? ss' "remote.lan" = some (.bool migration.networks.lan) ∧
      Assoc.get? ss' "remote.transport" =
        if migration.dropTransport then none else Assoc.get? ss "remote.transport" := by
  have written := ((stands.edit edits "remote.lan" (bool_data migration.networks.lan)).edit edits
    "remote.tailscale" (bool_data migration.networks.tailscale)).edit edits "remote.relay"
    (bool_data migration.networks.relay)
  rw [writeNetworks]
  by_cases drop : migration.dropTransport = true
  · simp only [drop, if_true]
    refine ⟨_, written.edit edits "remote.transport" removed_data, fun key other => ?_, ?_,
      get?_assign_self _ _ _⟩
    · simp only [networkKeys, List.mem_cons, List.not_mem_nil, or_false, not_or] at other
      rw [get?_assign_ne (Ne.symm other.2.2.2), get?_assign_ne (Ne.symm other.2.2.1),
        get?_assign_ne (Ne.symm other.2.1), get?_assign_ne (Ne.symm other.1)]
    · rw [get?_assign_ne (by decide), get?_assign_ne (by decide), get?_assign_ne (by decide),
        get?_assign_self]
  · simp only [drop, Bool.false_eq_true, if_false]
    refine ⟨_, written, fun key other => ?_, ?_, ?_⟩
    · simp only [networkKeys, List.mem_cons, List.not_mem_nil, or_false, not_or] at other
      rw [get?_assign_ne (Ne.symm other.2.2.1), get?_assign_ne (Ne.symm other.2.1),
        get?_assign_ne (Ne.symm other.1)]
    · rw [get?_assign_ne (by decide), get?_assign_ne (by decide), get?_assign_self]
    · rw [get?_assign_ne (by decide), get?_assign_ne (by decide), get?_assign_ne (by decide)]

/-! ### A turn -/

theorem needs_removed {ss ss' : List (String × Value)} {settings : Value}
    (reads : Reads values ss settings)
    (members : ∀ key, Assoc.get? ss' key =
      if key ∈ retiredWorkflowKeys settings then none else Assoc.get? ss key) : NoRetired ss' := by
  intro key retired
  rw [members key]
  split
  · rfl
  next kept =>
    cases found : Assoc.get? ss key with
    | none => rfl
    | some v =>
      refine absurd (List.mem_filter.mpr ⟨?_, retired⟩) kept
      have isThere : settings.hasOwn key = true := by rw [reads.isSome, found]; rfl
      exact (Assoc.get?_isSome_iff _ _).mp isThere

theorem needs_networks {ss ss' : List (String × Value)} {settings : Value}
    {migration : NetworksMigration} (reads : Reads values ss settings)
    (migrates : remoteNetworksMigration settings = some migration) (noRetired : NoRetired ss)
    (others : ∀ key, key ∉ networkKeys → Assoc.get? ss' key = Assoc.get? ss key)
    (lan : Assoc.get? ss' "remote.lan" = some (.bool migration.networks.lan))
    (transport : Assoc.get? ss' "remote.transport" =
      if migration.dropTransport then none else Assoc.get? ss "remote.transport") :
    NoRetired ss' ∧ NetworksSettled values ss' := by
  refine ⟨fun key retired => ?_, fun settings' reads' => ?_⟩
  · have other : key ∉ networkKeys := fun member => by
      rw [networkKeys_kept key member] at retired
      cases retired
    rw [others key other]
    exact noRetired key retired
  · have chosen : settings'.field "remote.lan" = .bool migration.networks.lan := by
      have parsed := reads'.member _ _ values.lan
      rw [lan] at parsed
      exact (Option.some.inj parsed).symm
    have noTransport : (settings'.field "remote.transport").string? = none := by
      by_cases drop : migration.dropTransport = true
      · have parsed := reads'.member _ _ values.transport
        rw [transport, if_pos drop] at parsed
        rw [← Option.some.inj parsed]
        rfl
      · -- the transport was not read either
        rw [if_neg drop] at transport
        rw [reads.field_eq reads' values.transport transport]
        rw [remoteNetworksMigration] at migrates
        simp only at migrates
        split at migrates
        · cases migrates
          exact absurd rfl drop
        next missing => exact missing
    rw [remoteNetworksMigration, noTransport, chosen]
    rfl

theorem needs_cursor {ss : List (String × Value)} {settings : Value} {rows next : List Value}
    (reads : Reads values ss settings) (noRetired : NoRetired ss)
    (settled : remoteNetworksMigration settings = none)
    (migrated : cursorConfiguration rows = some next) :
    Needs values 0 (assign "providers.configuration" (some (.arr next)) ss) := by
  obtain ⟨parsedAgain, migratedAgain⟩ := cursorConfiguration_again migrated
  refine ⟨fun key retired => ?_, fun settings' reads' => ?_,
    fun settings' rows' next' reads' isRows migrates => ?_⟩
  · have other : "providers.configuration" ≠ key := by
      rintro rfl
      exact absurd retired (by decide)
    rw [get?_assign_ne other]
    exact noRetired key retired
  · rw [reads.migration_eq reads' fun key other => get?_assign_ne (Ne.symm other) _ _]
    exact settled
  · have parsed := reads'.member _ _ values.configuration
    rw [get?_assign_self] at parsed
    have same := parsedAgain _ parsed
    rw [isRows] at same
    cases same
    cases migratedAgain.symm.trans migrates
    exact Value.sameJson_self _

theorem Needs.of_retired {n : Nat} {ss : List (String × Value)} (needs : Needs values n ss)
    (retired : ¬NoRetired ss) : 2 < n := by
  match n, needs with
  | 0, needs => exact absurd needs.1 retired
  | 1, needs => exact absurd needs.1 retired
  | 2, needs => exact absurd needs retired
  | n + 3, _ => omega

theorem Needs.of_networks {n : Nat} {ss : List (String × Value)} (needs : Needs values n ss)
    (networks : ¬NetworksSettled values ss) : 1 < n := by
  match n, needs with
  | 0, needs => exact absurd needs.2.1 networks
  | 1, needs => exact absurd needs.2 networks
  | n + 2, _ => omega

theorem Needs.of_cursor {n : Nat} {ss : List (String × Value)} (needs : Needs values n ss)
    (cursor : ¬CursorSettled values ss) : 0 < n := by
  match n, needs with
  | 0, needs => exact absurd needs.2.2 cursor
  | n + 1, _ => omega

theorem Reads.configuration_data {ss : List (String × Value)} {settings : Value}
    {rows next : List Value} (reads : Reads values ss settings)
    (data : fieldsAreData true ss = true)
    (isRows : settings.field "providers.configuration" = .arr rows)
    (migrates : cursorConfiguration rows = some next) : isJsonData (.arr next) = true := by
  have parsed := reads.member _ _ values.configuration
  rw [isRows] at parsed
  cases found : Assoc.get? ss "providers.configuration" with
  | none =>
    rw [found] at parsed
    cases parsed
  | some v =>
    have isThere := data_of_get? data found
    rw [found, Option.getD_some] at parsed
    cases v with
    | undefined => cases isThere
    | _ => exact cursorConfiguration_data isThere parsed migrates

theorem migrate_again (edits : host.lib.EditsOne) {text text' : String} {scanned : Parsed}
    {migrated : Bool} {ss : List (String × Value)} (stands : Stands host.lib text ss)
    (value : scanned.value = host.lib.parse text)
    (again : migrate host text scanned migrated = .ok (.again text')) {n : Nat}
    (needs : Needs host.values n ss) :
    ∃ ss' m, m < n ∧ Stands host.lib text' ss' ∧ Needs host.values m ss' ∧
      ∀ key, ¬Named key → Assoc.get? ss' key = Assoc.get? ss key := by
  unfold migrate at again
  split at again
  · cases again
  next result parsed =>
    obtain ⟨fields, ss₁, root, version, found, reads⟩ := document_cases parsed
    have same : ss₁ = ss := by
      refine Stands.unique ⟨stands.1, fields, ?_, version, found⟩ stands
      rw [← value, root]
    subst same
    simp only at again
    split at again
    next retired =>
      cases again
      obtain ⟨ss', after, members⟩ := removeKeys_stands edits stands
      have before : 2 < n := needs.of_retired fun noRetired =>
        retired ((retiredWorkflowKeys_eq_nil reads).mpr noRetired)
      refine ⟨ss', 2, before, after, needs_removed reads members, fun key unnamed => ?_⟩
      have kept : key ∉ retiredWorkflowKeys (result.field "settings") := fun member =>
        unnamed (.inl (List.mem_filter.mp member).2)
      rw [members key, if_neg kept]
    next noneRetired =>
      have noRetired := (retiredWorkflowKeys_eq_nil reads).mp (not_not.mp noneRetired)
      split at again
      next migration migrates =>
        cases again
        obtain ⟨ss', after, others, lan, transport⟩ := writeNetworks_stands edits stands migration
        have before : 1 < n := needs.of_networks fun settled =>
          nomatch migrates.symm.trans (settled _ reads)
        refine ⟨ss', 1, before, after, needs_networks reads migrates noRetired others lan transport,
          fun key unnamed => others key fun member => unnamed (.inr (.inl member))⟩
      next settled =>
        simp only [bind, Except.bind] at again
        split at again
        · cases again
        · split at again
          · cases again
          · split at again
            next rows isRows =>
              split at again
              · cases again
              next next_ migrates =>
                split at again
                · unfold finish at again
                  split at again
                  · cases again
                  · cases again
                next differs =>
                  cases again
                  have before : 0 < n := needs.of_cursor fun settled =>
                    differs (settled _ _ _ reads isRows migrates)
                  have isData := reads.configuration_data (stands.data edits) isRows migrates
                  refine ⟨_, 0, before, stands.edit edits "providers.configuration" ?_,
                    needs_cursor reads noRetired settled migrates, fun key unnamed => ?_⟩
                  · intro v same
                    cases same
                    exact isData
                  · exact get?_assign_ne (fun same => unnamed (.inr (.inr same.symm))) _ _
            · unfold finish at again
              split at again
              · cases again
              · cases again

/-- The same turn for a text that was converted or was not. -/
def Turn.marked (migrated : Bool) : Turn → Turn
  | .again text => .again text
  | .done decoded => .done { decoded with migrated }

theorem finish_marked (text : String) (scanned : Parsed) (first second : Bool) (settings : Value) :
    finish host text scanned second settings =
      (finish host text scanned first settings).map (Turn.marked second) := by
  unfold finish
  cases host.values.knownValues settings with
  | none => rfl
  | some known => rfl

theorem migrate_marked (text : String) (scanned : Parsed) (first second : Bool) :
    migrate host text scanned second =
      (migrate host text scanned first).map (Turn.marked second) := by
  unfold migrate
  cases host.values.document scanned.value with
  | none => rfl
  | some result =>
    simp only
    split
    · rfl
    · cases remoteNetworksMigration (result.field "settings") with
      | some migration => rfl
      | none =>
        simp only [bind, Except.bind]
        cases validateClients host (result.field "settings") ["clients.theme", "clients.keybindings"]
          with
        | error thrown => rfl
        | ok valid =>
          cases refuseRetired (result.field "settings") with
          | error thrown => rfl
          | ok kept =>
            simp only
            split
            next rows isRows =>
              cases cursorConfiguration rows with
              | none => rfl
              | some next =>
                simp only
                split
                · exact finish_marked text scanned first second _
                · rfl
            · exact finish_marked text scanned first second _

theorem migrate_done (edits : host.lib.EditsOne) {text : String} {scanned : Parsed}
    {migrated : Bool} {ss : List (String × Value)} (stands : Stands host.lib text ss)
    (value : scanned.value = host.lib.parse text) {decoded : DecodedDocument}
    (ended : migrate host text scanned migrated = .ok (.done decoded)) :
    decoded.text = text ∧ NoRetired ss ∧ Assoc.get? ss "remote.transport" = none := by
  have finished : ∀ settings, finish host text scanned migrated settings = .ok (.done decoded) →
      decoded.text = text := by
    intro settings ends
    unfold finish at ends
    split at ends
    · cases ends
    · cases ends
      rfl
  unfold migrate at ended
  split at ended
  · cases ended
  next result parsed =>
    obtain ⟨fields, ss₁, root, version, found, reads⟩ := document_cases parsed
    have same : ss₁ = ss := by
      refine Stands.unique ⟨stands.1, fields, ?_, version, found⟩ stands
      rw [← value, root]
    subst same
    simp only at ended
    split at ended
    · cases ended
    next noneRetired =>
      split at ended
      · cases ended
      next settled =>
        refine ⟨?_, (retiredWorkflowKeys_eq_nil reads).mp (not_not.mp noneRetired),
          reads.no_transport (stands.data edits) settled⟩
        simp only [bind, Except.bind] at ended
        split at ended
        · cases ended
        · split at ended
          · cases ended
          · split at ended
            · split at ended
              · cases ended
              · split at ended
                · exact finished _ ended
                · cases ended
            · exact finished _ ended

theorem convert_again {text : String} {scanned : Parsed} {result : Value}
    (read : host.parseDocument text = .ok scanned)
    (parsed : host.values.document scanned.value = some result) :
    convert host text = .ok (text, scanned, false) := by
  obtain ⟨fields, ss, root, version, -, -⟩ := document_cases parsed
  obtain ⟨header, isHeader⟩ := envelope_of_version version
  have two : header.field "version" = .num 2 := by
    rw [envelope_version isHeader, Value.field_obj, version]
    rfl
  simp only [convert, bind, Except.bind, read, root, isHeader, two]
  rw [if_neg (by decide), if_neg (by decide)]
  rfl

/-! ### Runs -/

theorem turn_cases {text : String} {t : Turn} (turned : turn host text = .ok t) :
    ∃ text' scanned migrated result, convert host text = .ok (text', scanned, migrated) ∧
      migrate host text' scanned migrated = .ok t ∧
      host.values.document scanned.value = some result := by
  simp only [turn, bind, Except.bind] at turned
  split at turned
  · cases turned
  next converted isConverted =>
    obtain ⟨text', scanned, migrated⟩ := converted
    cases parsed : host.values.document scanned.value with
    | none =>
      simp only [migrate, parsed] at turned
      cases turned
    | some result => exact ⟨text', scanned, migrated, result, isConverted, turned, parsed⟩

theorem turn_again (edits : host.lib.EditsOne) {text text' : String}
    (turned : turn host text = .ok (.again text')) {n : Nat}
    (needs : Needs host.values n (originalSettings (host.lib.parse text))) :
    ∃ m < n, Needs host.values m (originalSettings (host.lib.parse text')) ∧
      ∀ key, ¬Named key → Assoc.get? (originalSettings (host.lib.parse text')) key =
        Assoc.get? (originalSettings (host.lib.parse text)) key := by
  obtain ⟨text₁, scanned, migrated, result, converted, again, parsed⟩ := turn_cases turned
  obtain ⟨stands, -, value⟩ := convert_stands edits converted parsed
  obtain ⟨ss', m, less, after, still, same⟩ := migrate_again edits stands value again needs
  rw [after.original]
  exact ⟨m, less, still, same⟩

theorem turn_done (edits : host.lib.EditsOne) {text : String} {decoded : DecodedDocument}
    (turned : turn host text = .ok (.done decoded)) :
    turn host decoded.text = .ok (.done { decoded with migrated := false }) ∧
      Stands host.lib decoded.text (originalSettings (host.lib.parse text)) ∧
      NoRetired (originalSettings (host.lib.parse text)) ∧
      Assoc.get? (originalSettings (host.lib.parse text)) "remote.transport" = none := by
  obtain ⟨text₁, scanned, migrated, result, converted, ended, parsed⟩ := turn_cases turned
  obtain ⟨stands, read, value⟩ := convert_stands edits converted parsed
  obtain ⟨same, noRetired, noTransport⟩ := migrate_done edits stands value ended
  subst same
  refine ⟨?_, stands, noRetired, noTransport⟩
  rw [turn, convert_again read parsed]
  change migrate host decoded.text scanned false = _
  rw [migrate_marked decoded.text scanned migrated false, ended]
  rfl

theorem decode_mono {fuel : Nat} : ∀ {text : String} {result : Except Thrown DecodedDocument},
    decode host fuel text = some result → ∀ {more}, fuel ≤ more →
      decode host more text = some result := by
  induction fuel with
  | zero => exact fun ended => nomatch ended
  | succ fuel ih =>
    intro text result ended more enough
    obtain ⟨more, rfl⟩ : ∃ n, more = n + 1 := ⟨more - 1, by omega⟩
    rw [decode] at ended ⊢
    split
    next thrown turned =>
      rw [turned] at ended
      exact ended
    next decoded turned =>
      rw [turned] at ended
      exact ended
    next text' turned =>
      rw [turned] at ended
      obtain ⟨inner, decodes, rfl⟩ := Option.map_eq_some_iff.mp ended
      rw [ih decodes (by omega)]
      rfl

theorem decode_ends (edits : host.lib.EditsOne) {fuel : Nat} : ∀ {n : Nat} {text : String},
    Needs host.values n (originalSettings (host.lib.parse text)) → n < fuel →
      ∃ result, decode host fuel text = some result := by
  induction fuel with
  | zero => exact fun _ less => absurd less (Nat.not_lt_zero _)
  | succ fuel ih =>
    intro n text needs less
    rw [decode]
    split
    · exact ⟨_, rfl⟩
    · exact ⟨_, rfl⟩
    next text' turned =>
      obtain ⟨m, fewer, needs', -⟩ := turn_again edits turned needs
      obtain ⟨result, decodes⟩ := ih needs' (by omega)
      rw [decodes]
      exact ⟨_, rfl⟩

theorem decode_returns (edits : host.lib.EditsOne) {fuel : Nat} : ∀ {text : String}
    {decoded : DecodedDocument}, decode host fuel text = some (.ok decoded) →
    turn host decoded.text = .ok (.done { decoded with migrated := false }) ∧
      ∃ ss, Stands host.lib decoded.text ss ∧ NoRetired ss ∧
        Assoc.get? ss "remote.transport" = none ∧ ∀ key, ¬Named key →
          Assoc.get? ss key = Assoc.get? (originalSettings (host.lib.parse text)) key := by
  induction fuel with
  | zero => exact fun ended => nomatch ended
  | succ fuel ih =>
    intro text decoded ended
    rw [decode] at ended
    split at ended
    · cases ended
    next first turned =>
      cases ended
      obtain ⟨again, stands, noRetired, noTransport⟩ := turn_done edits turned
      exact ⟨again, _, stands, noRetired, noTransport, fun key _ => rfl⟩
    next text' turned =>
      obtain ⟨inner, decodes, mapped⟩ := Option.map_eq_some_iff.mp ended
      cases inner with
      | error thrown => cases mapped
      | ok last =>
        cases mapped
        obtain ⟨again, ss, stands, noRetired, noTransport, same⟩ := ih decodes
        have anyNeeds : Needs host.values 3 (originalSettings (host.lib.parse text)) := trivial
        obtain ⟨-, -, -, kept⟩ := turn_again edits turned anyNeeds
        refine ⟨again, ss, stands, noRetired, noTransport, fun key unnamed => ?_⟩
        rw [same key unnamed, kept key unnamed]

/-- Decoding ends for every text. A document that it returns is decoded to itself, not migrated; it
has no transport and no retired setting; and every setting that no migration names is what it was. -/
theorem decode_settles (host : Host) (edits : host.lib.EditsOne) (text : String) :
    (∃ result, ∀ fuel, 4 ≤ fuel → decode host fuel text = some result) ∧
    ∀ fuel decoded, decode host fuel text = some (.ok decoded) →
      (∀ more, 0 < more →
        decode host more decoded.text = some (.ok { decoded with migrated := false })) ∧
      ∃ settings, (host.lib.parse decoded.text).field "settings" = .obj settings ∧
        (∀ key, isRetiredWorkflowKey key = true → Assoc.get? settings key = none) ∧
        Assoc.get? settings "remote.transport" = none ∧
        ∀ key, ¬Named key → Assoc.get? settings key =
          Assoc.get? (originalSettings (host.lib.parse text)) key := by
  have anyNeeds : Needs host.values 3 (originalSettings (host.lib.parse text)) := trivial
  refine ⟨?_, fun fuel decoded decodes => ?_⟩
  · obtain ⟨result, ends⟩ := decode_ends edits anyNeeds (by omega : 3 < 4)
    exact ⟨result, fun fuel enough => decode_mono ends enough⟩
  · obtain ⟨again, ss, stands, noRetired, noTransport, same⟩ := decode_returns edits decodes
    refine ⟨fun more some_ => ?_, ss, ?_, noRetired, noTransport, same⟩
    · obtain ⟨more, rfl⟩ : ∃ n, more = n + 1 := ⟨more - 1, by omega⟩
      rw [decode, again]
    · obtain ⟨-, fields, parsed, -, settings⟩ := stands
      rw [parsed, Value.field_obj, settings]
      rfl

/-! ### A library that is relied on rightly

One text that is read as it stands; every other text is a number in unary, and stands for the value
of that number. -/

mutual
theorem data_weaken : ∀ v : Value, isData false v = true → isData true v = true
  | .null, _ | .bool _, _ | .num _, _ | .str _, _ => rfl
  | .arr items, data => areData_weaken items data
  | .obj fields, data => fieldsAreData_weaken fields data

theorem areData_weaken : ∀ items : List Value, areData false items = true →
    areData true items = true
  | [], _ => rfl
  | item :: items, data => by
    rw [areData, Bool.and_eq_true] at data
    rw [areData, data_weaken item data.1, areData_weaken items data.2]
    rfl

theorem fieldsAreData_weaken : ∀ fields : List (String × Value), fieldsAreData false fields = true →
    fieldsAreData true fields = true
  | [], _ => rfl
  | (key, item) :: fields, data => by
    rw [fieldsAreData, Bool.and_eq_true] at data
    rw [fieldsAreData, data_weaken item data.1, fieldsAreData_weaken fields data.2]
    rfl
end

theorem data_insertNew {fields : List (String × Value)} {key : String} {v : Value}
    (data : fieldsAreData true fields = true) (value : isData true v = true) :
    fieldsAreData true (Assoc.insertNew key v fields) = true := by
  induction fields with
  | nil =>
    rw [Assoc.insertNew, fieldsAreData, value]
    rfl
  | cons entry fields ih =>
    obtain ⟨k, w⟩ := entry
    rw [Assoc.insertNew]
    split
    · rw [fieldsAreData, value, data]
      rfl
    · rw [fieldsAreData, Bool.and_eq_true] at data
      rw [fieldsAreData, data.1, ih data.2]
      rfl

theorem data_put {fields : List (String × Value)} {key : String} {v : Value}
    (data : fieldsAreData true fields = true) (value : isData true v = true) :
    fieldsAreData true (Assoc.put key v fields) = true := by
  rw [Assoc.put]
  split
  · exact data_replace data value
  · exact data_insertNew data value

theorem data_assign {fields : List (String × Value)} (key : String) {value : Option Value}
    (data : fieldsAreData true fields = true) (json : ∀ v, value = some v → isJsonData v = true) :
    fieldsAreData true (assign key value fields) = true := by
  cases value with
  | some v => exact data_put data (data_weaken v (json v rfl))
  | none => exact data_erase key data

def sampleText : String := "\x7b\"version\":2,\"settings\":\x7b\"editor.zoom\":3\x7d\x7d"

def sampleSettings : List (String × Value) := [("editor.zoom", .num 3)]

def sampleFields : List (String × Value) := [("version", .num 2), ("settings", .obj sampleSettings)]

def sampleEvents : List Event := [
  .objectBegin, .property "version" 1, .literal (.num 2) 11 1 [.name "version"],
  .property "settings" 13, .objectBegin, .property "editor.zoom" 25,
  .literal (.num 3) 39 1 [.name "settings", .name "editor.zoom"], .objectEnd, .objectEnd]

def unary (v : Value) : String := String.ofList (List.replicate v.number 'a')

theorem unary_inj {v w : Value} (same : unary v = unary w) : v = w := by
  have lists := String.ofList_injective same
  have lengths := congrArg List.length lists
  rw [List.length_replicate, List.length_replicate] at lengths
  exact Value.number_inj v w lengths

theorem unary_ne_sample (v : Value) : unary v ≠ sampleText := by
  intro same
  have lists : List.replicate v.number 'a' = sampleText.toList := by
    rw [← same, unary, String.toList_ofList]
  have member : '2' ∈ List.replicate v.number 'a' := lists ▸ by decide
  exact absurd (List.eq_of_mem_replicate member) (by decide)

open Classical in
/-- What a text stands for. -/
noncomputable def sampleParse (text : String) : Value :=
  if text = sampleText then .obj sampleFields
  else if isUnary : ∃ v, unary v = text then isUnary.choose else .undefined

open Classical in
noncomputable def sampleVisit (text : String) : List Event :=
  if text = sampleText then sampleEvents
  else if ∃ v, unary v = text ∧ isData true v = true then [] else [.failure 0]

noncomputable def sampleModify (text : String) (path : List String) (value : Option Value)
    (_ : Formatting) : String :=
  let fields := (sampleParse text).fields
  match path with
  | [key] => unary (.obj (assign key value fields))
  | [name, key] =>
    let members := ((Assoc.get? fields name).getD .undefined).fields
    unary (.obj (Assoc.put name (.obj (assign key value members)) fields))
  | _ => text

noncomputable def sampleLib : Jsonc where
  visit := sampleVisit
  parse := sampleParse
  modify := sampleModify

theorem sampleParse_unary (v : Value) : sampleParse (unary v) = v := by
  have isUnary : ∃ w, unary w = unary v := ⟨v, rfl⟩
  rw [sampleParse, if_neg (unary_ne_sample v), dif_pos isUnary]
  exact unary_inj isUnary.choose_spec

theorem sample_faultless {v : Value} (data : isData true v = true) :
    sampleLib.Faultless (unary v) := by
  have nothing : sampleLib.visit (unary v) = [] := by
    change sampleVisit (unary v) = []
    rw [sampleVisit, if_neg (unary_ne_sample v), if_pos ⟨v, rfl, data⟩]
  rw [Jsonc.Faultless, nothing]
  trivial

theorem sample_data {text : String} (faultless : sampleLib.Faultless text) :
    isData true (sampleParse text) = true := by
  by_cases isSample : text = sampleText
  · rw [sampleParse, if_pos isSample]
    rfl
  · by_cases isUnary : ∃ v, unary v = text ∧ isData true v = true
    · obtain ⟨v, rfl, data⟩ := isUnary
      rw [sampleParse_unary]
      exact data
    · have failed : sampleLib.visit text = [.failure 0] := by
        change sampleVisit text = [.failure 0]
        rw [sampleVisit, if_neg isSample, if_neg isUnary]
      rw [Jsonc.Faultless, failed] at faultless
      exact faultless.1.elim

theorem sampleLib_editsOne : sampleLib.EditsOne where
  data := fun text faultless => sample_data faultless
  outer := fun text fields key value options faultless parsed json => by
    have data : fieldsAreData true fields = true := by
      have whole := sample_data faultless
      rw [show sampleParse text = .obj fields from parsed] at whole
      exact whole
    have modified : sampleLib.modify text [key] value options =
        unary (.obj (assign key value fields)) := by
      change unary (.obj (assign key value (sampleParse text).fields)) = _
      rw [show sampleParse text = .obj fields from parsed]
      rfl
    rw [modified]
    exact ⟨sample_faultless (data_assign key data json), sampleParse_unary _⟩
  inner := fun text fields name members key value options faultless parsed found json => by
    have data : fieldsAreData true fields = true := by
      have whole := sample_data faultless
      rw [show sampleParse text = .obj fields from parsed] at whole
      exact whole
    have modified : sampleLib.modify text [name, key] value options =
        unary (.obj (Assoc.put name (.obj (assign key value members)) fields)) := by
      change unary (.obj (Assoc.put name (.obj (assign key value
        ((Assoc.get? (sampleParse text).fields name).getD .undefined).fields))
          (sampleParse text).fields)) = _
      rw [show sampleParse text = .obj fields from parsed, Value.fields, found]
      rfl
    rw [modified]
    have inner : isData true (.obj (assign key value members)) = true :=
      data_assign key (data_of_get? data found) json
    exact ⟨sample_faultless (data_put data inner), sampleParse_unary _⟩

def sampleValues : SettingsValues where
  shape := [
    ("remote.transport", enumeration ["local", "lan", "tailscale", "relay"]),
    ("remote.lan", boolean), ("remote.tailscale", boolean), ("remote.relay", boolean),
    ("remote.relayUrl", textUpTo 2048), ("providers.configuration", providerConfigurations)]
  distinct := by decide
  transport := .head _
  relayUrl := ⟨_, .tail _ (.tail _ (.tail _ (.tail _ (.head _))))⟩
  lan := .tail _ (.head _)
  tailscale := .tail _ (.tail _ (.head _))
  relay := .tail _ (.tail _ (.tail _ (.head _)))
  configuration := .tail _ (.tail _ (.tail _ (.tail _ (.tail _ (.head _)))))

noncomputable def sampleHost : Host where
  lib := sampleLib
  values := sampleValues
  numberText := fun q => (toString q.num).toList

def sampleDecoded : DecodedDocument where
  document := .obj [("version", .num 2), ("settings", .obj [])]
  text := sampleText
  bytes := 42
  migrated := false
  ranges := []

theorem sample_root : sampleHost.lib.parse sampleText = .obj sampleFields := by
  change sampleParse sampleText = _
  rw [sampleParse, if_pos rfl]

theorem sample_events : sampleHost.lib.visit sampleText = sampleEvents := by
  change sampleVisit sampleText = _
  rw [sampleVisit, if_pos rfl]

theorem sample_read : sampleHost.parseDocument sampleText =
    .ok { value := .obj sampleFields, bytes := 42, ranges := [] } := by
  rw [Host.parseDocument, parseDocument, sample_events, sample_root]
  rfl

theorem decode_sample : decode sampleHost 1 sampleText = some (.ok sampleDecoded) := by
  have parsed : sampleHost.values.document (.obj sampleFields) = some (.obj sampleFields) := rfl
  have turned : turn sampleHost sampleText = .ok (.done sampleDecoded) := by
    rw [turn, convert_again sample_read parsed]
    rfl
  rw [decode, turned]

/-- An unknown setting stays. -/
theorem decode_settles_unknown :
    sampleLib.EditsOne ∧ decode sampleHost 1 sampleText = some (.ok sampleDecoded) ∧
      decode sampleHost 1 sampleDecoded.text = some (.ok sampleDecoded) ∧
      ∃ settings, (sampleLib.parse sampleText).field "settings" = .obj settings ∧
        Assoc.get? settings "editor.zoom" = some (.num 3) := by
  obtain ⟨-, returns⟩ := decode_settles sampleHost sampleLib_editsOne sampleText
  obtain ⟨again, settings, written, -, -, same⟩ := returns 1 sampleDecoded decode_sample
  refine ⟨sampleLib_editsOne, decode_sample, again 1 Nat.one_pos, settings, written, ?_⟩
  have unnamed : ¬Named "editor.zoom" := by
    unfold Named
    decide
  rw [same "editor.zoom" unnamed]
  rw [sample_root]
  rfl

end Ace.Settings.Document
