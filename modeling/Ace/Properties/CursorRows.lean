import Ace.Script.Reparsing
import Ace.Settings.Document

/-!
# Rows of provider configuration after the Cursor migration

The rows that a document is parsed to are left alone by their schema, and so are those that the
migration makes of them. What it makes has no row of the retired CLI default and no binary path of
a Cursor row, so running it again changes nothing.

## Main result

`cursorConfiguration_again`: migrated rows are parsed to themselves and migrated to themselves.
-/

namespace Ace.Settings.Document

open Script Script.Schema

/-! ### The schema of a row -/

theorem idempotent_ids : Idempotent ids :=
  ((exact_text isId).idempotent.arrayOf _).refine _

theorem idempotent_customModel : Idempotent customModel := by
  refine Idempotent.object (by decide) fun entry member => ?_
  simp only [List.mem_cons, List.not_mem_nil, or_false] at member
  rcases member with rfl | rfl
  · exact (exact_text _).idempotent
  · exact (exact_text _).idempotent

theorem idempotent_configurationShape :
    ∀ entry ∈ providerConfigurationShape, Idempotent entry.2 := by
  intro entry member
  simp only [providerConfigurationShape, List.mem_cons, List.not_mem_nil, or_false] at member
  rcases member with rfl | rfl | rfl | rfl | rfl | rfl | rfl | rfl | rfl | rfl | rfl | rfl | rfl | rfl
  · exact (exact_enumeration _).idempotent
  · exact (exact_text _).idempotent.optional
  · exact exact_boolean.idempotent.optional
  · exact (exact_text _).nullable.idempotent.optional
  · exact (exact_text _).idempotent.optional
  · exact ((idempotent_customModel.arrayOf _).refine _).optional
  · exact idempotent_ids.optional
  · exact idempotent_ids.optional
  · exact idempotent_ids.optional
  · exact idempotent_ids.optional
  · exact idempotent_ids.optional
  · exact exact_boolean.idempotent.optional
  · exact exact_boolean.idempotent.optional
  · exact (exact_number _).idempotent.optional

theorem configurationShape_distinct : (providerConfigurationShape.map Prod.fst).Nodup := by decide

def IsRow (row : Value) : Prop := ∃ members, row = .obj members ∧
  Fits providerConfigurationShape members

theorem IsRow.parsed {row : Value} (isRow : IsRow row) : providerConfiguration row = some row := by
  obtain ⟨members, rfl, fits⟩ := isRow
  exact fits.object_eq configurationShape_distinct

theorem isRow_of_parsed {value row : Value} (parsed : providerConfiguration value = some row) :
    IsRow row := fits_of_object idempotent_configurationShape parsed

theorem isRow_of_elements {values rows : List Value}
    (parsed : arrayElements providerConfiguration values = some rows) : ∀ row ∈ rows, IsRow row := by
  induction values generalizing rows with
  | nil =>
    cases parsed
    exact fun row member => absurd member List.not_mem_nil
  | cons value values ih =>
    simp only [arrayElements, Option.bind_eq_bind, Option.bind_eq_some_iff, Option.pure_def,
      Option.some.injEq] at parsed
    obtain ⟨row, first, rest, others, rfl⟩ := parsed
    exact List.forall_mem_cons.mpr ⟨isRow_of_parsed first, ih others⟩

theorem elements_of_rows {rows : List Value} (areRows : ∀ row ∈ rows, IsRow row) :
    arrayElements providerConfiguration rows = some rows := by
  induction rows with
  | nil => rfl
  | cons row rows ih =>
    obtain ⟨first, others⟩ := List.forall_mem_cons.mp areRows
    simp only [arrayElements, Option.bind_eq_bind, first.parsed, ih others, Option.bind_some,
      Option.pure_def]

theorem configurations_eq {rows : List Value} {w : Value} (areRows : ∀ row ∈ rows, IsRow row)
    (parsed : providerConfigurations (.arr rows) = some w) : w = .arr rows := by
  simp only [providerConfigurations, refine, Option.bind_eq_some_iff] at parsed
  obtain ⟨v, elements, checked⟩ := parsed
  split at checked
  · cases checked
    simp only [arrayUpTo, arrayOf] at elements
    split at elements
    · rw [elements_of_rows areRows] at elements
      exact (Option.some.inj elements).symm
    · cases elements
  · cases checked

theorem rows_of_configurations {v w : Value} (parsed : providerConfigurations v = some w) :
    ∃ rows, w = .arr rows ∧ ∀ row ∈ rows, IsRow row := by
  simp only [providerConfigurations, refine, Option.bind_eq_some_iff] at parsed
  obtain ⟨u, elements, checked⟩ := parsed
  split at checked
  · cases checked
    cases v with
    | arr vs =>
      simp only [arrayUpTo, arrayOf] at elements
      split at elements
      · obtain ⟨rows, parsedRows, rfl⟩ := Option.map_eq_some_iff.mp elements
        exact ⟨rows, rfl, isRow_of_elements parsedRows⟩
      · cases elements
    | _ => cases elements
  · cases checked

/-! ### JSON data -/

theorem data_of_get? {infinite : Bool} {fields : List (String × Value)} {key : String} {v : Value}
    (data : fieldsAreData infinite fields = true) (found : Assoc.get? fields key = some v) :
    isData infinite v = true := by
  induction fields with
  | nil => cases found
  | cons entry fields ih =>
    obtain ⟨k, w⟩ := entry
    rw [fieldsAreData, Bool.and_eq_true] at data
    rw [Assoc.get?] at found
    split at found
    · cases found
      exact data.1
    · exact ih data.2 found

theorem data_erase {infinite : Bool} {fields : List (String × Value)} (key : String)
    (data : fieldsAreData infinite fields = true) :
    fieldsAreData infinite (Assoc.erase key fields) = true := by
  induction fields with
  | nil => rfl
  | cons entry fields ih =>
    obtain ⟨k, w⟩ := entry
    rw [fieldsAreData, Bool.and_eq_true] at data
    rw [Assoc.erase]
    split
    · exact ih data.2
    · rw [fieldsAreData, data.1, ih data.2]
      rfl

theorem data_replace {infinite : Bool} {fields : List (String × Value)} {key : String} {v : Value}
    (data : fieldsAreData infinite fields = true) (value : isData infinite v = true) :
    fieldsAreData infinite (Assoc.replace key v fields) = true := by
  induction fields with
  | nil => rfl
  | cons entry fields ih =>
    obtain ⟨k, w⟩ := entry
    rw [fieldsAreData, Bool.and_eq_true] at data
    rw [Assoc.replace]
    split
    · rw [fieldsAreData, value, data.2]
      rfl
    · rw [fieldsAreData, data.1, ih data.2]
      rfl

def Cleans (s : Schema) : Prop := ∀ v w, isData true v = true → s v = some w → isJsonData w = true

theorem cleans_text (check : String → Bool) : Cleans (text check) := by
  intro v w _ parsed
  have same := exact_text check v w parsed
  cases v with
  | str s => rw [same]; rfl
  | _ => cases parsed

theorem cleans_boolean : Cleans boolean := by
  intro v w _ parsed
  have same := exact_boolean v w parsed
  cases v with
  | bool b => rw [same]; rfl
  | _ => cases parsed

theorem cleans_number (check : ℚ → Bool) : Cleans (number check) := by
  intro v w _ parsed
  have same := exact_number check v w parsed
  cases v with
  | num q => rw [same]; rfl
  | _ => cases parsed

theorem cleans_enumeration (names : List String) : Cleans (enumeration names) := by
  intro v w _ parsed
  have same := exact_enumeration names v w parsed
  cases v with
  | str s => rw [same]; rfl
  | _ => cases parsed

theorem Cleans.nullable {s : Schema} (cleans : Cleans s) : Cleans (nullable s) := by
  intro v w data parsed
  cases v with
  | null =>
    cases parsed
    rfl
  | _ => exact cleans _ w data parsed

theorem Cleans.optional {s : Schema} (cleans : Cleans s) : Cleans (optional s) := by
  intro v w data parsed
  cases v with
  | undefined => cases data
  | _ => exact cleans _ w data parsed

theorem Cleans.refine {s : Schema} (cleans : Cleans s) (check : Value → Bool) :
    Cleans (refine s check) := by
  intro v w data parsed
  simp only [Schema.refine, Option.bind_eq_some_iff] at parsed
  obtain ⟨u, first, checked⟩ := parsed
  split at checked
  · cases checked
    exact cleans v w data first
  · cases checked

theorem Cleans.elements {element : Schema} (cleans : Cleans element) {vs ws : List Value}
    (data : areData true vs = true) (parsed : arrayElements element vs = some ws) :
    areData false ws = true := by
  induction vs generalizing ws with
  | nil =>
    cases parsed
    rfl
  | cons v vs ih =>
    rw [areData, Bool.and_eq_true] at data
    simp only [arrayElements, Option.bind_eq_bind, Option.bind_eq_some_iff, Option.pure_def,
      Option.some.injEq] at parsed
    obtain ⟨w, first, rest, others, rfl⟩ := parsed
    rw [areData, Bool.and_eq_true]
    exact ⟨cleans v w data.1 first, ih data.2 others⟩

theorem Cleans.arrayOf {element : Schema} (cleans : Cleans element) (check : Nat → Bool) :
    Cleans (arrayOf element check) := by
  intro v w data parsed
  cases v with
  | arr vs =>
    simp only [Schema.arrayOf] at parsed
    split at parsed
    · obtain ⟨ws, elements, rfl⟩ := Option.map_eq_some_iff.mp parsed
      exact cleans.elements data elements
    · cases parsed
  | _ => cases parsed

/-- A member is JSON data if it is there, and is not made up if it is not. -/
def CleansMember (s : Schema) : Prop :=
  Cleans s ∧ ∀ w, s .undefined = some w → w = .undefined

theorem Cleans.member {s : Schema} (cleans : Cleans s) : CleansMember (Schema.optional s) :=
  ⟨cleans.optional, fun _ parsed => (Option.some.inj parsed).symm⟩

theorem cleans_objectFields {shape : List (String × Schema)} {fields out : List (String × Value)}
    (cleans : ∀ entry ∈ shape, CleansMember entry.2) (data : fieldsAreData true fields = true)
    (parsed : objectFields shape fields = some out) : fieldsAreData false out = true := by
  induction shape generalizing out with
  | nil =>
    cases parsed
    rfl
  | cons entry shape ih =>
    obtain ⟨k, s⟩ := entry
    simp only [objectFields, Option.bind_eq_bind, Option.bind_eq_some_iff, Option.pure_def,
      Option.some.injEq] at parsed
    obtain ⟨v, first, rest, others, rfl⟩ := parsed
    have restData := ih (fun entry member => cleans entry (List.mem_cons_of_mem _ member)) others
    obtain ⟨cleansValue, notMadeUp⟩ := cleans (k, s) List.mem_cons_self
    split
    · exact restData
    next kept =>
      rw [fieldsAreData, Bool.and_eq_true]
      refine ⟨?_, restData⟩
      cases found : Assoc.get? fields k with
      | some u =>
        rw [found] at first
        exact cleansValue u v (data_of_get? data found) first
      | none =>
        rw [found] at first kept
        rw [notMadeUp v first] at kept
        exact absurd rfl kept

theorem cleans_object {shape : List (String × Schema)}
    (cleans : ∀ entry ∈ shape, CleansMember entry.2) : Cleans (object shape) := by
  intro v w data parsed
  cases v with
  | obj fields =>
    obtain ⟨out, members, rfl⟩ := Option.map_eq_some_iff.mp parsed
    exact cleans_objectFields cleans data members
  | exotic fields => cases data
  | _ => cases parsed

theorem cleans_ids : Cleans ids := ((cleans_text isId).arrayOf _).refine _

theorem cleans_customModel : Cleans customModel := by
  refine cleans_object fun entry member => ?_
  simp only [List.mem_cons, List.not_mem_nil, or_false] at member
  rcases member with rfl | rfl
  · exact ⟨cleans_text _, fun w parsed => nomatch parsed⟩
  · exact ⟨cleans_text _, fun w parsed => nomatch parsed⟩

theorem cleans_providerConfiguration : Cleans providerConfiguration := by
  refine cleans_object fun entry member => ?_
  simp only [providerConfigurationShape, List.mem_cons, List.not_mem_nil, or_false] at member
  rcases member with rfl | rfl | rfl | rfl | rfl | rfl | rfl | rfl | rfl | rfl | rfl | rfl | rfl | rfl
  · exact ⟨cleans_enumeration _, fun w parsed => nomatch parsed⟩
  · exact (cleans_text _).member
  · exact cleans_boolean.member
  · exact (cleans_text _).nullable.member
  · exact (cleans_text _).member
  · exact ((cleans_customModel.arrayOf _).refine _).member
  · exact cleans_ids.member
  · exact cleans_ids.member
  · exact cleans_ids.member
  · exact cleans_ids.member
  · exact cleans_ids.member
  · exact cleans_boolean.member
  · exact cleans_boolean.member
  · exact (cleans_number _).member

theorem cleans_configurations : Cleans providerConfigurations :=
  (cleans_providerConfiguration.arrayOf _).refine _

/-! ### A migrated row -/

/-- A row that the migration leaves alone. -/
structure Settled (row : Value) : Prop where
  isRow : IsRow row
  notRetired : isCursor row = true → row.field "instance" ≠ .str "cursor-cli-default"
  noBinary : isCursor row = true → row.hasOwn "binaryPath" = false

theorem cursorInstanceId_ne (instanceId : Value) :
    cursorInstanceId instanceId ≠ .str "cursor-cli-default" := by
  rw [cursorInstanceId]
  split
  · decide
  · assumption

theorem cursorInstanceId_again {instanceId : Value}
    (notRetired : instanceId ≠ .str "cursor-cli-default") :
    cursorInstanceId instanceId = instanceId := if_neg notRetired

theorem instance_unique {s : Schema} (member : ("instance", s) ∈ providerConfigurationShape) :
    s = optional configurationId := by
  simp only [providerConfigurationShape, List.mem_cons, Prod.mk.injEq, List.not_mem_nil,
    or_false] at member
  simpa using member

theorem binaryPath_optional {s : Schema} (member : ("binaryPath", s) ∈ providerConfigurationShape) :
    s .undefined = some .undefined := by
  simp only [providerConfigurationShape, List.mem_cons, Prod.mk.injEq, List.not_mem_nil,
    or_false] at member
  simp at member
  rw [member]
  rfl

theorem IsRow.instance_accepted {row : Value} (isRow : IsRow row) :
    optional configurationId (cursorInstanceId (row.field "instance")) =
      some (cursorInstanceId (row.field "instance")) := by
  rw [cursorInstanceId]
  split
  · rfl
  · obtain ⟨members, rfl, fits⟩ := isRow
    exact get?_objectFields configurationShape_distinct
      (fits.objectFields_eq configurationShape_distinct fun _ _ => rfl)
      (k := "instance") (.tail _ (.head _))

theorem get?_of_truthy {members : List (String × Value)} {key : String}
    (isTruthy : truthy (cursorInstanceId ((Value.obj members).field key)) = true) :
    (Assoc.get? members key).isSome = true := by
  rw [Value.field_obj] at isTruthy
  cases found : Assoc.get? members key with
  | some v => rfl
  | none =>
    rw [found] at isTruthy
    cases isTruthy

theorem erased_binaryPath (members : List (String × Value)) :
    Assoc.get? (Assoc.erase "binaryPath" members) "binaryPath" = none := by
  rw [Assoc.get?_erase, if_pos rfl]

theorem cursorRow_settled {row : Value} (isRow : IsRow row) : Settled (cursorRow row) := by
  have accepted := isRow.instance_accepted
  obtain ⟨members, rfl, fits⟩ := isRow
  rw [cursorRow]
  split
  next isCursorRow =>
    have erased := fits.erase (k := "binaryPath") fun s member => binaryPath_optional member
    simp only
    split
    next isTruthy =>
      have present : (Assoc.get? (Assoc.erase "binaryPath" members) "instance").isSome = true := by
        rw [Assoc.get?_erase, if_neg (by decide)]
        exact get?_of_truthy isTruthy
      simp only [Value.eraseField, Value.setField]
      refine ⟨⟨_, rfl, ?_⟩, fun _ => ?_, fun _ => ?_⟩
      · rw [Assoc.put, if_pos present]
        refine erased.replace fun s member => ?_
        rw [instance_unique member]
        exact accepted
      · rw [Value.field_obj, Assoc.get?_put, if_pos rfl]
        exact cursorInstanceId_ne _
      · rw [Value.hasOwn, Value.fields, Assoc.get?_put, if_neg (by decide), erased_binaryPath]
        rfl
    next notTruthy =>
      simp only [Value.eraseField]
      refine ⟨⟨_, rfl, erased⟩, fun _ retired => notTruthy ?_, fun _ => ?_⟩
      · -- the id of the CLI default is mapped to a nonempty one
        rw [Value.field_obj, Assoc.get?_erase, if_neg (by decide), ← Value.field_obj] at retired
        rw [retired]
        rfl
      · rw [Value.hasOwn, Value.fields, erased_binaryPath]
        rfl
  next other => exact ⟨⟨members, rfl, fits⟩, fun isCursorRow => absurd isCursorRow other,
      fun isCursorRow => absurd isCursorRow other⟩

theorem Settled.cursorRow_eq {row : Value} (settled : Settled row) : cursorRow row = row := by
  obtain ⟨⟨members, rfl, fits⟩, notRetired, noBinary⟩ := settled
  rw [cursorRow]
  split
  next isCursorRow =>
    have missing : Assoc.get? members "binaryPath" = none :=
      Option.isSome_eq_false_iff.mp (noBinary isCursorRow) |> Option.isNone_iff_eq_none.mp
    rw [cursorInstanceId_again (notRetired isCursorRow)]
    simp only [Value.eraseField, Assoc.erase_of_get?_none missing]
    split
    next isTruthy =>
      cases found : Assoc.get? members "instance" with
      | none =>
        rw [Value.field_obj, found] at isTruthy
        cases isTruthy
      | some v =>
        have same : Assoc.put "instance" v members = members := by
          rw [Assoc.put, if_pos (by rw [found]; rfl), Assoc.replace_get? found]
        rw [Value.setField, Value.field_obj, found, Option.getD_some, same]
    · rfl
  · rfl

theorem Settled.not_collides {row : Value} (settled : Settled row) (rows : List Value) :
    collides rows row = false := by
  rw [collides]
  by_cases isCursorRow : isCursor row = true
  · rw [decide_eq_false (settled.notRetired isCursorRow), Bool.and_false, Bool.false_and]
  · rw [Bool.eq_false_iff.mpr isCursorRow, Bool.false_and, Bool.false_and]

/-! ### Migrated rows -/

theorem cursorRows_settled {rows values next : List Value}
    (migrated : cursorRows rows values = some next) : ∀ row ∈ next, Settled row := by
  induction values generalizing next with
  | nil =>
    cases migrated
    exact fun row member => absurd member List.not_mem_nil
  | cons value values ih =>
    simp only [cursorRows, Option.bind_eq_bind, Option.bind_eq_some_iff, Option.pure_def,
      Option.some.injEq] at migrated
    obtain ⟨row, parsed, rest, others, rfl⟩ := migrated
    split
    · exact ih others
    · exact List.forall_mem_cons.mpr ⟨cursorRow_settled (isRow_of_parsed parsed), ih others⟩

theorem cursorRows_again {rows values : List Value} (settled : ∀ row ∈ values, Settled row) :
    cursorRows rows values = some values := by
  induction values with
  | nil => rfl
  | cons row values ih =>
    obtain ⟨first, others⟩ := List.forall_mem_cons.mp settled
    simp only [cursorRows, Option.bind_eq_bind, first.isRow.parsed, ih others, Option.bind_some,
      first.not_collides, first.cursorRow_eq, Bool.false_eq_true, if_false, Option.pure_def]

theorem cursorRow_data {row : Value} (data : isJsonData row = true) :
    isJsonData (cursorRow row) = true := by
  rw [cursorRow]
  split
  · cases row with
    | obj members =>
      have erased := data_erase "binaryPath" data
      simp only [Value.eraseField]
      split
      next isTruthy =>
        have present : (Assoc.get? (Assoc.erase "binaryPath" members) "instance").isSome = true := by
          rw [Assoc.get?_erase, if_neg (by decide)]
          exact get?_of_truthy isTruthy
        rw [Value.setField, Assoc.put, if_pos present]
        refine data_replace erased ?_
        revert isTruthy
        cases cursorInstanceId ((Value.obj members).field "instance") with
        | str s => exact fun _ => rfl
        | _ =>
          intro isTruthy
          cases isTruthy
      · exact erased
    | exotic members => cases data
    | null | bool b | num q | str s | arr vs =>
      simp only [Value.eraseField]
      split
      · exact data
      · exact data
    | _ => cases data
  · exact data

theorem cursorRows_data {rows values next : List Value} (areRows : ∀ row ∈ values, IsRow row)
    (data : areData false values = true) (migrated : cursorRows rows values = some next) :
    areData false next = true := by
  induction values generalizing next with
  | nil =>
    cases migrated
    rfl
  | cons value values ih =>
    obtain ⟨first, others⟩ := List.forall_mem_cons.mp areRows
    rw [areData, Bool.and_eq_true] at data
    simp only [cursorRows, Option.bind_eq_bind, Option.bind_eq_some_iff, Option.pure_def,
      Option.some.injEq, first.parsed] at migrated
    obtain ⟨row, rfl, rest, more, rfl⟩ := migrated
    split
    · exact ih others data.2 more
    · rw [areData, Bool.and_eq_true]
      exact ⟨cursorRow_data data.1, ih others data.2 more⟩

theorem cursorConfiguration_data {v : Value} {rows next : List Value} (data : isData true v = true)
    (parsed : providerConfigurations v = some (.arr rows))
    (migrated : cursorConfiguration rows = some next) : isJsonData (.arr next) = true := by
  obtain ⟨rows', same, areRows⟩ := rows_of_configurations parsed
  cases same
  exact cursorRows_data areRows (cleans_configurations v _ data parsed) migrated

theorem cursorConfiguration_again {rows next : List Value}
    (migrated : cursorConfiguration rows = some next) :
    (∀ w, providerConfigurations (.arr next) = some w → w = .arr next) ∧
      cursorConfiguration next = some next := by
  have settled := cursorRows_settled migrated
  refine ⟨fun w parsed => ?_, cursorRows_again settled⟩
  exact configurations_eq (fun row member => (settled row member).isRow) parsed

end Ace.Settings.Document
