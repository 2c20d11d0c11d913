import Ace.Properties.SettingsEdits

/-!
# What settings are parsed to

A document of version 2 with the settings that a text stands for is parsed member by member: those
that the schema names by their schemas, the others as they are. A document of version 1 is turned
into one of version 2 by three edits.

## Main results

`document_cases`: the settings of a document that is parsed, and what they are parsed to.
`convert_stands`: the conversion keeps the settings.
-/

namespace Ace.Settings.Document

open Script Script.Schema

/-! ### Objects with unknown members -/

theorem get?_unnamed (names : List String) (fields : List (String × Value)) (key : String) :
    Assoc.get? (fields.filter fun entry => !names.contains entry.1) key =
      if names.contains key = true then none else Assoc.get? fields key := by
  induction fields with
  | nil => rw [List.filter_nil, Assoc.get?, ite_self]
  | cons entry fields ih =>
    obtain ⟨k, v⟩ := entry
    rw [List.filter_cons]
    by_cases same : k = key
    · subst same
      by_cases named : names.contains k = true
      · rw [named] at ih ⊢
        exact ih
      · rw [Bool.eq_false_iff.mpr named]
        simp only [Bool.not_false, if_true, Assoc.get?, Bool.false_eq_true, if_false]
    · rw [Assoc.get?, if_neg same]
      split
      · rw [Assoc.get?, if_neg same]
        exact ih
      · exact ih

theorem exact_jsonValue : Exact jsonValue := by
  intro v w parsed
  simp only [jsonValue] at parsed
  split at parsed
  · exact (Option.some.inj parsed).symm
  · cases parsed

theorem recordFields_eq {element : Schema} (exact : Exact element)
    {fields out : List (String × Value)}
    (parsed : recordFields (fun _ => true) element fields = some out) : out = fields := by
  induction fields generalizing out with
  | nil => exact (Option.some.inj parsed).symm
  | cons entry fields ih =>
    obtain ⟨k, v⟩ := entry
    simp only [recordFields, Option.bind_eq_bind, Option.bind_eq_some_iff, if_true, Option.pure_def,
      Option.some.injEq] at parsed
    obtain ⟨w, first, rest, others, rfl⟩ := parsed
    rw [exact v w first, ih others]

variable {shape : List (String × Schema)}

theorem get?_objectFields_other {fields out : List (String × Value)}
    (parsed : objectFields shape fields = some out) {key : String}
    (other : key ∉ shape.map Prod.fst) : Assoc.get? out key = none := by
  rw [Assoc.get?_eq_none_iff]
  exact fun member => other ((keys_objectFields parsed).subset member)

theorem isSome_objectFields (distinct : (shape.map Prod.fst).Nodup)
    {fields out : List (String × Value)} (parsed : objectFields shape fields = some out)
    {key : String} (named : key ∈ shape.map Prod.fst)
    (lenient : Assoc.get? fields key = none →
      ∀ s, (key, s) ∈ shape → s .undefined = some .undefined) :
    (Assoc.get? out key).isSome = (Assoc.get? fields key).isSome := by
  induction shape generalizing out with
  | nil => exact absurd named List.not_mem_nil
  | cons entry shape ih =>
    obtain ⟨k, s⟩ := entry
    rw [List.map_cons, List.nodup_cons] at distinct
    simp only [objectFields, Option.bind_eq_bind, Option.bind_eq_some_iff, Option.pure_def,
      Option.some.injEq] at parsed
    obtain ⟨v, first, rest, others, rfl⟩ := parsed
    by_cases same : k = key
    · subst same
      have gone := get?_objectFields_other others distinct.1
      cases found : Assoc.get? fields k with
      | none =>
        have missing := lenient found s List.mem_cons_self
        rw [found, Option.getD_none, missing] at first
        cases first
        simp only [Value.isUndefined, Option.isNone_none, Bool.and_self, if_true, gone]
      | some u =>
        simp only [Option.isNone_some, Bool.and_false, Bool.false_eq_true, if_false, Assoc.get?,
          if_true, Option.isSome_some]
    · have inRest : key ∈ shape.map Prod.fst :=
        (List.mem_cons.mp named).resolve_left (Ne.symm same)
      have tail := ih distinct.2 others inRest
        fun missing s member => lenient missing s (List.mem_cons_of_mem _ member)
      split
      · exact tail
      · rw [Assoc.get?, if_neg same]
        exact tail

/-- What is parsed of an object: the members of the shape by their schemas, and exactly the members
that are there, if all of the shape are optional. -/
theorem catchall_members (distinct : (shape.map Prod.fst).Nodup) {v w : Value}
    (parsed : catchall shape jsonValue v = some w) : ∃ fields out, v = .obj fields ∧ w = .obj out ∧
      (∀ key s, (key, s) ∈ shape → s ((Assoc.get? fields key).getD .undefined) =
        some ((Assoc.get? out key).getD .undefined)) ∧
      ((∀ entry ∈ shape, entry.2 .undefined = some .undefined) →
        ∀ key, (Assoc.get? out key).isSome = (Assoc.get? fields key).isSome) := by
  cases v with
  | obj fields =>
    simp only [catchall, Option.bind_eq_bind, Option.bind_eq_some_iff, Option.pure_def,
      Option.some.injEq] at parsed
    obtain ⟨known, first, unknown, rest, rfl⟩ := parsed
    rw [recordFields_eq exact_jsonValue rest]
    refine ⟨fields, _, rfl, rfl, fun key s member => ?_, fun lenient key => ?_⟩
    · have named : (shape.map Prod.fst).contains key = true :=
        List.contains_iff_mem.mpr (List.mem_map.mpr ⟨_, member, rfl⟩)
      rw [Assoc.get?_append, get?_unnamed, if_pos named, Option.or_none]
      exact get?_objectFields distinct first member
    · rw [Assoc.get?_append, get?_unnamed]
      by_cases named : key ∈ shape.map Prod.fst
      · rw [if_pos (List.contains_iff_mem.mpr named), Option.or_none]
        exact isSome_objectFields distinct first named fun _ s member => lenient (key, s) member
      · rw [if_neg (fun isIn => named (List.contains_iff_mem.mp isIn)),
          get?_objectFields_other first named, Option.none_or]
  | _ => cases parsed

/-! ### Settings -/

variable {host : Host} {values : SettingsValues}

theorem partialShape_distinct : (values.partialShape.map Prod.fst).Nodup := by
  have same : values.partialShape.map Prod.fst = values.shape.map Prod.fst := by
    rw [SettingsValues.partialShape, List.map_map]
    rfl
  rw [same]
  exact values.distinct

theorem partialShape_lenient : ∀ entry ∈ values.partialShape,
    entry.2 .undefined = some .undefined := by
  intro entry member
  obtain ⟨known, -, rfl⟩ := List.mem_map.mp member
  rfl

structure Reads (values : SettingsValues) (ss : List (String × Value)) (settings : Value) : Prop where
  member : ∀ key s, (key, s) ∈ values.shape →
    optional s ((Assoc.get? ss key).getD .undefined) = some (settings.field key)
  isSome : ∀ key, settings.hasOwn key = (Assoc.get? ss key).isSome

theorem reads_of_settings {v settings : Value} (parsed : values.settings v = some settings) :
    ∃ ss, v = .obj ss ∧ Reads values ss settings := by
  obtain ⟨ss, out, rfl, rfl, members, isSome⟩ := catchall_members partialShape_distinct parsed
  refine ⟨ss, rfl, fun key s member => ?_, isSome partialShape_lenient⟩
  exact members key _ (List.mem_map.mpr ⟨(key, s), member, rfl⟩)

theorem document_cases {v result : Value} (parsed : values.document v = some result) :
    ∃ fields ss, v = .obj fields ∧ Assoc.get? fields "version" = some (.num 2) ∧
      Assoc.get? fields "settings" = some (.obj ss) ∧ Reads values ss (result.field "settings") := by
  have distinct : ["version", "settings"].Nodup := by decide
  obtain ⟨fields, out, rfl, rfl, members, -⟩ := @catchall_members
    [("version", number fun q => q = 2), ("settings", values.settings)] distinct v result parsed
  have version := members "version" _ (.head _)
  have settings := members "settings" _ (.tail _ (.head _))
  obtain ⟨ss, found, reads⟩ := reads_of_settings settings
  refine ⟨fields, ss, rfl, ?_, ?_, reads⟩
  · cases found : Assoc.get? fields "version" with
    | none =>
      rw [found] at version
      cases version
    | some v =>
      rw [found, Option.getD_some] at version
      cases v with
      | num q =>
        simp only [number, decide_eq_true_eq] at version
        split at version
        next two => rw [two]
        · cases version
      | _ => cases version
  · cases isThere : Assoc.get? fields "settings" with
    | none =>
      rw [isThere] at found
      cases found
    | some v =>
      rw [isThere] at found
      exact congrArg some found

/-! ### Versions -/

theorem looseObject_member (distinct : (shape.map Prod.fst).Nodup) {fields : List (String × Value)}
    {w : Value} (parsed : looseObject shape (.obj fields) = some w) {key : String} {s : Schema}
    (member : (key, s) ∈ shape) : s ((Assoc.get? fields key).getD .undefined) = some (w.field key) := by
  obtain ⟨out, members, rfl⟩ := Option.map_eq_some_iff.mp parsed
  have found := get?_objectFields distinct members member
  have once : (Assoc.keys out).Nodup := (keys_objectFields members).nodup distinct
  rw [found, Value.field_obj, Value.get?_spread, Assoc.get?_reverse once]
  cases isThere : Assoc.get? out key with
  | some v => rfl
  | none =>
    cases present : Assoc.get? fields key with
    | none => rfl
    | some u =>
      have kept := isSome_objectFields distinct members (List.mem_map.mpr ⟨_, member, rfl⟩)
        fun missing => nomatch present.symm.trans missing
      rw [isThere, present] at kept
      cases kept

theorem envelope_version {fields : List (String × Value)} {header : Value}
    (parsed : envelope (.obj fields) = some header) :
    header.field "version" = (Value.obj fields).field "version" := by
  have distinct : ["version"].Nodup := by decide
  exact exact_number _ _ _ (@looseObject_member [("version", integer)] distinct fields header parsed
    "version" integer (.head _))

theorem envelope_of_version {fields : List (String × Value)}
    (version : Assoc.get? fields "version" = some (.num 2)) :
    ∃ header, envelope (.obj fields) = some header := by
  have two : integer (.num 2) = some (.num 2) := by decide
  simp only [envelope, looseObject, objectFields, version, Option.getD_some, two,
    Option.bind_eq_bind, Option.bind_some, Option.pure_def, Option.map_some]
  exact ⟨_, rfl⟩

theorem data_of_recordFields {fields out : List (String × Value)}
    (parsed : recordFields (fun _ => true) jsonValue fields = some out) :
    fieldsAreData false fields = true := by
  induction fields generalizing out with
  | nil => rfl
  | cons entry fields ih =>
    obtain ⟨k, v⟩ := entry
    simp only [recordFields, Option.bind_eq_bind, Option.bind_eq_some_iff] at parsed
    obtain ⟨w, first, rest, others, -⟩ := parsed
    rw [fieldsAreData, ih others, Bool.and_true]
    simp only [jsonValue] at first
    split at first
    next data => exact data
    · cases first

theorem v1_values {fields : List (String × Value)} {old : Value}
    (parsed : v1 (.obj fields) = some old) : ∃ vs, old.field "values" = .obj vs ∧
      (Value.obj fields).field "values" = .obj vs ∧ fieldsAreData false vs = true := by
  have distinct : ["version", "values"].Nodup := by decide
  have values := @looseObject_member [("version", number fun q => q = 1),
    ("values", record (fun _ => true) jsonValue)] distinct fields old parsed "values" _
      (.tail _ (.head _))
  rw [Value.field_obj]
  cases found : (Assoc.get? fields "values").getD .undefined with
  | obj vs =>
    rw [found] at values
    obtain ⟨out, members, same⟩ := Option.map_eq_some_iff.mp values
    refine ⟨vs, ?_, rfl, data_of_recordFields members⟩
    rw [← same, recordFields_eq exact_jsonValue members]
  | _ =>
    rw [found] at values
    cases values

/-- The settings of a document of either version. -/
def originalSettings (v : Value) : List (String × Value) :=
  (if v.field "version" = .num 1 then v.field "values" else v.field "settings").fields

theorem Stands.original {lib : Jsonc} {text : String} {ss : List (String × Value)}
    (stands : Stands lib text ss) : originalSettings (lib.parse text) = ss := by
  obtain ⟨-, fields, parsed, version, settings⟩ := stands
  rw [parsed, originalSettings, Value.field_obj, version, Option.getD_some, if_neg (by decide),
    Value.field_obj, settings]
  rfl

theorem convert_stands (edits : host.lib.EditsOne) {text text' : String} {scanned : Parsed}
    {migrated : Bool} (converted : convert host text = .ok (text', scanned, migrated))
    {result : Value} (parsed : host.values.document scanned.value = some result) :
    Stands host.lib text' (originalSettings (host.lib.parse text)) ∧
      host.parseDocument text' = .ok scanned ∧ scanned.value = host.lib.parse text' := by
  simp only [convert, bind, Except.bind] at converted
  cases read : host.parseDocument text with
  | error thrown =>
    rw [read] at converted
    cases converted
  | ok first =>
    rw [read] at converted
    obtain ⟨faultless, value⟩ := parseDocument_faultless read
    have data := edits.data text faultless
    simp only at converted
    split at converted
    · cases converted
    next header isHeader =>
      rw [value] at isHeader converted
      cases root : host.lib.parse text with
      | obj fields =>
        rw [root] at isHeader converted
        rw [envelope_version isHeader] at converted
        split at converted
        next one =>
          split at converted
          · cases converted
          next old isOld =>
            obtain ⟨vs, written, same, valuesAreData⟩ := v1_values isOld
            split at converted
            · cases converted
            · cases again : host.parseDocument (host.edit (host.edit (host.edit text ["settings"]
                  (some (old.field "values"))) ["values"] none) ["version"] (some (.num 2))) with
              | error thrown =>
                rw [again] at converted
                cases converted
              | ok second =>
                rw [again] at converted
                cases converted
                refine ⟨?_, again, (parseDocument_faultless again).2⟩
                rw [originalSettings, if_pos one, same, Value.fields]
                rw [written]
                -- three edits of one property each
                obtain ⟨sound₁, after₁⟩ := edits.outer text fields "settings" (some (.obj vs))
                  (formatting text) faultless root fun v isValue => by cases isValue; exact valuesAreData
                obtain ⟨sound₂, after₂⟩ := edits.outer _ _ "values" none
                  (formatting (host.edit text ["settings"] (some (.obj vs)))) sound₁ after₁
                  fun v isValue => by cases isValue
                obtain ⟨sound₃, after₃⟩ := edits.outer _ _ "version" (some (.num 2))
                  (formatting (host.edit (host.edit text ["settings"] (some (.obj vs))) ["values"]
                    none)) sound₂ after₂ fun v isValue => by cases isValue; rfl
                refine ⟨sound₃, _, after₃, get?_assign_self _ _ _, ?_⟩
                rw [get?_assign_ne (by decide), get?_assign_ne (by decide), get?_assign_self]
        next notOne =>
          split at converted
          · cases converted
          next isTwo =>
            cases converted
            rw [value, root] at parsed
            obtain ⟨fields', ss, same, version, settings, -⟩ := document_cases parsed
            cases same
            have stands : Stands host.lib text ss := ⟨faultless, fields, root, version, settings⟩
            refine ⟨?_, read, value⟩
            rw [← root, stands.original]
            exact stands
      | exotic fields =>
        rw [root] at data
        cases data
      | _ =>
        rw [root] at isHeader
        cases isHeader

end Ace.Settings.Document
