import Ace.Properties.CursorRows

/-!
# Edits of settings text

What the JSONC library is relied on for: an edit of a text without errors and duplicate names
changes one property. A document of version 2 then stays one, and what happens to its settings is
what the edits say.

## Main results

`parseDocument_faultless`: a text that is parsed has no errors and no duplicate names.
`Stands.edit`: an edit of a setting changes that setting.
-/

namespace Ace.Settings.Document

open Script

/-! ### Texts without errors -/

/-- The names in each object that is open after a token. -/
def openAfter (objects : List (Option (List String))) : Event → List (Option (List String))
  | .objectBegin => some [] :: objects
  | .arrayBegin => none :: objects
  | .objectEnd | .arrayEnd => objects.tail
  | .property key _ => addName key objects
  | .literal .. | .failure _ => objects

/-- A token is no error and no name that its object has already. -/
def Sound (objects : List (Option (List String))) : Event → Prop
  | .property key _ => hasName objects key = false
  | .failure _ => False
  | _ => True

def Soundly : List (Option (List String)) → List Event → Prop
  | _, [] => True
  | objects, event :: events => Sound objects event ∧ Soundly (openAfter objects event) events

def Jsonc.Faultless (lib : Jsonc) (text : String) : Prop := Soundly [] (lib.visit text)

theorem step_sound {isKey : String → Bool} {s s' : Visited} {event : Event}
    (stepped : s.step isKey event = .ok s') : s'.objects = openAfter s.objects event ∧
      (s'.syntaxError = none → s'.duplicate = none →
        s.syntaxError = none ∧ s.duplicate = none ∧ Sound s.objects event) := by
  cases event with
  | objectBegin | arrayBegin =>
    simp only [Visited.step, Visited.begin] at stepped
    split at stepped
    · cases stepped
    · cases stepped
      exact ⟨rfl, fun syntaxError duplicate => ⟨syntaxError, duplicate, trivial⟩⟩
  | objectEnd | arrayEnd =>
    cases stepped
    exact ⟨rfl, fun syntaxError duplicate => ⟨syntaxError, duplicate, trivial⟩⟩
  | property key offset =>
    simp only [Visited.step] at stepped
    cases guarded : guardProperty key with
    | error thrown =>
      rw [guarded] at stepped
      cases stepped
    | ok passes =>
      rw [guarded] at stepped
      cases stepped
      refine ⟨rfl, fun syntaxError duplicate => ?_⟩
      simp only at duplicate
      split at duplicate
      next repeated =>
        rw [Option.or_eq_none_iff] at duplicate
        cases duplicate.2
      next fresh => exact ⟨syntaxError, duplicate, Bool.eq_false_iff.mpr fresh⟩
  | literal value offset length path =>
    simp only [Visited.step] at stepped
    cases guarded : guardSecrets value 0 with
    | error thrown =>
      rw [guarded] at stepped
      cases stepped
    | ok passes =>
      rw [guarded] at stepped
      have kept : s'.objects = s.objects ∧ s'.syntaxError = s.syntaxError ∧
          s'.duplicate = s.duplicate := by
        simp only [bind, Except.bind] at stepped
        split at stepped
        · split at stepped
          · cases stepped
            exact ⟨rfl, rfl, rfl⟩
          · cases stepped
            exact ⟨rfl, rfl, rfl⟩
        · cases stepped
          exact ⟨rfl, rfl, rfl⟩
      obtain ⟨objects, sameError, sameDuplicate⟩ := kept
      refine ⟨objects, fun syntaxError duplicate => ?_⟩
      exact ⟨sameError ▸ syntaxError, sameDuplicate ▸ duplicate, trivial⟩
  | failure offset =>
    cases stepped
    refine ⟨rfl, fun syntaxError _ => ?_⟩
    rw [Option.or_eq_none_iff] at syntaxError
    cases syntaxError.2

theorem foldlM_sound {isKey : String → Bool} {events : List Event} : ∀ {s s' : Visited},
    events.foldlM (Visited.step isKey) s = .ok s' → s'.syntaxError = none → s'.duplicate = none →
      s.syntaxError = none ∧ s.duplicate = none ∧ Soundly s.objects events := by
  induction events with
  | nil =>
    intro s s' folded syntaxError duplicate
    cases folded
    exact ⟨syntaxError, duplicate, trivial⟩
  | cons event events ih =>
    intro s s' folded syntaxError duplicate
    rw [List.foldlM_cons] at folded
    cases stepped : s.step isKey event with
    | error thrown =>
      rw [stepped] at folded
      cases folded
    | ok s₁ =>
      rw [stepped] at folded
      obtain ⟨between, once, rest⟩ := ih folded syntaxError duplicate
      obtain ⟨objects, before⟩ := step_sound stepped
      obtain ⟨first, fresh, sound⟩ := before between once
      exact ⟨first, fresh, sound, objects ▸ rest⟩

theorem parseDocument_faultless {lib : Jsonc} {isKey : String → Bool} {text : String}
    {parsed : Parsed} (read : parseDocument lib isKey text = .ok parsed) :
    lib.Faultless text ∧ parsed.value = lib.parse text := by
  simp only [parseDocument] at read
  split at read
  · cases read
  · cases folded : (lib.visit text).foldlM (Visited.step isKey) {} with
    | error thrown =>
      rw [folded] at read
      cases read
    | ok visited =>
      rw [folded] at read
      simp only [bind, Except.bind] at read
      split at read
      · cases read
      · cases read
      next syntaxError duplicate =>
        cases guarded : guardText text with
        | error thrown =>
          rw [guarded] at read
          cases read
        | ok passes =>
          rw [guarded] at read
          cases read
          exact ⟨(foldlM_sound folded syntaxError duplicate).2.2, rfl⟩

/-! ### What an edit does -/

/-- A property set to a value, or removed. -/
def assign (key : String) (value : Option Value) (fields : List (String × Value)) :
    List (String × Value) :=
  match value with
  | some v => Assoc.put key v fields
  | none => Assoc.erase key fields

theorem get?_assign_ne {key other : String} (ne : key ≠ other) (value : Option Value)
    (fields : List (String × Value)) :
    Assoc.get? (assign key value fields) other = Assoc.get? fields other := by
  cases value with
  | some v => rw [assign, Assoc.get?_put, if_neg ne]
  | none => rw [assign, Assoc.get?_erase, if_neg ne]

theorem get?_assign_self (key : String) (value : Option Value) (fields : List (String × Value)) :
    Assoc.get? (assign key value fields) key = value := by
  cases value with
  | some v => rw [assign, Assoc.get?_put, if_pos rfl]
  | none => rw [assign, Assoc.get?_erase, if_pos rfl]

/-- What the library is relied on for: an edit of a faultless text changes one property, of the
document or of an object in it. -/
structure Jsonc.EditsOne (lib : Jsonc) : Prop where
  /-- A text is read as JSON data, but for numbers that are too large. -/
  data : ∀ text, lib.Faultless text → isData true (lib.parse text) = true
  outer : ∀ text fields key value options, lib.Faultless text → lib.parse text = .obj fields →
    (∀ v, value = some v → isJsonData v = true) →
    lib.Faultless (lib.modify text [key] value options) ∧
      lib.parse (lib.modify text [key] value options) = .obj (assign key value fields)
  inner : ∀ text fields name members key value options, lib.Faultless text →
    lib.parse text = .obj fields → Assoc.get? fields name = some (.obj members) →
    (∀ v, value = some v → isJsonData v = true) →
    lib.Faultless (lib.modify text [name, key] value options) ∧
      lib.parse (lib.modify text [name, key] value options) =
        .obj (Assoc.put name (.obj (assign key value members)) fields)

/-- A text of version 2 with these settings. -/
def Stands (lib : Jsonc) (text : String) (settings : List (String × Value)) : Prop :=
  lib.Faultless text ∧ ∃ fields, lib.parse text = .obj fields ∧
    Assoc.get? fields "version" = some (.num 2) ∧
    Assoc.get? fields "settings" = some (.obj settings)

theorem Stands.unique {lib : Jsonc} {text : String} {ss ss' : List (String × Value)}
    (first : Stands lib text ss) (second : Stands lib text ss') : ss = ss' := by
  obtain ⟨-, fields, parsed, -, settings⟩ := first
  obtain ⟨-, fields', parsed', -, settings'⟩ := second
  cases parsed.symm.trans parsed'
  cases settings.symm.trans settings'
  rfl

theorem Stands.edit {lib : Jsonc} (edits : lib.EditsOne) {text : String}
    {ss : List (String × Value)} (stands : Stands lib text ss) (key : String)
    {value : Option Value} (data : ∀ v, value = some v → isJsonData v = true) :
    Stands lib (edit lib text ["settings", key] value) (assign key value ss) := by
  obtain ⟨faultless, fields, parsed, version, settings⟩ := stands
  obtain ⟨still, after⟩ :=
    edits.inner text fields "settings" ss key value (formatting text) faultless parsed settings data
  refine ⟨still, _, after, ?_, ?_⟩
  · rw [Assoc.get?_put, if_neg (by decide), version]
  · rw [Assoc.get?_put, if_pos rfl]

end Ace.Settings.Document
