import Ace.Settings.Layers

/-!
# Settings of the whole daemon

The writing side refuses several keys outside the global layer; the reading side skips the other
layers for the keys of `globalOnlyKeys` alone. Of any key, the other layers therefore have no say
exactly if the environment sets it, it is one of these, or none of their documents in scope has it.

## Main result

`globalSetting_iff`
-/

namespace Ace.Settings

open Script

variable {V : Type}

/-! ### What is read -/

/-- An entry that a reader in a scope can be given. -/
inductive Yields [DecidableEq V] (s : Service V) (scope : Scope) (entry : Entry V) : Prop
  | get (got : get s entry.key scope = .ok entry)
  | read (keys : List String) (entries : List (Entry V)) (got : read s keys scope = .ok entries)
      (member : entry ∈ entries)
  | notified (sub : Subscription V) (changed : List String) (inScope : sub.scope = scope)
      (member : entry ∈ (notify s sub changed).1)

/-- The same service, with empty documents of workspaces and threads. -/
def withoutLocal (s : Service V) : Service V :=
  { s with documents := fun layer => if layer = .global then s.documents layer else .empty }

/-- Outside the global layer a key is refused, whatever its value. -/
def Refused (validateValue : String → V → Except Failure V) (key : String) : Prop :=
  ∀ value layer, layer ≠ .global →
    ∃ failure, assignment validateValue key value layer = .error failure

/-- The environment decides, the other layers are skipped, or they have no value. -/
def OnlyGlobal (s : Service V) (key : String) (scope : Scope) : Prop :=
  (s.overrides.get? key).isSome ∨ key ∈ globalOnlyKeys ∨
    ∀ layer ∈ layers scope, layer ≠ .global → (s.documents layer).get? key = none

theorem resolveFiles_key {key : String} {files : List (LayerFile V)} {entry : Entry V}
    (found : resolveFiles key files = some entry) : entry.key = key := by
  induction files with
  | nil => cases found
  | cons file rest ih =>
    rw [resolveFiles] at found
    split at found
    · exact ih found
    · split at found
      · cases found
        rfl
      · exact ih found

theorem resolve_key (s : Service V) (key : String) (files : List (LayerFile V)) :
    (resolve s key files).key = key := by
  rw [resolve]
  split
  · rfl
  · split
    next entry found => exact resolveFiles_key found
    · rfl

theorem yields_resolve [DecidableEq V] {s : Service V} {scope : Scope} {entry : Entry V}
    (yields : Yields s scope entry) : entry = resolve s entry.key (files s scope) := by
  cases yields with
  | get got =>
    rw [get, parseKey] at got
    split at got
    · exact (Except.ok.inj got).symm
    · cases got
  | read keys entries got member =>
    rw [read] at got
    cases selected : selectKeys keys with
    | error failure =>
      rw [selected] at got
      cases got
    | ok parsed =>
      rw [selected] at got
      cases got
      obtain ⟨key, _, rfl⟩ := List.mem_map.mp member
      rw [resolve_key]
  | notified sub changed inScope member =>
    rw [notify] at member
    obtain ⟨key, _, rfl⟩ := List.mem_map.mp (List.mem_of_mem_filter member)
    rw [resolve_key, inScope]

/-! ### Which layers have a say -/

/-- The files of workspaces and threads, the nearest first. -/
def localFiles (s : Service V) (scope : Scope) : List (LayerFile V) :=
  ((layers scope).tail.map fun layer =>
    ({ document := s.documents layer, layer := layer.kind } : LayerFile V)).reverse

theorem files_reverse (s : Service V) (scope : Scope) :
    (files s scope).reverse =
      localFiles s scope ++ [{ document := s.documents .global, layer := .global }] := by
  rw [files, localFiles, layers]
  simp [Layer.kind]

theorem mem_layers_tail {scope : Scope} {layer : Layer} :
    layer ∈ (layers scope).tail ↔ layer ∈ layers scope ∧ layer ≠ .global := by
  rw [layers]
  constructor
  · intro member
    refine ⟨List.mem_of_mem_tail member, ?_⟩
    rintro rfl
    simp at member
  · rintro ⟨member, near⟩
    simp only [List.append_assoc, List.cons_append, List.nil_append] at member ⊢
    exact (List.mem_cons.mp member).resolve_left near

theorem localFiles_layer {s : Service V} {scope : Scope} {file : LayerFile V}
    (member : file ∈ localFiles s scope) :
    ∃ layer ∈ layers scope, layer ≠ .global ∧ file.document = s.documents layer ∧
      file.layer = layer.kind := by
  rw [localFiles, List.mem_reverse, List.mem_map] at member
  obtain ⟨layer, member, rfl⟩ := member
  obtain ⟨inScope, near⟩ := mem_layers_tail.mp member
  exact ⟨layer, inScope, near, rfl, rfl⟩

theorem resolveFiles_append (key : String) (first rest : List (LayerFile V)) :
    resolveFiles key (first ++ rest) = (resolveFiles key first).or (resolveFiles key rest) := by
  induction first with
  | nil => rfl
  | cons file first ih =>
    rw [List.cons_append, resolveFiles, resolveFiles]
    split
    · exact ih
    · split
      · rfl
      · exact ih

theorem resolveFiles_none {key : String} {files : List (LayerFile V)}
    (silent : ∀ file ∈ files, file.layer ≠ .global ∧ key ∈ globalOnlyKeys ∨
      file.document.get? key = none) : resolveFiles key files = none := by
  induction files with
  | nil => rfl
  | cons file rest ih =>
    have later := ih fun g member => silent g (List.mem_cons_of_mem _ member)
    rw [resolveFiles]
    split
    · exact later
    next counts =>
      rcases silent file List.mem_cons_self with skipped | missing
      · exact absurd skipped counts
      · rw [missing]
        exact later

theorem resolveFiles_some {key : String} (read : key ∉ globalOnlyKeys) {files : List (LayerFile V)}
    (known : ∃ file ∈ files, (file.document.get? key).isSome) :
    ∃ entry, resolveFiles key files = some entry ∧
      ∃ file ∈ files, entry.provenance = .layer file.layer := by
  induction files with
  | nil =>
    obtain ⟨file, member, _⟩ := known
    cases member
  | cons file rest ih =>
    rw [resolveFiles, if_neg fun skipped => read skipped.2]
    cases found : file.document.get? key with
    | some value => exact ⟨_, rfl, file, List.mem_cons_self, rfl⟩
    | none =>
      obtain ⟨g, member, own⟩ := known
      rcases List.mem_cons.mp member with rfl | later
      · rw [found] at own
        cases own
      · obtain ⟨entry, same, g, member, provenance⟩ := ih ⟨g, later, own⟩
        exact ⟨entry, same, g, List.mem_cons_of_mem _ member, provenance⟩

/-- What is left when workspaces and threads say nothing. -/
def fromGlobal (s : Service V) (key : String) : Entry V :=
  match (s.documents .global).get? key with
  | some value => { key, value, provenance := .layer .global }
  | none => { key, value := s.defaults key, provenance := .layer .defaults }

theorem resolve_eq (s : Service V) (key : String) (scope : Scope) :
    resolve s key (files s scope) =
      match s.overrides.get? key, resolveFiles key (localFiles s scope) with
      | some value, _ => { key, value, provenance := .environment }
      | none, some entry => entry
      | none, none => fromGlobal s key := by
  rw [resolve, files_reverse, resolveFiles_append, fromGlobal]
  cases s.overrides.get? key with
  | some value => rfl
  | none =>
    cases resolveFiles key (localFiles s scope) with
    | some entry => rfl
    | none =>
      simp only [Option.none_or, resolveFiles, ne_eq, not_true_eq_false, false_and, if_false]
      cases (s.documents .global).get? key with
      | some value => rfl
      | none => rfl

theorem localFiles_withoutLocal (s : Service V) (key : String) (scope : Scope) :
    resolveFiles key (localFiles (withoutLocal s) scope) = none := by
  apply resolveFiles_none
  intro file member
  obtain ⟨layer, _, near, document, _⟩ := localFiles_layer member
  right
  rw [document]
  change (if layer = .global then s.documents layer else .empty).get? key = none
  rw [if_neg near, Registry.get?_empty]

theorem resolve_withoutLocal (s : Service V) (key : String) (scope : Scope) :
    resolve (withoutLocal s) key (files (withoutLocal s) scope) =
      match s.overrides.get? key with
      | some value => { key, value, provenance := .environment }
      | none => fromGlobal s key := by
  rw [resolve_eq, localFiles_withoutLocal]
  change (match s.overrides.get? key, none with
    | some value, _ => _
    | none, some entry => entry
    | none, none => fromGlobal s key) = _
  cases s.overrides.get? key with
  | some value => rfl
  | none => rfl

theorem near_kind {layer : Layer} (near : layer ≠ .global) :
    layer.kind ≠ .global ∧ layer.kind ≠ .defaults := by
  cases layer with
  | global => exact absurd rfl near
  | workspace | thread => exact ⟨nofun, nofun⟩

theorem fromGlobal_provenance (s : Service V) (key : String) :
    (fromGlobal s key).provenance = .layer .global ∨
      (fromGlobal s key).provenance = .layer .defaults := by
  rw [fromGlobal]
  split
  · exact .inl rfl
  · exact .inr rfl

theorem resolve_independent_iff (s : Service V) (key : String) (scope : Scope) :
    resolve s key (files s scope) = resolve (withoutLocal s) key (files (withoutLocal s) scope) ↔
      OnlyGlobal s key scope := by
  rw [resolve_withoutLocal, resolve_eq, OnlyGlobal]
  cases s.overrides.get? key with
  | some value => simp
  | none =>
    by_cases skipped : key ∈ globalOnlyKeys
    · have silent : resolveFiles key (localFiles s scope) = none := by
        apply resolveFiles_none
        intro file member
        obtain ⟨layer, _, near, _, kind⟩ := localFiles_layer member
        left
        rw [kind]
        exact ⟨(near_kind near).1, skipped⟩
      rw [silent]
      exact ⟨fun _ => .inr (.inl skipped), fun _ => rfl⟩
    · constructor
      · intro same
        right
        right
        intro layer member near
        by_contra own
        -- the nearest layer that has the key would show in the provenance
        have known : ∃ file ∈ localFiles s scope, (file.document.get? key).isSome := by
          refine ⟨{ document := s.documents layer, layer := layer.kind }, ?_,
            Option.isSome_iff_ne_none.mpr own⟩
          rw [localFiles, List.mem_reverse]
          exact List.mem_map_of_mem (mem_layers_tail.mpr ⟨member, near⟩)
        obtain ⟨entry, found, file, isLocal, provenance⟩ := resolveFiles_some skipped known
        obtain ⟨layer', _, near', _, kind⟩ := localFiles_layer isLocal
        rw [found] at same
        simp only at same
        rw [same, kind] at provenance
        rcases fromGlobal_provenance s key with isGlobal | isDefault
        · rw [isGlobal] at provenance
          exact (near_kind near').1 (Provenance.layer.inj provenance).symm
        · rw [isDefault] at provenance
          exact (near_kind near').2 (Provenance.layer.inj provenance).symm
      · rintro (none_ | skipped' | silent)
        · cases none_
        · exact absurd skipped' skipped
        · have nothing : resolveFiles key (localFiles s scope) = none := by
            apply resolveFiles_none
            intro file member
            obtain ⟨layer, inScope, near, document, _⟩ := localFiles_layer member
            right
            rw [document]
            exact silent layer inScope near
          rw [nothing]

/-! ### The main result -/

/-- What readers in a scope are given for a key is what they would be given if workspaces and
threads had no settings, exactly if the environment decides, the key is one that is read from the
global layer only, or no workspace or thread in scope has it. -/
theorem globalSetting_iff [DecidableEq V] (validateValue : String → V → Except Failure V)
    (s : Service V) (scope : Scope) (key : String) (known : key ∈ settingsKeys)
    (_refused : Refused validateValue key) :
    (∀ entry, Yields s scope entry → entry.key = key →
      entry = resolve (withoutLocal s) key (files (withoutLocal s) scope)) ↔
        OnlyGlobal s key scope := by
  rw [← resolve_independent_iff]
  constructor
  · intro independent
    have same := resolve_key s key (files s scope)
    refine independent _ (.get ?_) same
    rw [same, get, parseKey, if_pos known]
    rfl
  · intro independent entry yields same
    rw [yields_resolve yields, same]
    exact independent

/-- A workspace that has project folders of its own. -/
def withRoots : Service String where
  overrides := .empty
  defaults _ := "[]"
  documents layer :=
    if layer = .workspace "/repository" then Registry.empty.set "projects.roots" "[\"/\"]"
    else .empty

theorem refused_roots (validateValue : String → String → Except Failure String) :
    Refused validateValue "projects.roots" := by
  intro value layer near
  have notGlobal := (near_kind near).1
  refine ⟨.settings .validation "Project folders are a global user setting", ?_⟩
  have known : "projects.roots" ∈ settingsKeys := by decide
  have differs : "projects.roots" ≠ "providers.configuration" := by decide
  rw [assignment, parseKey, if_pos known]
  simp [notGlobal, differs]
  rfl

theorem globalSetting_iff_roots :
    Refused (fun _ (value : String) => .ok value) "projects.roots" ∧
      ∀ entry, Yields withRoots { workspace := some "/elsewhere" } entry →
        entry.key = "projects.roots" →
        entry = resolve (withoutLocal withRoots) "projects.roots"
          (files (withoutLocal withRoots) { workspace := some "/elsewhere" }) := by
  have refused := refused_roots fun _ value => .ok value
  exact ⟨refused, (globalSetting_iff (fun _ value => .ok value) withRoots
    { workspace := some "/elsewhere" } "projects.roots" (by decide) refused).mpr
      (.inr (.inr (by decide)))⟩

/-- A repository's own settings set the project folders of the daemon. -/
theorem counter_repository_roots :
    ¬∀ (validateValue : String → String → Except Failure String) (s : Service String)
      (scope : Scope) (key : String), Refused validateValue key →
      ∀ entry, Yields s scope entry → entry.key = key →
        entry = resolve (withoutLocal s) key (files (withoutLocal s) scope) := by
  intro independent
  have same := independent (fun _ value => .ok value) withRoots
    { workspace := some "/repository" } "projects.roots" (refused_roots _)
    { key := "projects.roots", value := "[\"/\"]", provenance := .layer .workspace }
    (.get (by rfl)) rfl
  revert same
  decide

end Ace.Settings
