import Mathlib.Data.List.Infix
import Ace.Git.PublicationScan
import Ace.Properties.PublicationObjects

/-!
# A publication scan is complete

The ids are a worklist that grows while it is read. An id is *handled* once its object was
inspected with the content that Git holds and everything the object refers to is on the list.
Flushing a batch handles its objects, a group handles its ids, and a phase ends only when every id
on its list is handled. The list then holds the head and is closed under references, so it holds
everything reachable. Labels found in the first phase are all on the list of the second.

## Main result

`publicationScan_complete`
-/

namespace Ace.Git

open Script.Command

variable {store : ObjectStore} {d : Detectors} {git : GitCli} {head : Hash}

/-! ### The object graph -/

/-- A tree entry that names a blob with a YAML extension. -/
def TreeEntry.NamesYaml (entry : TreeEntry) : Prop :=
  ¬ entry.gitlink ∧ ascii entry.mode ≠ "40000".toList ∧ ascii entry.mode ≠ "040000".toList ∧
    publicationYamlName entry.text = true

/-- The object is a tree with these entries. -/
def HoldsTree (store : ObjectStore) (id : Hash) (entries : List TreeEntry) : Prop :=
  store id = some (.tree, entries.flatMap TreeEntry.encode) ∧
    ∀ entry ∈ entries, entry.WellFormed (id.length / 2)

/-- Raw headers of commits, and entries of trees that are no gitlinks. -/
inductive Edge (store : ObjectStore) (parent child : Hash) : Prop where
  | commit {content : Buffer} (held : store parent = some (.commit, content))
      (edge : CommitEdge content child)
  | tree {entries : List TreeEntry} {entry : TreeEntry} (held : HoldsTree store parent entries)
      (member : entry ∈ entries) (own : ¬ entry.gitlink) (named : child = hex entry.id)

abbrev Reaches (store : ObjectStore) : Hash → Hash → Prop := Relation.ReflTransGen (Edge store)

/-- Git holds the object, and the detectors passed it: a tree by the names of its entries, and
anything else by its content. -/
def Inspected (store : ObjectStore) (d : Detectors) (id : Hash) : Prop :=
  ∃ type content, store id = some (type, content) ∧
    (type = .tree → ∃ entries, HoldsTree store id entries ∧
      ∀ entry ∈ entries, entry.Publishable d) ∧
    (type ≠ .tree → d.assertText content = .ok ⟨⟩)

/-- The detectors passed the blob as YAML. -/
def InspectedYaml (store : ObjectStore) (d : Detectors) (id : Hash) : Prop :=
  ∃ content, store id = some (.blob, content) ∧ d.assertYaml content = .ok ⟨⟩

/-- Git answers with the bytes it stores, and enumerates at least the head. -/
structure Honest (git : GitCli) (store : ObjectStore) (head : Hash) : Prop where
  batch : ∀ n ids capacity bytes, git n (.batch ids) capacity = .ok bytes →
    bytes = ids.flatMap (frame store)
  head : ∀ n capacity bytes, git n (.revList head) capacity = .ok bytes →
    trim (ascii bytes) ≠ [] ∧ head ∈ splitLines (trim (ascii bytes))

/-! ### Handled ids -/

/-- The object was inspected, and what it refers to is on the lists. -/
def Handled (store : ObjectStore) (d : Detectors) (object : ScanObject) (s : ScanState) : Prop :=
  ∃ content own, store object.id = some (object.type, content) ∧
    inspectObject d object content = .ok own ∧
    ∀ reference ∈ own, reference.id ∈ s.ids ∧ (reference.yaml = true → reference.id ∈ s.yamlIds)

/-- Some object of the phase was handled under the id. -/
def Done (store : ObjectStore) (d : Detectors) (yaml : Bool) (id : Hash) (s : ScanState) : Prop :=
  ∃ object : ScanObject, object.id = id ∧ object.yaml = yaml ∧
    (yaml = true → object.type = .blob) ∧ Handled store d object s

/-- The lists only grow at their ends. -/
structure Grows (s s' : ScanState) : Prop where
  ids : s.ids <+: s'.ids
  yamlIds : s.yamlIds <+: s'.yamlIds

theorem Grows.refl (s : ScanState) : Grows s s := ⟨List.prefix_rfl, List.prefix_rfl⟩

theorem Grows.trans {s s' s'' : ScanState} (first : Grows s s') (second : Grows s' s'') :
    Grows s s'' :=
  ⟨first.ids.trans second.ids, first.yamlIds.trans second.yamlIds⟩

theorem Handled.mono {object : ScanObject} {s s' : ScanState} (handled : Handled store d object s)
    (grows : Grows s s') : Handled store d object s' := by
  obtain ⟨content, own, held, inspected, listed⟩ := handled
  refine ⟨content, own, held, inspected, fun reference member => ?_⟩
  obtain ⟨on_ids, on_yaml⟩ := listed reference member
  exact ⟨grows.ids.subset on_ids, fun yaml => grows.yamlIds.subset (on_yaml yaml)⟩

theorem Done.mono {yaml : Bool} {id : Hash} {s s' : ScanState} (done : Done store d yaml id s)
    (grows : Grows s s') : Done store d yaml id s' := by
  obtain ⟨object, same, flag, blob, handled⟩ := done
  exact ⟨object, same, flag, blob, handled.mono grows⟩

/-- The sets hold nothing that the lists do not, and the batch holds objects of the phase. -/
structure Tracks (yaml : Bool) (s : ScanState) : Prop where
  objects : ∀ id ∈ s.objects, id ∈ s.ids
  yamlObjects : ∀ id ∈ s.yamlObjects, id ∈ s.yamlIds
  batch : ∀ object ∈ s.batch, isHash object.id = true ∧ object.yaml = yaml ∧
    (yaml = true → object.type = .blob)

/-! ### Calls -/

theorem ensures_parsed {α : Type} (result : Except PublicationFault α) (s : ScanState)
    (Q : α → ScanState → Prop) :
    Ensures (parsed result) s Q ↔ ∀ value, result = .ok value → Q value s := by
  cases result with
  | error fault => simp [parsed]
  | ok value => simp [parsed]

theorem ensures_read (request : PublicationRequest) (capacity : Nat) (s : ScanState)
    (Q : Buffer → ScanState → Prop) :
    Ensures (read git request capacity) s Q ↔
      ∀ bytes, git s.calls request capacity = .ok bytes →
        Q bytes { s with calls := s.calls + 1 } := by
  simp only [read, ensures_bind, ensures_get, ensures_set, ensures_parsed]

theorem ensures_incomplete {α : Type} (s : ScanState) (Q : α → ScanState → Prop) :
    Ensures incompletePublicationScan s Q := by
  simp only [incompletePublicationScan, ensures_throw]

/-! ### Batches -/

theorem ensures_addReference {yaml : Bool} (reference : PublicationReference) {s : ScanState}
    (tracks : Tracks yaml s) :
    Ensures (addReference reference) s fun _ s' => Tracks yaml s' ∧ Grows s s' ∧
      s'.batch = s.batch ∧ reference.id ∈ s'.ids ∧
      (reference.yaml = true → reference.id ∈ s'.yamlIds) := by
  -- The label first: the step leaves the ids alone.
  have labelled : ∀ s₁, s₁ = (if reference.yaml ∧ reference.id ∉ s.yamlObjects then
      { s with
        yamlObjects := s.yamlObjects ++ [reference.id]
        yamlIds := s.yamlIds ++ [reference.id] } else s) →
      Tracks yaml s₁ ∧ Grows s s₁ ∧ s₁.batch = s.batch ∧
        (reference.yaml = true → reference.id ∈ s₁.yamlIds) := by
    rintro s₁ rfl
    split
    · refine ⟨⟨tracks.objects, ?_, tracks.batch⟩, ⟨List.prefix_rfl, List.prefix_append ..⟩, rfl, ?_⟩
      · intro id member
        rcases List.mem_append.mp member with old | new
        · exact List.mem_append_left _ (tracks.yamlObjects id old)
        · exact List.mem_append_right _ new
      · exact fun _ => List.mem_append_right _ (List.mem_singleton_self _)
    next known =>
      refine ⟨tracks, Grows.refl s, rfl, fun yaml => tracks.yamlObjects _ ?_⟩
      simpa [yaml] using known
  simp only [addReference, ensures_bind, ensures_modify, ensures_get]
  generalize state : (if reference.yaml = true ∧ reference.id ∉ s.yamlObjects then
    { s with
      yamlObjects := s.yamlObjects ++ [reference.id]
      yamlIds := s.yamlIds ++ [reference.id] } else s) = s₁
  obtain ⟨tracks₁, grows₁, same_batch, label⟩ := labelled s₁ state.symm
  split
  next known =>
    rw [ensures_pure]
    exact ⟨tracks₁, grows₁, same_batch, tracks₁.objects _ known, label⟩
  next =>
    simp only [ensures_bind, ensures_set, ensures_when, ensures_incomplete, implies_true, true_and]
    intro _
    refine ⟨⟨?_, tracks₁.yamlObjects, tracks₁.batch⟩,
      grows₁.trans ⟨List.prefix_append .., List.prefix_rfl⟩, same_batch, ?_, label⟩
    · intro id member
      rcases List.mem_append.mp member with old | new
      · exact List.mem_append_left _ (tracks₁.objects id old)
      · exact List.mem_append_right _ new
    · exact List.mem_append_right _ (List.mem_singleton_self _)

theorem ensures_flush (honest : Honest git store head) {yaml : Bool} {s : ScanState}
    (tracks : Tracks yaml s) :
    Ensures (flush git d) s fun _ s' => Tracks yaml s' ∧ Grows s s' ∧ s'.batch = [] ∧
      ∀ object ∈ s.batch, Handled store d object s' := by
  simp only [flush, ensures_bind, ensures_get, ensures_when, ensures_read, ensures_parsed,
    ensures_modify]
  refine ⟨fun _ bytes answered references accepted => ?_, fun empty => ?_⟩
  · have answer := honest.batch _ _ _ _ answered
    rw [List.flatMap_map] at answer
    rw [answer] at accepted
    have hashes : ∀ object ∈ s.batch, isHash object.id = true :=
      fun object member => (tracks.batch object member).1
    let called : ScanState := { s with calls := s.calls + 1 }
    have start : Tracks yaml called ∧ Grows s called ∧ called.batch = s.batch :=
      ⟨⟨tracks.objects, tracks.yamlObjects, tracks.batch⟩,
        ⟨List.prefix_rfl, List.prefix_rfl⟩, rfl⟩
    have loop := @ensures_forM_all ScanState PublicationFault PublicationReference addReference
      (fun s' => Tracks yaml s' ∧ Grows s s' ∧ s'.batch = s.batch)
      (fun reference s' => reference.id ∈ s'.ids ∧
        (reference.yaml = true → reference.id ∈ s'.yamlIds)) references
      (fun reference _ w kept => by
        refine Ensures.mono (ensures_addReference reference kept.1) ?_
        rintro _ w' ⟨tracks', grows', same, listed⟩
        refine ⟨⟨tracks', kept.2.1.trans grows', same.trans kept.2.2⟩, listed, ?_⟩
        exact fun other on =>
          ⟨grows'.ids.subset on.1, fun flag => grows'.yamlIds.subset (on.2 flag)⟩)
      called start
    refine Ensures.mono loop ?_
    rintro _ s' ⟨⟨tracks', grows', -⟩, listed, -⟩
    refine ⟨⟨tracks'.objects, tracks'.yamlObjects, by simp⟩, ⟨grows'.ids, grows'.yamlIds⟩,
      trivial, ?_⟩
    intro object member
    obtain ⟨content, own, held, inspected, included⟩ := inspected_of_batch hashes accepted member
    exact ⟨content, own, held, inspected,
      fun reference is_own => listed reference (included reference is_own)⟩
  · simp only [Decidable.not_not] at empty
    refine ⟨tracks, Grows.refl s, empty, fun object member => ?_⟩
    rw [empty] at member
    cases member

/-! ### Groups -/

/-- The id is handled, or its object waits in the batch. -/
def Taken (store : ObjectStore) (d : Detectors) (yaml : Bool) (id : Hash) (s : ScanState) : Prop :=
  Done store d yaml id s ∨ ∃ object ∈ s.batch, object.id = id

theorem Taken.flushed {yaml : Bool} {id : Hash} {s s' : ScanState} (tracks : Tracks yaml s)
    (taken : Taken store d yaml id s) (grows : Grows s s')
    (handled : ∀ object ∈ s.batch, Handled store d object s') : Done store d yaml id s' := by
  rcases taken with done | ⟨object, member, same⟩
  · exact done.mono grows
  · obtain ⟨-, flag, blob⟩ := tracks.batch object member
    exact ⟨object, same, flag, blob, handled object member⟩

theorem hash_of_objectHeader {line : List Char} {object : ScanObject}
    (found : objectHeader line = .ok object) : isHash object.id = true := by
  rw [objectHeader] at found
  split at found
  · split at found
    · obtain ⟨id, decoded, found⟩ := bind_eq_ok.mp found
      obtain ⟨type, -, found⟩ := bind_eq_ok.mp found
      obtain ⟨size, -, found⟩ := bind_eq_ok.mp found
      cases found
      obtain ⟨is_hash, same⟩ := eq_of_decodeHash decoded
      rw [same]
      exact is_hash
    · cases found
  · cases found

theorem ensures_admitObject (honest : Honest git store head) {yaml : Bool} (id : Hash)
    (header : List Char) {s : ScanState} (tracks : Tracks yaml s) :
    Ensures (admitObject git d yaml id header) s fun _ s' => Tracks yaml s' ∧ Grows s s' ∧
      Taken store d yaml id s' ∧ ∀ other, Taken store d yaml other s →
        Taken store d yaml other s' := by
  simp only [admitObject, ensures_bind, ensures_parsed, ensures_when, ensures_incomplete, implies_true,
    true_and, ensures_modify, ensures_get]
  intro object found blob same _
  simp only [not_and_or, Decidable.not_not, not_or] at blob same
  have member : isHash object.id = true := hash_of_objectHeader found
  have own : ∀ s₁ : ScanState, Tracks yaml s₁ → Tracks yaml { s₁ with
      batch := s₁.batch ++ [{ object with yaml }]
      batchBytes := s₁.batchBytes + object.size + 1 } := by
    intro s₁ tracks₁
    refine ⟨tracks₁.objects, tracks₁.yamlObjects, fun other is_member => ?_⟩
    rcases List.mem_append.mp is_member with old | new
    · exact tracks₁.batch other old
    · rw [List.mem_singleton.mp new]
      exact ⟨member, rfl, fun flag => blob.resolve_left fun no => no flag⟩
  have taken : ∀ s₁ : ScanState, Taken store d yaml id { s₁ with
      batch := s₁.batch ++ [{ object with yaml }]
      batchBytes := s₁.batchBytes + object.size + 1 } := fun s₁ =>
    .inr ⟨{ object with yaml }, List.mem_append_right _ (List.mem_singleton_self _), same.1⟩
  have counted : Tracks yaml { s with total := s.total + object.size } :=
    ⟨tracks.objects, tracks.yamlObjects, tracks.batch⟩
  refine ⟨fun _ => ?_, fun _ => ?_⟩
  · -- The batch is full: what waited is handled, and the object waits alone.
    refine Ensures.mono (ensures_flush honest counted) ?_
    rintro _ s₁ ⟨tracks₁, grows₁, -, handled⟩
    refine ⟨own s₁ tracks₁, ⟨grows₁.ids, grows₁.yamlIds⟩, taken s₁, fun other was => .inl ?_⟩
    exact Taken.flushed tracks was ⟨grows₁.ids, grows₁.yamlIds⟩ handled
  · refine ⟨own _ counted, ⟨List.prefix_rfl, List.prefix_rfl⟩, taken _, fun other was => ?_⟩
    rcases was with done | ⟨waiting, is_member, is_other⟩
    · exact .inl (done.mono ⟨List.prefix_rfl, List.prefix_rfl⟩)
    · exact .inr ⟨waiting, List.mem_append_left _ is_member, is_other⟩

theorem ensures_admitGroup (honest : Honest git store head) {yaml : Bool} (group : List Hash)
    {s : ScanState} (tracks : Tracks yaml s) :
    Ensures (admitGroup git d yaml group) s fun _ s' => Tracks yaml s' ∧ Grows s s' ∧
      s'.batch = [] ∧ ∀ id ∈ group, Done store d yaml id s' := by
  simp only [admitGroup, ensures_bind, ensures_read, ensures_when, ensures_incomplete,
    implies_true, true_and, Decidable.not_not]
  intro text _ lengths
  have start : Tracks yaml { s with calls := s.calls + 1 } ∧
      Grows s { s with calls := s.calls + 1 } :=
    ⟨⟨tracks.objects, tracks.yamlObjects, tracks.batch⟩, ⟨List.prefix_rfl, List.prefix_rfl⟩⟩
  have loop := @ensures_forM_all ScanState PublicationFault (Hash × List Char)
    (fun pair => admitObject git d yaml pair.1 pair.2)
    (fun s' => Tracks yaml s' ∧ Grows s s') (fun pair s' => Taken store d yaml pair.1 s')
    (group.zip (splitLines (trim (ascii text))))
    (fun pair _ w kept => by
      refine Ensures.mono (ensures_admitObject honest pair.1 pair.2 kept.1) ?_
      rintro _ w' ⟨tracks', grows', taken, others⟩
      exact ⟨⟨tracks', kept.2.trans grows'⟩, taken, fun other => others other.1⟩)
    _ start
  refine Ensures.mono loop ?_
  rintro _ s₁ ⟨⟨tracks₁, grows₁⟩, taken, -⟩
  refine Ensures.mono (ensures_flush honest tracks₁) ?_
  rintro _ s₂ ⟨tracks₂, grows₂, empty, handled⟩
  refine ⟨tracks₂, grows₁.trans grows₂, empty, fun id member => ?_⟩
  have paired : id ∈ (group.zip (splitLines (trim (ascii text)))).map Prod.fst := by
    rw [List.map_fst_zip (Nat.le_of_eq lengths.symm)]
    exact member
  obtain ⟨pair, is_pair, rfl⟩ := List.mem_map.mp paired
  exact Taken.flushed tracks₁ (taken pair is_pair) grows₂ handled

/-! ### Phases -/

theorem Grows.phaseIds {s s' : ScanState} (grows : Grows s s') (yaml : Bool) :
    Git.phaseIds yaml s <+: Git.phaseIds yaml s' := by
  cases yaml with
  | false => exact grows.ids
  | true => exact grows.yamlIds

/-- The group that is read at a position. -/
def groupAt (yaml : Bool) (position : Nat) (s : ScanState) : List Hash :=
  ((phaseIds yaml s).drop position).take 512

theorem scanGroups_succ (yaml : Bool) (fuel position : Nat) :
    scanGroups git d yaml (fuel + 1) position = (do
      let s ← get
      if (phaseIds yaml s).length ≤ position then return
      else
        admitGroup git d yaml (groupAt yaml position s)
        scanGroups git d yaml fuel (position + (groupAt yaml position s).length)) := rfl

theorem mem_take_of_grows {yaml : Bool} {position : Nat} {s s' : ScanState}
    (within : position ≤ (phaseIds yaml s).length) (grows : Grows s s') {id : Hash}
    (member : id ∈ (phaseIds yaml s').take (position + (groupAt yaml position s).length)) :
    id ∈ (phaseIds yaml s).take position ∨ id ∈ groupAt yaml position s := by
  obtain ⟨added, grown⟩ := grows.phaseIds yaml
  have front : position + (groupAt yaml position s).length ≤ (phaseIds yaml s).length := by
    rw [groupAt, List.length_take, List.length_drop]
    omega
  rw [← grown, List.take_append_of_le_length front, List.take_add, List.mem_append] at member
  refine member.imp_right fun in_group => ?_
  rw [groupAt, List.length_take] at in_group
  rw [groupAt, List.take_eq_take_min]
  exact in_group

theorem ensures_scanGroups (honest : Honest git store head) {yaml : Bool} (fuel position : Nat)
    {s : ScanState} (tracks : Tracks yaml s) (empty : s.batch = [])
    (before : ∀ id ∈ (phaseIds yaml s).take position, Done store d yaml id s) :
    Ensures (scanGroups git d yaml fuel position) s fun _ s' => Tracks yaml s' ∧ Grows s s' ∧
      s'.batch = [] ∧ ∀ id ∈ phaseIds yaml s', Done store d yaml id s' := by
  induction fuel generalizing position s with
  | zero =>
    simp only [scanGroups, ensures_bind, ensures_get]
    split
    next past =>
      simp only [ensures_pure]
      rw [List.take_of_length_le past] at before
      exact ⟨tracks, Grows.refl s, empty, before⟩
    next => simp only [ensures_throw]
  | succ fuel ih =>
    rw [scanGroups_succ, ensures_bind, ensures_get]
    split
    next past =>
      rw [ensures_pure]
      rw [List.take_of_length_le past] at before
      exact ⟨tracks, Grows.refl s, empty, before⟩
    next more =>
      rw [ensures_bind]
      refine Ensures.mono (ensures_admitGroup honest _ tracks) ?_
      rintro _ s₁ ⟨tracks₁, grows₁, empty₁, group⟩
      have read : ∀ id ∈ (phaseIds yaml s₁).take (position + (groupAt yaml position s).length),
          Done store d yaml id s₁ := by
        intro id member
        rcases mem_take_of_grows (by omega) grows₁ member with earlier | in_group
        · exact (before id earlier).mono grows₁
        · exact group id in_group
      refine Ensures.mono (ih _ tracks₁ empty₁ read) ?_
      rintro _ s₂ ⟨tracks₂, grows₂, empty₂, all⟩
      exact ⟨tracks₂, grows₁.trans grows₂, empty₂, all⟩

theorem Tracks.phase {yaml : Bool} {s : ScanState} (tracks : Tracks yaml s) (empty : s.batch = [])
    (flag : Bool) : Tracks flag s :=
  ⟨tracks.objects, tracks.yamlObjects, by simp [empty]⟩

/-! ### The first enumeration -/

def Labelled (s : ScanState) : Prop := (∀ id ∈ s.yamlObjects, id ∈ s.yamlIds) ∧ s.batch = []

theorem mem_insertNew {ids : List Hash} {id other : Hash} :
    other ∈ insertNew ids id ↔ other ∈ ids ∨ other = id := by
  rw [insertNew]
  split
  next known =>
    refine ⟨Or.inl, fun member => member.elim (fun old => old) fun same => ?_⟩
    rw [same]
    exact known
  next => simp

theorem ensures_trackEntry (entry : List Char) {s : ScanState} (labelled : Labelled s) :
    Ensures (trackEntry d entry) s fun _ s' => Labelled s' := by
  rw [trackEntry]
  split
  · exact ensures_incomplete s _
  next blob id path =>
    split
    · simp only [ensures_throw]
    next =>
      simp only [ensures_when, ensures_bind, ensures_parsed, ensures_modify]
      refine ⟨fun _ found _ => ⟨fun _ => ?_, fun _ => labelled⟩, fun _ => labelled⟩
      split
      · exact labelled
      · refine ⟨fun other member => ?_, labelled.2⟩
        rcases List.mem_append.mp member with old | new
        · exact List.mem_append_left _ (labelled.1 other old)
        · exact List.mem_append_right _ new

theorem ensures_enumerate (honest : Honest git store head) {s : ScanState}
    (labelled : Labelled s) :
    Ensures (enumerate git head) s fun _ s' => Tracks false s' ∧ s'.batch = [] ∧
      head ∈ s'.ids := by
  simp only [enumerate, ensures_bind, ensures_read, ensures_when, ensures_get, ensures_modify,
    ensures_incomplete, implies_true, true_and]
  intro bytes answered
  obtain ⟨nonempty, listed⟩ := honest.head _ _ _ answered
  refine ⟨fun _ => ?_, fun is_empty => absurd nonempty is_empty⟩
  have loop := @ensures_forM_all ScanState PublicationFault (List Char)
    (fun line => do
      let id ← parsed (decodeHash line "object hash")
      modify fun s => { s with objects := insertNew s.objects id })
    Labelled (fun line s' => line ∈ s'.objects) (splitLines (trim (ascii bytes)))
    (fun line _ w kept => by
      simp only [ensures_bind, ensures_parsed, ensures_modify]
      intro id decoded
      rw [(eq_of_decodeHash decoded).2]
      exact ⟨kept, mem_insertNew.mpr (.inr rfl), fun other old => mem_insertNew.mpr (.inl old)⟩)
    { s with calls := s.calls + 1 } labelled
  refine Ensures.mono loop ?_
  rintro _ s' ⟨labelled', present, -⟩ _
  exact ⟨⟨fun _ member => member, labelled'.1, by simp [labelled'.2]⟩, labelled'.2,
    present head listed⟩

/-! ### Completeness -/

theorem mem_of_edge {yaml : Bool} {s : ScanState} {parent child : Hash}
    (done : Done store d yaml parent s) (edge : Edge store parent child) : child ∈ s.ids := by
  obtain ⟨object, rfl, -, -, content, own, held, inspected, listed⟩ := done
  cases edge with
  | commit stored edge =>
    rw [held] at stored
    obtain ⟨is_commit, rfl⟩ := Prod.mk.inj (Option.some.inj stored)
    have accepted := (inspected_content (by simp [is_commit]) inspected).1 is_commit
    exact (listed _ (mem_commitReferences edge accepted)).1
  | tree stored member not_link named =>
    obtain ⟨stored, wellFormed⟩ := stored
    rw [held] at stored
    obtain ⟨is_tree, rfl⟩ := Prod.mk.inj (Option.some.inj stored)
    rw [inspectObject_tree is_tree] at inspected
    rw [references_of_encoded wellFormed inspected] at listed
    have reference := (listed _ (List.mem_flatMap.mpr ⟨_, member, mem_references not_link⟩)).1
    rw [named]
    exact reference

theorem mem_ids_of_reaches {s : ScanState} (start : head ∈ s.ids)
    (all : ∀ id ∈ s.ids, Done store d false id s) {id : Hash} (reaches : Reaches store head id) :
    id ∈ s.ids := by
  induction reaches with
  | refl => exact start
  | tail _ edge ih => exact mem_of_edge (all _ ih) edge

theorem Done.inspected {yaml : Bool} {id : Hash} {s : ScanState}
    (done : Done store d yaml id s) : Inspected store d id := by
  obtain ⟨object, rfl, -, -, content, own, held, inspected, -⟩ := done
  refine ⟨object.type, content, held, fun is_tree => ?_, fun other => ?_⟩
  · rw [inspectObject_tree is_tree] at inspected
    obtain ⟨entries, rfl, all, -⟩ := assertPublicationTree_iff.mp inspected
    rw [is_tree] at held
    exact ⟨entries, ⟨held, fun entry member => (all entry member).1⟩,
      fun entry member => (all entry member).2⟩
  · exact (inspected_content other inspected).2.1

theorem Done.inspectedYaml {id : Hash} {s : ScanState} (done : Done store d true id s) :
    InspectedYaml store d id := by
  obtain ⟨object, rfl, flag, blob, content, own, held, inspected, -⟩ := done
  have is_blob := blob rfl
  rw [is_blob] at held
  exact ⟨content, held, (inspected_content (by simp [is_blob]) inspected).2.2 flag⟩

theorem ensures_scanPublication (honest : Honest git store head) :
    Ensures (scanPublication git d head) {} fun _ _ =>
      (∀ id, Reaches store head id → Inspected store d id) ∧
      ∀ id entries entry, Reaches store head id → HoldsTree store id entries → entry ∈ entries →
        entry.NamesYaml → InspectedYaml store d (hex entry.id) := by
  simp only [scanPublication, ensures_bind, ensures_read, ensures_when, ensures_incomplete,
    implies_true, true_and, ensures_parsed]
  intro _ _ _ _ _ entries _
  refine Ensures.mono (@ensures_forM _ _ _ _ Labelled entries
    (fun entry _ _ labelled => ensures_trackEntry entry labelled) _ ⟨by simp, rfl⟩) ?_
  intro _ s₀ labelled
  refine Ensures.mono (ensures_enumerate honest labelled) ?_
  rintro _ s₁ ⟨tracks₁, empty₁, start⟩
  refine Ensures.mono (ensures_scanGroups honest _ 0 tracks₁ empty₁ (by simp)) ?_
  rintro _ s₂ ⟨tracks₂, grows₂, empty₂, all⟩
  have closed : ∀ id, Reaches store head id → id ∈ s₂.ids := fun id reaches =>
    mem_ids_of_reaches (grows₂.ids.subset start) all reaches
  refine Ensures.mono
    (ensures_scanGroups honest _ 0 (tracks₂.phase empty₂ true) empty₂ (by simp)) ?_
  rintro _ s₃ ⟨-, grows₃, -, labels⟩
  refine ⟨fun id reaches => (all id (closed id reaches)).inspected, ?_⟩
  intro id entries entry reaches tree member names
  obtain ⟨object, rfl, -, -, content, own, held, inspected, listed⟩ := all id (closed id reaches)
  obtain ⟨stored, wellFormed⟩ := tree
  rw [held] at stored
  obtain ⟨is_tree, rfl⟩ := Prod.mk.inj (Option.some.inj stored)
  rw [inspectObject_tree is_tree] at inspected
  rw [references_of_encoded wellFormed inspected] at listed
  have listed_as := (listed _ (List.mem_flatMap.mpr ⟨_, member, mem_references names.1⟩)).2
  have label : hex entry.id ∈ s₂.yamlIds := listed_as (decide_eq_true names.2)
  exact (labels _ (grows₃.yamlIds.subset label)).inspectedYaml

/-- Git answers honestly and the scan returns: everything reachable was inspected, and as YAML where
a reachable tree names a blob so. A tree is accepted exactly if it encodes entries with publishable
names, and every entry that is no gitlink is one reference. -/
theorem publicationScan_complete (honest : Honest git store head) {s : ScanState}
    (returned : scanPublication git d head {} = .ok (⟨⟩, s)) :
    (∀ id, Reaches store head id → Inspected store d id) ∧
    (∀ id entries entry, Reaches store head id → HoldsTree store id entries → entry ∈ entries →
      entry.NamesYaml → InspectedYaml store d (hex entry.id)) ∧
    ∀ bytes hashBytes references, assertPublicationTree d bytes hashBytes = .ok references ↔
      ∃ entries : List TreeEntry, bytes = entries.flatMap TreeEntry.encode ∧
        (∀ entry ∈ entries, entry.WellFormed hashBytes ∧ entry.Publishable d) ∧
        references =
          (entries.filter fun entry => !decide entry.gitlink).map TreeEntry.reference := by
  obtain ⟨inspected, labels⟩ := ensures_scanPublication honest ⟨⟩ s returned
  refine ⟨inspected, labels, fun bytes hashBytes references => ?_⟩
  simp only [← flatMap_references]
  exact assertPublicationTree_iff

/-! ### A history of one commit -/

def sampleHash (c : Char) : Hash := List.replicate 40 c

def sampleTree : List TreeEntry :=
  [⟨asciiBytes "100644".toList, asciiBytes "a.yml".toList, List.replicate 20 0xcc⟩]

def sampleStore : ObjectStore := fun id =>
  if id = sampleHash 'a' then
    some (.commit, asciiBytes ("tree ".toList ++ sampleHash 'b' ++ ['\n', '\n']))
  else if id = sampleHash 'b' then some (.tree, sampleTree.flatMap TreeEntry.encode)
  else if id = sampleHash 'c' then some (.blob, asciiBytes "a: 1".toList)
  else none

def sampleHeader (id : Hash) : Buffer :=
  match sampleStore id with
  | none => asciiBytes (missingText id) ++ [10]
  | some (type, content) => asciiBytes (headerText id type content.length) ++ [10]

def sampleGit : GitCli := fun _ request _ =>
  match request with
  | .isShallow => .ok (asciiBytes "false\n".toList)
  | .lsTree _ =>
    .ok (asciiBytes ("100644 blob ".toList ++ sampleHash 'c' ++ "\ta.yml".toList) ++ [0])
  | .revList head => .ok (asciiBytes (head ++ ['\n']))
  | .batchCheck ids => .ok (ids.flatMap sampleHeader)
  | .batch ids => .ok (ids.flatMap (frame sampleStore))

def sampleDetectors : Detectors where
  sensitivePath name := name = ".env".toList
  assertText _ := .ok ⟨⟩
  assertYaml content := if content = [] then .error .sensitive else .ok ⟨⟩

theorem honest_sampleGit : Honest sampleGit sampleStore (sampleHash 'a') where
  batch n ids capacity bytes answered := (Except.ok.inj answered).symm
  head n capacity bytes answered := by
    rw [← Except.ok.inj answered]
    decide +kernel

theorem sample_returned :
    (scanPublication sampleGit sampleDetectors (sampleHash 'a') {}).isOk = true := by
  decide +kernel

/-- The blob `c` is reached through the tree of the head, which names it `a.yml`. -/
theorem publicationScan_complete_sample :
    Inspected sampleStore sampleDetectors (sampleHash 'a') ∧
      InspectedYaml sampleStore sampleDetectors (hex (List.replicate 20 0xcc)) := by
  have returned := sample_returned
  cases run : scanPublication sampleGit sampleDetectors (sampleHash 'a') {} with
  | error fault =>
    rw [run] at returned
    cases returned
  | ok result =>
    obtain ⟨⟨⟩, s⟩ := result
    have complete := publicationScan_complete honest_sampleGit run
    refine ⟨complete.1 _ .refl, ?_⟩
    have edge : Edge sampleStore (sampleHash 'a') (sampleHash 'b') :=
      @Edge.commit _ _ _ (asciiBytes ("tree ".toList ++ sampleHash 'b' ++ ['\n', '\n'])) rfl
        ⟨asciiBytes ("tree ".toList ++ sampleHash 'b'), by decide +kernel, by decide +kernel,
          .inl (by decide +kernel)⟩
    have tree : HoldsTree sampleStore (sampleHash 'b') sampleTree := by
      refine ⟨by decide +kernel, fun entry member => ?_⟩
      rw [List.mem_singleton.mp member]
      exact ⟨by decide +kernel, by decide +kernel, by decide +kernel⟩
    refine complete.2.1 _ _ _ (.single edge) tree (List.mem_singleton_self _) ?_
    unfold TreeEntry.NamesYaml
    decide +kernel

end Ace.Git
