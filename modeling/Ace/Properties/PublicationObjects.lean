import Ace.Git.PublicationSensitive

/-!
# What inspection reads of an object

A tree is read as the one list of entries it encodes, a commit by the lines of its header, and a
batch as the frames of the objects that Git holds. The readers accept nothing else, so that what
they return is what the object refers to.
-/

namespace Ace.Git

open Script

theorem bind_eq_ok {α β : Type} {first : Except PublicationFault α}
    {next : α → Except PublicationFault β} {b : β} :
    (first >>= next) = .ok b ↔ ∃ a, first = .ok a ∧ next a = .ok b := by
  cases first with
  | error fault => simp [bind, Except.bind]
  | ok a => simp [bind, Except.bind]

section

variable {d : Detectors} {hashBytes : Nat}

/-! ### Trees -/

structure TreeEntry where
  mode : Buffer
  name : Buffer
  id : Buffer

def TreeEntry.encode (entry : TreeEntry) : Buffer :=
  entry.mode ++ 32 :: (entry.name ++ 0 :: entry.id)

structure TreeEntry.WellFormed (hashBytes : Nat) (entry : TreeEntry) : Prop where
  mode : 32 ∉ entry.mode
  name : 0 ∉ entry.name
  id : entry.id.length = hashBytes

def TreeEntry.gitlink (entry : TreeEntry) : Prop := ascii entry.mode = "160000".toList

instance (entry : TreeEntry) : Decidable entry.gitlink :=
  inferInstanceAs (Decidable (ascii entry.mode = "160000".toList))

/-- The name of an entry is text, and no sensitive one. -/
def TreeEntry.Publishable (d : Detectors) (entry : TreeEntry) : Prop :=
  ∃ name, decodeFatal entry.name = some name ∧ d.sensitivePath name = false

def TreeEntry.text (entry : TreeEntry) : List Char := (decodeFatal entry.name).getD []

def TreeEntry.references (entry : TreeEntry) : List PublicationReference :=
  entryReference (ascii entry.mode) entry.text entry.id

/-- The reference of an entry that is no gitlink. -/
def TreeEntry.reference (entry : TreeEntry) : PublicationReference where
  id := hex entry.id
  yaml := ascii entry.mode ≠ "40000".toList ∧ ascii entry.mode ≠ "040000".toList ∧
    publicationYamlName entry.text

theorem mem_references {entry : TreeEntry} (own : ¬ entry.gitlink) :
    entry.reference ∈ entry.references := by
  rw [TreeEntry.gitlink] at own
  rw [TreeEntry.references, entryReference, if_neg own]
  exact List.mem_singleton_self _

theorem flatMap_references (entries : List TreeEntry) :
    entries.flatMap TreeEntry.references =
      (entries.filter fun entry => !decide entry.gitlink).map TreeEntry.reference := by
  induction entries with
  | nil => rfl
  | cons entry entries ih =>
    rw [List.flatMap_cons, ih, TreeEntry.references, entryReference]
    by_cases link : entry.gitlink
    · have mode : ascii entry.mode = "160000".toList := link
      rw [if_pos mode, List.filter_cons_of_neg (by simp [link]), List.nil_append]
    · have mode : ascii entry.mode ≠ "160000".toList := link
      rw [if_neg mode, List.filter_cons_of_pos (by simp [link]), List.map_cons]
      rfl

theorem encode_ne_nil (entry : TreeEntry) (rest : Buffer) : entry.encode ++ rest ≠ [] := by
  simp [TreeEntry.encode]

theorem assertEntries_step {fuel : Nat} {bytes : Buffer} (nonempty : bytes ≠ []) :
    assertEntries d hashBytes (fuel + 1) bytes =
      match Framing.cut 32 bytes with
      | none => .error .incomplete
      | some (mode, rest) =>
        match Framing.cut 0 rest with
        | none => .error .incomplete
        | some (name, rest) =>
          if rest.length < hashBytes then .error .incomplete
          else match decodeFatal name with
            | none => .error .typeError
            | some name =>
              if d.sensitivePath name then .error .sensitive
              else do
                let others ← assertEntries d hashBytes fuel (rest.drop hashBytes)
                return entryReference (ascii mode) name (rest.take hashBytes) ++ others := by
  cases bytes with
  | nil => exact absurd rfl nonempty
  | cons b bs => rfl

theorem assertEntries_encode {entry : TreeEntry} (wellFormed : entry.WellFormed hashBytes)
    (fuel : Nat) (rest : Buffer) (references : List PublicationReference) :
    assertEntries d hashBytes (fuel + 1) (entry.encode ++ rest) = .ok references ↔
      entry.Publishable d ∧ ∃ others, assertEntries d hashBytes fuel rest = .ok others ∧
        references = entry.references ++ others := by
  have nonempty := encode_ne_nil entry rest
  have mode : Framing.cut 32 (entry.encode ++ rest) =
      some (entry.mode, entry.name ++ 0 :: (entry.id ++ rest)) := by
    refine Framing.cut_eq_some_iff.mpr ⟨?_, wellFormed.mode⟩
    simp [TreeEntry.encode]
  have name : Framing.cut 0 (entry.name ++ 0 :: (entry.id ++ rest)) =
      some (entry.name, entry.id ++ rest) := Framing.cut_eq_some_iff.mpr ⟨rfl, wellFormed.name⟩
  have enough : ¬ (entry.id ++ rest).length < hashBytes := by
    rw [List.length_append, wellFormed.id]
    omega
  have taken : (entry.id ++ rest).take hashBytes = entry.id := by
    rw [← wellFormed.id, List.take_left]
  have dropped : (entry.id ++ rest).drop hashBytes = rest := by
    rw [← wellFormed.id, List.drop_left]
  rw [assertEntries_step nonempty]
  simp only [mode, name, if_neg enough, taken, dropped]
  cases text : decodeFatal entry.name with
  | none =>
    refine ⟨fun impossible => (by cases impossible), ?_⟩
    rintro ⟨⟨name, is_text, -⟩, -⟩
    rw [text] at is_text
    cases is_text
  | some name =>
    have refers : entry.references = entryReference (ascii entry.mode) name entry.id := by
      simp [TreeEntry.references, TreeEntry.text, text]
    by_cases sensitive : d.sensitivePath name = true
    · simp only [sensitive, if_true]
      refine ⟨fun impossible => (by cases impossible), ?_⟩
      rintro ⟨⟨name', is_text, plain⟩, -⟩
      rw [text] at is_text
      cases is_text
      simp [sensitive] at plain
    · simp only [sensitive, Bool.false_eq_true, if_false, refers]
      have publishable : entry.Publishable d := ⟨name, text, by simpa using sensitive⟩
      cases assertEntries d hashBytes fuel rest with
      | error => simp [bind, Except.bind]
      | ok others => simp [bind, Except.bind, pure, Except.pure, publishable, eq_comm]

theorem assertEntries_entries {entries : List TreeEntry}
    (wellFormed : ∀ entry ∈ entries, entry.WellFormed hashBytes) {fuel : Nat}
    (enough : entries.length ≤ fuel) (references : List PublicationReference) :
    assertEntries d hashBytes fuel (entries.flatMap TreeEntry.encode) = .ok references ↔
      (∀ entry ∈ entries, entry.Publishable d) ∧
        references = entries.flatMap TreeEntry.references := by
  induction entries generalizing fuel references with
  | nil => cases fuel <;> simp [assertEntries, eq_comm]
  | cons entry entries ih =>
    cases fuel with
    | zero => simp at enough
    | succ fuel =>
      have here := wellFormed entry (List.mem_cons_self ..)
      have later : ∀ other ∈ entries, other.WellFormed hashBytes :=
        fun other member => wellFormed other (List.mem_cons_of_mem _ member)
      have enough' : entries.length ≤ fuel := by simpa using enough
      rw [List.flatMap_cons, assertEntries_encode here]
      simp only [ih later enough', List.forall_mem_cons, List.flatMap_cons]
      constructor
      · rintro ⟨publishable, others, ⟨all, rfl⟩, rfl⟩
        exact ⟨⟨publishable, all⟩, rfl⟩
      · rintro ⟨⟨publishable, all⟩, rfl⟩
        exact ⟨publishable, _, ⟨all, rfl⟩, rfl⟩

theorem entries_of_assertEntries {fuel : Nat} {bytes : Buffer}
    {references : List PublicationReference}
    (accepted : assertEntries d hashBytes fuel bytes = .ok references) :
    ∃ entries : List TreeEntry, bytes = entries.flatMap TreeEntry.encode ∧
      ∀ entry ∈ entries, entry.WellFormed hashBytes := by
  induction fuel generalizing bytes references with
  | zero =>
    cases bytes with
    | nil => exact ⟨[], rfl, by simp⟩
    | cons => cases accepted
  | succ fuel ih =>
    cases bytes with
    | nil => exact ⟨[], rfl, by simp⟩
    | cons b bs =>
      rw [assertEntries_step (List.cons_ne_nil b bs)] at accepted
      split at accepted
      · cases accepted
      next mode rest first =>
        split at accepted
        · cases accepted
        next name rest' second =>
          split at accepted
          · cases accepted
          next enough =>
            split at accepted
            · cases accepted
            · split at accepted
              · cases accepted
              · cases others : assertEntries d hashBytes fuel (rest'.drop hashBytes) with
                | error => simp [others, bind, Except.bind] at accepted
                | ok =>
                  obtain ⟨entries, tail, wellFormed⟩ := ih others
                  obtain ⟨split, no_space⟩ := Framing.cut_eq_some_iff.mp first
                  obtain ⟨split', no_nul⟩ := Framing.cut_eq_some_iff.mp second
                  have length : (rest'.take hashBytes).length = hashBytes := by
                    rw [List.length_take]
                    omega
                  refine ⟨⟨mode, name, rest'.take hashBytes⟩ :: entries, ?_, ?_⟩
                  · rw [List.flatMap_cons, ← tail, split, split']
                    simp [TreeEntry.encode]
                  · rw [List.forall_mem_cons]
                    exact ⟨⟨no_space, no_nul, length⟩, wellFormed⟩

theorem length_le_flatMap (entries : List TreeEntry) :
    entries.length ≤ (entries.flatMap TreeEntry.encode).length := by
  induction entries with
  | nil => exact Nat.le_refl _
  | cons entry entries ih =>
    simp only [List.flatMap_cons, List.length_append, List.length_cons, TreeEntry.encode]
    omega

/-- A tree is accepted if and only if it is a list of well-formed entries with publishable names;
what it refers to is what its entries refer to. -/
theorem assertPublicationTree_iff {bytes : Buffer} {references : List PublicationReference} :
    assertPublicationTree d bytes hashBytes = .ok references ↔
      ∃ entries : List TreeEntry, bytes = entries.flatMap TreeEntry.encode ∧
        (∀ entry ∈ entries, entry.WellFormed hashBytes ∧ entry.Publishable d) ∧
        references = entries.flatMap TreeEntry.references := by
  unfold assertPublicationTree
  constructor
  · intro accepted
    obtain ⟨entries, rfl, wellFormed⟩ := entries_of_assertEntries accepted
    obtain ⟨publishable, same⟩ :=
      (assertEntries_entries wellFormed (length_le_flatMap entries) references).mp accepted
    exact ⟨entries, rfl, fun entry member => ⟨wellFormed entry member, publishable entry member⟩,
      same⟩
  · rintro ⟨entries, rfl, all, rfl⟩
    exact (assertEntries_entries (fun entry member => (all entry member).1)
      (length_le_flatMap entries) _).mpr ⟨fun entry member => (all entry member).2, rfl⟩

theorem references_of_encoded {entries : List TreeEntry} {references : List PublicationReference}
    (wellFormed : ∀ entry ∈ entries, entry.WellFormed hashBytes)
    (accepted : assertPublicationTree d (entries.flatMap TreeEntry.encode) hashBytes =
      .ok references) : references = entries.flatMap TreeEntry.references :=
  ((assertEntries_entries wellFormed (length_le_flatMap entries) references).mp accepted).2

/-! ### Text -/

def Plain (c : Char) : Prop := c.toNat < 128 ∧ c ≠ '\n'

instance : DecidablePred Plain := fun c => inferInstanceAs (Decidable (c.toNat < 128 ∧ c ≠ '\n'))

theorem of_all_chars {p : Char → Prop} [DecidablePred p] {text : List Char}
    (all : (text.all fun c => decide (p c)) = true) : ∀ c ∈ text, p c :=
  fun c member => of_decide_eq_true (List.all_eq_true.mp all c member)

def asciiBytes (text : List Char) : Buffer := text.map fun c => UInt8.ofNat c.toNat

theorem asciiChar_ofNat {c : Char} (plain : Plain c) : asciiChar (UInt8.ofNat c.toNat) = c := by
  have small : c.toNat < 128 := plain.1
  have byte : (UInt8.ofNat c.toNat).toNat = c.toNat := by
    rw [UInt8.toNat_ofNat']
    omega
  rw [asciiChar, byte, Nat.mod_eq_of_lt small, Char.ofNat_toNat]

theorem ascii_asciiBytes {text : List Char} (plain : ∀ c ∈ text, Plain c) :
    ascii (asciiBytes text) = text := by
  rw [ascii, asciiBytes, List.map_map]
  have same : ∀ c ∈ text, (asciiChar ∘ fun c => UInt8.ofNat c.toNat) c = id c :=
    fun c member => asciiChar_ofNat (plain c member)
  rw [List.map_congr_left same, List.map_id]

theorem asciiChar_ne_newline {text : List Char} (plain : ∀ c ∈ text, Plain c) {b : UInt8}
    (member : b ∈ asciiBytes text) : asciiChar b ≠ '\n' := by
  obtain ⟨c, is_char, rfl⟩ := List.mem_map.mp member
  rw [asciiChar_ofNat (plain c is_char)]
  exact (plain c is_char).2

theorem newline_not_mem {text : List Char} (plain : ∀ c ∈ text, Plain c) :
    10 ∉ asciiBytes text :=
  fun member => asciiChar_ne_newline plain member rfl

theorem plain_of_isDigit {c : Char} (digit : c.isDigit = true) : Plain c ∧ c ≠ ' ' := by
  simp only [Char.isDigit, ge_iff_le, Bool.and_eq_true, decide_eq_true_eq, UInt32.le_iff_toNat_le]
    at digit
  have upper : c.toNat ≤ 57 := digit.2
  have lower : 48 ≤ c.toNat := digit.1
  refine ⟨⟨by omega, ?_⟩, ?_⟩
  · rintro rfl
    exact absurd lower (by decide)
  · rintro rfl
    exact absurd lower (by decide)

theorem plain_of_isHex {c : Char} (is_hex : isHex c = true) : Plain c ∧ c ≠ ' ' := by
  rw [isHex, Bool.or_eq_true] at is_hex
  rcases is_hex with digit | letter
  · exact plain_of_isDigit digit
  · simp only [Bool.and_eq_true, decide_eq_true_eq, Char.le_def, UInt32.le_iff_toNat_le] at letter
    have upper : c.toNat ≤ 102 := letter.2
    have lower : 97 ≤ c.toNat := letter.1
    refine ⟨⟨by omega, ?_⟩, ?_⟩
    · rintro rfl
      exact absurd lower (by decide)
    · rintro rfl
      exact absurd lower (by decide)

theorem plain_of_isHash {text : List Char} (is_hash : isHash text = true) {c : Char}
    (member : c ∈ text) : Plain c ∧ c ≠ ' ' := by
  rw [isHash, Bool.and_eq_true, List.all_eq_true] at is_hash
  exact plain_of_isHex (is_hash.2 c member)

theorem eq_of_decodeHash {text : List Char} {context : String} {id : Hash}
    (decoded : decodeHash text context = .ok id) : isHash text = true ∧ id = text := by
  rw [decodeHash] at decoded
  split at decoded
  next is_hash =>
    cases decoded
    exact ⟨is_hash, rfl⟩
  · cases decoded

/-! ### Commits -/

/-- A header of the commit names the object as its tree or as a parent. -/
def CommitEdge (content : Buffer) (child : Hash) : Prop :=
  ∃ header, Framing.beforeBlank 10 content = some header ∧ isHash child = true ∧
    ((Framing.lines 10 header).1 = asciiBytes ("tree ".toList ++ child) ∨
      asciiBytes ("parent ".toList ++ child) ∈ (Framing.lines 10 header).2)

theorem eq_of_headerHash {key value : List Char} {length : Nat} {context : String} {id : Hash}
    (found : headerHash key length context (key ++ value) = .ok id) : id = value := by
  rw [headerHash, List.drop_left] at found
  split at found
  · exact (eq_of_decodeHash found).2
  · cases found

theorem plain_header {key : List Char} (plain : ∀ c ∈ key, Plain c) {child : Hash}
    (is_hash : isHash child = true) : ∀ c ∈ key ++ child, Plain c := by
  intro c member
  rcases List.mem_append.mp member with in_key | in_child
  · exact plain c in_key
  · exact (plain_of_isHash is_hash in_child).1

theorem plain_tree : ∀ c ∈ "tree ".toList, Plain c := of_all_chars (by decide)

theorem plain_parent : ∀ c ∈ "parent ".toList, Plain c := of_all_chars (by decide)

theorem mem_parentHashes {length : Nat} {lines : List (List Char)} {child : Hash}
    (member : "parent ".toList ++ child ∈ lines) {references : List PublicationReference}
    (accepted : parentHashes length lines = .ok references) : { id := child } ∈ references := by
  induction lines generalizing references with
  | nil => cases member
  | cons line lines ih =>
    rw [parentHashes] at accepted
    split at accepted
    next is_parent =>
      obtain ⟨id, found, accepted⟩ := bind_eq_ok.mp accepted
      obtain ⟨others, later, accepted⟩ := bind_eq_ok.mp accepted
      cases accepted
      rcases List.mem_cons.mp member with rfl | member
      · rw [eq_of_headerHash found]
        exact List.mem_cons_self ..
      · exact List.mem_cons_of_mem _ (ih member later)
    next no_parent =>
      rcases List.mem_cons.mp member with rfl | member
      · exact absurd (List.isPrefixOf_iff_prefix.mpr (List.prefix_append ..)) no_parent
      · exact ih member accepted

theorem mem_commitReferences {content : Buffer} {length : Nat} {child : Hash}
    (edge : CommitEdge content child) {references : List PublicationReference}
    (accepted : commitReferences content length = .ok references) :
    { id := child } ∈ references := by
  obtain ⟨header, before, is_hash, named⟩ := edge
  have image : asciiChar 10 = '\n' := rfl
  obtain ⟨first, others⟩ := Framing.lines_map image header
  rw [commitReferences, before] at accepted
  obtain ⟨root, found, accepted⟩ := bind_eq_ok.mp accepted
  obtain ⟨parents, later, accepted⟩ := bind_eq_ok.mp accepted
  cases accepted
  rcases named with is_tree | is_parent
  · have plain := plain_header plain_tree is_hash
    have same : (Framing.lines '\n' (ascii header)).1 = "tree ".toList ++ child := by
      rw [← ascii_asciiBytes plain, ← is_tree]
      exact first fun b member => asciiChar_ne_newline plain (is_tree ▸ member)
    rw [same] at found
    rw [eq_of_headerHash found]
    exact List.mem_cons_self ..
  · have plain := plain_header plain_parent is_hash
    have member := others _ is_parent fun b member => asciiChar_ne_newline plain member
    have line : (asciiBytes ("parent ".toList ++ child)).map asciiChar =
        "parent ".toList ++ child := ascii_asciiBytes plain
    rw [line] at member
    exact List.mem_cons_of_mem _ (mem_parentHashes member later)

/-! ### Batches -/

abbrev ObjectStore := Hash → Option (ObjectType × Buffer)

def headerText (id : Hash) (type : ObjectType) (size : Nat) : List Char :=
  id ++ ' ' :: (type.text ++ ' ' :: Nat.toDigits 10 size)

def missingText (id : Hash) : List Char := id ++ ' ' :: "missing".toList

/-- What `git cat-file --batch` prints for one requested object. -/
def frame (store : ObjectStore) (id : Hash) : Buffer :=
  match store id with
  | none => asciiBytes (missingText id) ++ [10]
  | some (type, content) =>
    asciiBytes (headerText id type content.length) ++ 10 :: (content ++ [10])

theorem plain_type (type : ObjectType) : ∀ c ∈ type.text, Plain c ∧ c ≠ ' ' := by
  cases type <;> exact of_all_chars (by decide)

theorem plain_digits (size : Nat) : ∀ c ∈ Nat.toDigits 10 size, Plain c ∧ c ≠ ' ' :=
  fun _ member => plain_of_isDigit (Nat.isDigit_of_mem_toDigits (by decide) (by decide) member)

theorem plain_missing : ∀ c ∈ "missing".toList, Plain c ∧ c ≠ ' ' :=
  of_all_chars (by decide)

theorem plain_space : Plain ' ' := by decide

theorem plain_headerText {id : Hash} (is_hash : isHash id = true) (type : ObjectType)
    (size : Nat) : ∀ c ∈ headerText id type size, Plain c := by
  intro c member
  simp only [headerText, List.mem_append, List.mem_cons] at member
  rcases member with in_id | rfl | in_type | rfl | digit
  · exact (plain_of_isHash is_hash in_id).1
  · exact plain_space
  · exact (plain_type type c in_type).1
  · exact plain_space
  · exact (plain_digits size c digit).1

theorem plain_missingText {id : Hash} (is_hash : isHash id = true) :
    ∀ c ∈ missingText id, Plain c := by
  intro c member
  simp only [missingText, List.mem_append, List.mem_cons] at member
  rcases member with in_id | rfl | in_word
  · exact (plain_of_isHash is_hash in_id).1
  · exact plain_space
  · exact (plain_missing c (by simpa using in_word)).1

theorem space_not_mem {text : List Char} (plain : ∀ c ∈ text, Plain c ∧ c ≠ ' ') : ' ' ∉ text :=
  fun member => (plain ' ' member).2 rfl

theorem space_not_mem_hash {id : Hash} (is_hash : isHash id = true) : ' ' ∉ id :=
  space_not_mem fun _ => plain_of_isHash is_hash

theorem eq_of_decodeType {type found : ObjectType} (decoded : decodeType type.text = .ok found) :
    found = type := by
  have known : decodeType type.text = .ok type := by cases type <;> rfl
  rw [known] at decoded
  exact (Except.ok.inj decoded).symm

theorem eq_of_count {size n : Nat} (counted : count (Nat.toDigits 10 size) = .ok n) :
    n = size := by
  rw [count, Nat.ofDigitChars_toDigits (by decide) (by decide)] at counted
  split at counted
  · cases counted
    rfl
  · cases counted

theorem objectHeader_headerText {id : Hash} (is_hash : isHash id = true) {type : ObjectType}
    {size : Nat} {object : ScanObject}
    (found : objectHeader (headerText id type size) = .ok object) :
    object.id = id ∧ object.type = type ∧ object.size = size := by
  have parts : Framing.lines ' ' (headerText id type size) =
      (id, [type.text, Nat.toDigits 10 size]) := by
    rw [headerText, Framing.lines_cons (space_not_mem_hash is_hash),
      Framing.lines_cons (space_not_mem (plain_type type)),
      Framing.lines_of_free (space_not_mem (plain_digits size))]
  simp only [objectHeader, parts] at found
  split at found
  · obtain ⟨id', decoded, found⟩ := bind_eq_ok.mp found
    obtain ⟨type', typed, found⟩ := bind_eq_ok.mp found
    obtain ⟨size', counted, found⟩ := bind_eq_ok.mp found
    cases found
    exact ⟨(eq_of_decodeHash decoded).2, eq_of_decodeType typed, eq_of_count counted⟩
  · cases found

theorem objectHeader_missingText {id : Hash} (is_hash : isHash id = true) (object : ScanObject) :
    objectHeader (missingText id) ≠ .ok object := by
  have parts : Framing.lines ' ' (missingText id) = (id, ["missing".toList]) := by
    rw [missingText, Framing.lines_cons (space_not_mem_hash is_hash),
      Framing.lines_of_free (space_not_mem plain_missing)]
  intro found
  simp only [objectHeader, parts] at found
  cases found

theorem inspectObject_tree {object : ScanObject} (is_tree : object.type = .tree)
    (content : Buffer) :
    inspectObject d object content = assertPublicationTree d content (object.id.length / 2) := by
  rw [inspectObject, if_pos is_tree]

theorem inspected_content {object : ScanObject} (other : object.type ≠ .tree) {content : Buffer}
    {own : List PublicationReference} (inspected : inspectObject d object content = .ok own) :
    (object.type = .commit → commitReferences content object.id.length = .ok own) ∧
      d.assertText content = .ok ⟨⟩ ∧ (object.yaml = true → d.assertYaml content = .ok ⟨⟩) := by
  rw [inspectObject, if_neg other] at inspected
  obtain ⟨references, read, inspected⟩ : ∃ references,
      (if object.type = .commit then commitReferences content object.id.length else .ok []) =
        .ok references ∧
      (do d.assertText content
          if object.yaml then d.assertYaml content
          return references) = Except.ok own := by
    by_cases is_commit : object.type = .commit
    · rw [if_pos is_commit] at inspected ⊢
      exact bind_eq_ok.mp inspected
    · rw [if_neg is_commit] at inspected ⊢
      exact bind_eq_ok.mp inspected
  obtain ⟨_, text, inspected⟩ := bind_eq_ok.mp inspected
  by_cases yaml : object.yaml = true
  · simp only [yaml, if_true] at inspected
    obtain ⟨_, passed, inspected⟩ := bind_eq_ok.mp inspected
    cases inspected
    refine ⟨fun is_commit => ?_, text, fun _ => passed⟩
    rwa [if_pos is_commit] at read
  · simp only [yaml, Bool.false_eq_true, if_false] at inspected
    cases inspected
    refine ⟨fun is_commit => ?_, text, fun flag => absurd flag yaml⟩
    rwa [if_pos is_commit] at read

/-- Every object of a batch that Git answers from its store was inspected with the content that
the store holds. -/
theorem inspected_of_batch {store : ObjectStore} {expected : List ScanObject}
    (hashes : ∀ object ∈ expected, isHash object.id = true)
    {references : List PublicationReference}
    (accepted : inspectPublicationBatch d (expected.flatMap fun object => frame store object.id)
      expected = .ok references) {object : ScanObject} (member : object ∈ expected) :
    ∃ content own, store object.id = some (object.type, content) ∧
      inspectObject d object content = .ok own ∧ ∀ reference ∈ own, reference ∈ references := by
  induction expected generalizing references with
  | nil => cases member
  | cons first expected ih =>
    have is_hash := hashes first (List.mem_cons_self ..)
    have later_hashes : ∀ object ∈ expected, isHash object.id = true :=
      fun object later => hashes object (List.mem_cons_of_mem _ later)
    rw [List.flatMap_cons, inspectPublicationBatch] at accepted
    cases held : store first.id with
    | none =>
      have line : ∀ rest, Framing.cut 10 (frame store first.id ++ rest) =
          some (asciiBytes (missingText first.id), rest) := fun rest =>
        Framing.cut_eq_some_iff.mpr
          ⟨by simp [frame, held], newline_not_mem (plain_missingText is_hash)⟩
      simp only [line, ascii_asciiBytes (plain_missingText is_hash)] at accepted
      obtain ⟨actual, found, -⟩ := bind_eq_ok.mp accepted
      exact absurd found (objectHeader_missingText is_hash actual)
    | some stored =>
      obtain ⟨type, content⟩ := stored
      have plain := plain_headerText is_hash type content.length
      have line : ∀ rest, Framing.cut 10 (frame store first.id ++ rest) =
          some (asciiBytes (headerText first.id type content.length), content ++ 10 :: rest) :=
        fun rest => Framing.cut_eq_some_iff.mpr
          ⟨by simp [frame, held], newline_not_mem plain⟩
      simp only [line, ascii_asciiBytes plain] at accepted
      obtain ⟨actual, found, accepted⟩ := bind_eq_ok.mp accepted
      obtain ⟨same_id, same_type, same_size⟩ := objectHeader_headerText is_hash found
      split at accepted
      · cases accepted
      next agrees =>
        simp only [not_or, Decidable.not_not] at agrees
        -- The expected size is the stored one, so the content is cut where it ends.
        have size : first.size = content.length := by rw [← agrees.2.2, same_size]
        have taken : ∀ rest, (content ++ 10 :: rest).take first.size = content := fun rest => by
          rw [size, List.take_left]
        have dropped : ∀ rest, (content ++ 10 :: rest).drop (first.size + 1) = rest :=
          fun rest => by
            rw [size, ← List.drop_drop, List.drop_left]
            rfl
        simp only [taken, dropped] at accepted
        split at accepted
        · cases accepted
        · obtain ⟨own, inspected, accepted⟩ := bind_eq_ok.mp accepted
          obtain ⟨others, rest, accepted⟩ := bind_eq_ok.mp accepted
          cases accepted
          rcases List.mem_cons.mp member with rfl | member
          · refine ⟨content, own, ?_, inspected, fun reference is_own =>
              List.mem_append_left _ is_own⟩
            rw [← agrees.2.1, same_type, held]
          · obtain ⟨content', own', held', inspected', included⟩ := ih later_hashes rest member
            exact ⟨content', own', held', inspected', fun reference is_own =>
              List.mem_append_right _ (included reference is_own)⟩

end

end Ace.Git
