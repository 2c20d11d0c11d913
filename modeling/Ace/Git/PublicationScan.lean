import Ace.Git.PublicationSensitive

/-!
# The publication scan

`packages/git/src/publication-scan.ts`: a scan of the complete history of a pinned head. Git
enumerates objects first, and every tree and commit that is read adds what it refers to, so that
the list of ids grows while it is read in groups and inspected in bounded batches. A second pass
inspects as YAML every blob that some tree names so, however late the name was found.
-/

namespace Ace.Git

open Script Script.Command

inductive PublicationRequest where
  /-- `rev-parse --is-shallow-repository` -/
  | isShallow
  /-- `ls-tree -r -z head` -/
  | lsTree (head : Hash)
  /-- `rev-list --objects --no-object-names head` -/
  | revList (head : Hash)
  /-- `cat-file --batch-check` -/
  | batchCheck (ids : List Hash)
  /-- `cat-file --batch` -/
  | batch (ids : List Hash)
  deriving DecidableEq, Repr

/-- What the `n`-th call of Git answers to a request whose output may take so many bytes. A call
throws when it fails, is aborted or truncates its output. -/
abbrev GitCli := Nat → PublicationRequest → Nat → Except PublicationFault Buffer

structure ScanState where
  calls : Nat := 0
  /-- The sets in the order of their insertions. -/
  objects : List Hash := []
  yamlObjects : List Hash := []
  yamlIds : List Hash := []
  ids : List Hash := []
  total : Nat := 0
  batch : List ScanObject := []
  batchBytes : Nat := 0
  deriving DecidableEq

abbrev Scan := Command ScanState PublicationFault

def metadataLimit : Nat := 8 * 1024 * 1024

def contentLimit : Nat := 128 * 1024 * 1024

def objectLimit : Nat := 8 * 1024 * 1024

def objectCount : Nat := 100000

def incompletePublicationScan {α : Type} : Scan α := throw .incomplete

/-- What a parser returned, or what it threw. -/
def parsed {α : Type} (result : Except PublicationFault α) : Scan α :=
  match result with
  | .ok value => pure value
  | .error fault => throw fault

def read (git : GitCli) (request : PublicationRequest) (capacity : Nat) : Scan Buffer := do
  let s ← get
  set { s with calls := s.calls + 1 }
  parsed (git s.calls request capacity)

def insertNew (ids : List Hash) (id : Hash) : List Hash := if id ∈ ids then ids else ids ++ [id]

/-- `text.trim()` of ASCII text. -/
def trim (text : List Char) : List Char :=
  ((text.dropWhile isSpace).reverse.dropWhile isSpace).reverse

/-- `text.split("\n")` -/
def splitLines (text : List Char) : List (List Char) :=
  (Framing.lines '\n' text).1 :: (Framing.lines '\n' text).2

/-! ### The first enumeration -/

/-- The records of NUL-terminated UTF-8 metadata. -/
def nul (bytes : Buffer) : Except PublicationFault (List (List Char)) :=
  if bytes = [] then .ok []
  else if bytes.getLast? ≠ some 0 then .error (.malformed "NUL framing")
  else match decodeFatal bytes with
    | none => .error (.malformed "UTF-8 metadata")
    | some text =>
      let records := (Framing.lines (Char.ofNat 0) text).1 :: (Framing.lines (Char.ofNat 0) text).2
      .ok records.dropLast

/-- Whether the entry is a blob, its hash and its path: `/^\d+ (blob|commit) ([a-f0-9]+)\t(…)$/`. -/
def treeRecord (entry : List Char) : Option (Bool × List Char × List Char) := do
  let (mode, rest) ← Framing.cut ' ' entry
  let (type, rest) ← Framing.cut ' ' rest
  let (id, path) ← Framing.cut '\t' rest
  if isDigits mode ∧ (type = "blob".toList ∨ type = "commit".toList) ∧ id ≠ [] ∧ id.all isHex ∧
      path ≠ [] then
    return (decide (type = "blob".toList), id, path)
  else none

/-- A tracked path, also where its blob is on the remote already. -/
def trackEntry (d : Detectors) (entry : List Char) : Scan PUnit :=
  match treeRecord entry with
  | none => incompletePublicationScan
  | some (blob, id, path) =>
    if d.sensitivePath path then throw .sensitive
    else when blob do
      let id ← parsed (decodeHash id "object hash")
      modify fun s => { s with objects := insertNew s.objects id }
      when (publicationYamlName path) (modify fun s =>
        if id ∈ s.yamlObjects then s
        else { s with yamlObjects := s.yamlObjects ++ [id], yamlIds := s.yamlIds ++ [id] })

def enumerate (git : GitCli) (head : Hash) : Scan PUnit := do
  let text := trim (ascii (← read git (.revList head) metadataLimit))
  when (text ≠ []) <| (splitLines text).forM fun line => do
    let id ← parsed (decodeHash line "object hash")
    modify fun s => { s with objects := insertNew s.objects id }
  when (objectCount < (← get).objects.length) incompletePublicationScan
  modify fun s => { s with ids := s.objects }

/-! ### Batches -/

/-- A reference that an inspected object holds. -/
def addReference (reference : PublicationReference) : Scan PUnit := do
  modify fun s =>
    if reference.yaml ∧ reference.id ∉ s.yamlObjects then
      { s with
        yamlObjects := s.yamlObjects ++ [reference.id]
        yamlIds := s.yamlIds ++ [reference.id] }
    else s
  let s ← get
  if reference.id ∈ s.objects then return
  set { s with objects := s.objects ++ [reference.id], ids := s.ids ++ [reference.id] }
  when (objectCount < s.objects.length + 1) incompletePublicationScan

/-- Inspect the objects of the batch, and add what they refer to. -/
def flush (git : GitCli) (d : Detectors) : Scan PUnit := do
  let s ← get
  when (s.batch ≠ []) do
    let bytes ← read git (.batch (s.batch.map (·.id))) (s.batchBytes + s.batch.length * 128)
    let references ← parsed (inspectPublicationBatch d bytes s.batch)
    references.forM addReference
    modify fun s => { s with batch := [], batchBytes := 0 }

/-- Take the object of a header into the batch, after a full one is flushed. -/
def admitObject (git : GitCli) (d : Detectors) (yaml : Bool) (id : Hash) (header : List Char) :
    Scan PUnit := do
  let object ← parsed (objectHeader header)
  when (yaml ∧ object.type ≠ .blob) incompletePublicationScan
  when (object.id ≠ id ∨ objectLimit < object.size) incompletePublicationScan
  modify fun s => { s with total := s.total + object.size }
  let s ← get
  when (contentLimit < s.total) incompletePublicationScan
  when (256 ≤ s.batch.length ∨ 16 * 1024 * 1024 < s.batchBytes + object.size) (flush git d)
  modify fun s => { s with
    batch := s.batch ++ [{ object with yaml }]
    batchBytes := s.batchBytes + object.size + 1 }

def admitGroup (git : GitCli) (d : Detectors) (yaml : Bool) (group : List Hash) : Scan PUnit := do
  let text ← read git (.batchCheck group) metadataLimit
  let headers := splitLines (trim (ascii text))
  when (headers.length ≠ group.length) incompletePublicationScan
  (group.zip headers).forM fun (id, header) => admitObject git d yaml id header
  flush git d

/-! ### The two phases -/

def phaseIds (yaml : Bool) (s : ScanState) : List Hash := if yaml then s.yamlIds else s.ids

/-- Read the ids of a phase in groups, while the list may grow. -/
def scanGroups (git : GitCli) (d : Detectors) (yaml : Bool) : Nat → Nat → Scan PUnit
  | fuel, position => do
    let ids := phaseIds yaml (← get)
    if ids.length ≤ position then return
    match fuel with
    | 0 => throw .depth
    | fuel + 1 =>
      let group := (ids.drop position).take 512
      admitGroup git d yaml group
      scanGroups git d yaml fuel (position + group.length)

/-- More groups than ids are never read. -/
def scanPhase (git : GitCli) (d : Detectors) (yaml : Bool) : Scan PUnit :=
  scanGroups git d yaml objectCount 0

def scanPublication (git : GitCli) (d : Detectors) (head : Hash) : Scan PUnit := do
  let shallow := trim (ascii (← read git .isShallow metadataLimit))
  when (shallow ≠ "false".toList) incompletePublicationScan
  let entries ← parsed (nul (← read git (.lsTree head) metadataLimit))
  entries.forM (trackEntry d)
  enumerate git head
  scanPhase git d false
  scanPhase git d true

end Ace.Git
