import Ace.Properties.SensitiveSpans
import Ace.Redaction.Streaming

/-!
# What the lexical rules remove

Every rule of the lexical redactor replaces matches in order by closed texts. So what is still
there at the end was there at the start and stood no closer to a word, and the rule for a
configured name leaves no occurrence of it, whatever the rules before it did to its
surroundings.

## Main results

`read_createTextRedactor` and `read_createStreamingRedactor`: what a tracked run reads as is
what the program computes.

`textRedactor_removes`: an original part that is still there spells no configured path, home
or host, and spells the user name only beside a word.
-/

namespace Ace.Redaction

open Script

/-! ### A tracked run computes what the program computes -/

section

variable {α : Type} (M : Medium α) (ctx : RedactionContext)

theorem read_redactOriginalText (environment : EnvironmentMatcher) (text : List α) :
    M.read (redactOriginalText M environment text) =
      redactOriginalText .plain environment (M.read text) := by
  rw [redactOriginalText, M.read_splice, redactOriginalText, Medium.read_plain]

theorem read_replaceAll (rule : Rule) (replacement : CodeUnits) (text : List α) :
    M.read (replaceAll M rule replacement text) =
      replaceAll .plain rule replacement (M.read text) := by
  rw [replaceAll, M.read_splice, replaceAll, Medium.read_plain]

theorem read_replaceEmails (text : List α) :
    M.read (replaceEmails M text) = replaceEmails .plain (M.read text) := by
  rw [replaceEmails, M.read_splice, replaceEmails, Medium.read_plain]

theorem read_replacePath (text : List α) (path : CodeUnits × CodeUnits) :
    M.read (replacePath M text path) = replacePath .plain (M.read text) path := by
  rw [replacePath, replacePath, apply_ite M.read, read_replaceAll]

theorem read_foldl_replacePath (paths : List (CodeUnits × CodeUnits)) : ∀ text : List α,
    M.read (paths.foldl (replacePath M) text) =
      paths.foldl (replacePath .plain) (M.read text) := by
  induction paths with
  | nil => exact fun _ => rfl
  | cons path paths ih =>
    intro text
    rw [List.foldl_cons, List.foldl_cons, ih, read_replacePath]

theorem read_createLexicalRedactor (line : List α) :
    M.read (createLexicalRedactor M ctx line) =
      createLexicalRedactor .plain ctx (M.read line) := by
  simp only [createLexicalRedactor, Medium.read_plain, Medium.write_plain]
  rw [apply_ite M.read, M.read_write]
  cases user ctx <;>
    simp only [read_replaceAll, read_replaceEmails, read_foldl_replacePath,
      read_redactOriginalText]

theorem read_createTextRedactor (text : List α) :
    M.read (createTextRedactor M ctx text) = createTextRedactor .plain ctx (M.read text) := by
  have length : (createLexicalRedactor M ctx text).length =
      (createLexicalRedactor .plain ctx (M.read text)).length := by
    rw [← read_createLexicalRedactor, M.length_read]
  simp only [createTextRedactor, M.length_read, length]
  rw [apply_ite M.read, apply_ite M.read, M.read_write, read_createLexicalRedactor,
    Medium.write_plain]

theorem read_scrubPiece (text : List α) (piece : Streaming.Piece) :
    M.read (scrubPiece M ctx text piece) = scrubPiece .plain ctx (M.read text) piece := by
  rw [scrubPiece, read_createTextRedactor, M.read_splice, scrubPiece, Medium.read, Medium.read,
    List.map_take]

theorem read_createStreamingRedactor (text : List α) :
    (createStreamingRedactor M ctx text).map M.read =
      createStreamingRedactor .plain ctx (M.read text) := by
  rw [createStreamingRedactor, createStreamingRedactor, List.map_map, Medium.read_plain]
  exact List.map_congr_left fun piece _ => read_scrubPiece M ctx text piece

end

/-! ### Rules that keep what they do not match -/

/-- What the result still holds of the original was there before, and no closer to a word. -/
def Retains (f : List Cell → List Cell) : Prop :=
  ∀ part : List Cell, (∀ x ∈ part, x.origin ≠ none) → part ≠ [] → ∀ text pre' post',
    f text = pre' ++ (part ++ post') →
    ∃ pre post, text = pre ++ (part ++ post) ∧ (Apart pre post → Apart pre' post')

theorem Retains.comp {f g : List Cell → List Cell} (outer : Retains g) (inner : Retains f) :
    Retains fun text => g (f text) := by
  intro part original nonempty text pre' post' same
  obtain ⟨pre, post, middle, apart⟩ := outer part original nonempty _ pre' post' same
  obtain ⟨pre₀, post₀, whole, apart₀⟩ := inner part original nonempty _ pre post middle
  exact ⟨pre₀, post₀, whole, fun before => apart (apart₀ before)⟩

theorem retains_id : Retains fun text => text :=
  fun _ _ _ _ pre' post' same => ⟨pre', post', same, id⟩

theorem retains_splice (spans : CodeUnits → List Edit) (ordered : ∀ text, Ordered 0 (spans text))
    (closed : ∀ text, ∀ s ∈ spans text, Closed s.replacement) :
    Retains fun text => Medium.tracked.splice text 0 (spans (Medium.tracked.read text)) := by
  intro part original nonempty text pre' post' same
  obtain ⟨pre, post, clear, apart⟩ := splice_infix original nonempty text _ 0 (ordered _)
    (closed _) pre' post' same
  exact ⟨pre, post, clear.whole, apart⟩

theorem ordered_map_matches (found : List Match) (replacement : CodeUnits)
    (bounds : ∀ m ∈ found, m.index ≤ m.start ∧ m.start ≤ m.finish ∧ m.finish ≤ m.stop)
    (apart : found.Pairwise fun m n => m.stop ≤ n.index) : ∀ place,
    (∀ m ∈ found, place ≤ m.index) →
    Ordered place (found.map fun m => { start := m.start, stop := m.finish, replacement }) := by
  induction found with
  | nil => exact fun _ _ => trivial
  | cons m found ih =>
    intro place after
    have first := bounds m List.mem_cons_self
    have begins := after m List.mem_cons_self
    refine ⟨by simp only; omega, first.2.1, ?_⟩
    apply ih (fun n member => bounds n (List.mem_cons_of_mem m member))
      (List.pairwise_cons.mp apart).2
    intro n member
    have next := (List.pairwise_cons.mp apart).1 n member
    simp only
    omega

theorem ordered_matches (rule : Rule) (replacement text : CodeUnits) :
    Ordered 0 ((rule.allMatches text).map fun m =>
      { start := m.start, stop := m.finish, replacement }) := by
  apply ordered_map_matches _ _ _ (rule.allMatches_pairwise text) _ fun _ _ => Nat.zero_le _
  intro m member
  have bounds := rule.allMatches_bounds text m member
  omega

theorem retains_replaceAll (rule : Rule) {replacement : CodeUnits} (closed : Closed replacement) :
    Retains (replaceAll .tracked rule replacement) := by
  apply retains_splice (fun text => (rule.allMatches text).map fun m =>
    { start := m.start, stop := m.finish, replacement })
  · exact fun text => ordered_matches rule replacement text
  · intro text s member
    obtain ⟨_, _, rfl⟩ := List.mem_map.mp member
    exact closed

theorem retains_replaceEmails : Retains (replaceEmails .tracked) := by
  apply retains_splice (fun text =>
    ((EMAIL.allMatches text).filter fun m =>
      !KEEP_EMAILS.contains (slice text m.start m.finish)).map fun m =>
        { start := m.start, stop := m.finish, replacement := units "<EMAIL>" })
  · intro text
    apply ordered_map_matches _ _ _ ((EMAIL.allMatches_pairwise text).filter _) _
      fun _ _ => Nat.zero_le _
    intro m member
    have bounds := EMAIL.allMatches_bounds text m (List.mem_filter.mp member).1
    omega
  · intro text s member
    obtain ⟨_, _, rfl⟩ := List.mem_map.mp member
    exact (by decide : Closed (units "<EMAIL>"))

theorem retains_redactOriginalText (environment : EnvironmentMatcher) :
    Retains (redactOriginalText .tracked environment) :=
  retains_splice (sensitiveSpans · environment)
    (fun text => (sensitiveSpans_ordered text environment).1)
    fun text s member => ((sensitiveSpans_ordered text environment).2 s member).1

theorem closed_paths (ctx : RedactionContext) : ∀ path ∈ paths ctx, Closed path.2 := by
  intro path member
  have texts : path.2 ∈ (paths ctx).map Prod.snd := List.mem_map_of_mem member
  exact (by decide : ∀ text ∈ [units "<WORKSPACE>", units "-<WORKSPACE>", units "<HOME>",
    units "<HOST>", units "<HOST>"], Closed text) path.2 texts

theorem retains_replacePath {path : CodeUnits × CodeUnits} (closed : Closed path.2) :
    Retains fun text => replacePath .tracked text path := by
  by_cases none : path.1 = []
  · simp only [replacePath, if_pos none]
    exact retains_id
  · simp only [replacePath, if_neg none]
    exact retains_replaceAll _ closed

theorem retains_foldl (paths : List (CodeUnits × CodeUnits))
    (closed : ∀ path ∈ paths, Closed path.2) :
    Retains fun text => paths.foldl (replacePath .tracked) text := by
  induction paths with
  | nil => exact retains_id
  | cons path paths ih =>
    exact (ih fun p member => closed p (List.mem_cons_of_mem path member)).comp
      (retains_replacePath (closed path List.mem_cons_self))

/-! ### Rules that remove a name -/

/-- Nothing of the original that spells `name` is left. -/
def Removes (name : CodeUnits) (f : List Cell → List Cell) : Prop :=
  ∀ part : List Cell, (∀ x ∈ part, x.origin ≠ none) → Medium.tracked.read part = name →
    ∀ text pre' post', f text ≠ pre' ++ (part ++ post')

theorem Removes.then {name : CodeUnits} {f g : List Cell → List Cell} (removes : Removes name f)
    (some : name ≠ []) (retains : Retains g) : Removes name fun text => g (f text) := by
  intro part original spells text pre' post' same
  have nonempty : part ≠ [] := by
    rintro rfl
    exact some spells.symm
  obtain ⟨pre, post, middle, _⟩ := retains part original nonempty _ pre' post' same
  exact removes part original spells text pre post middle

theorem Removes.after {name : CodeUnits} {f g : List Cell → List Cell} (removes : Removes name g) :
    Removes name fun text => g (f text) :=
  fun part original spells text pre' post' => removes part original spells (f text) pre' post'

theorem not_clear_of_match {rule : Rule} (lead : rule.lead = .empty) (trail : rule.trail = .empty)
    {replacement : CodeUnits} {text part pre post : List Cell}
    (clear : Clear text part 0 ((rule.allMatches (Medium.tracked.read text)).map fun m =>
      { start := m.start, stop := m.finish, replacement }) pre post) (m : Match)
    (found : rule.matchAt pre.length
      { before := (Medium.tracked.read pre).getLast?,
        rest := Medium.tracked.read (part ++ post) } = some m)
    (nonempty : pre.length < m.stop) : False := by
  have length := Medium.tracked.length_read pre
  rw [← length] at found nonempty
  have covers := rule.allMatches_covers (Medium.tracked.read pre)
    (Medium.tracked.read (part ++ post)) m found nonempty
  rw [← Medium.read_append, ← clear.whole, length] at covers
  obtain ⟨n, member, begins, ends⟩ := covers
  have whole := rule.allMatches_whole lead trail _ n member
  have outside := clear.clear _ (List.mem_map_of_mem member)
  simp only [whole.1, whole.2] at outside
  omega

theorem escaped_matchAt (name : CodeUnits) (index : Nat) (before : Option Nat)
    (rest : CodeUnits) :
    (escaped name).matchAt index { before, rest := name ++ rest } =
      some {
        index
        start := index
        finish := index + name.length
        stop := index + name.length } := by
  simp [Rule.matchAt, escaped, Pattern.run, Pattern.run_text, Pattern.past]

theorem removes_escaped {name replacement : CodeUnits} (some : name ≠ [])
    (closed : Closed replacement) :
    Removes name (replaceAll .tracked (escaped name) replacement) := by
  intro part original spells text pre' post' same
  have nonempty : part ≠ [] := by
    rintro rfl
    exact some spells.symm
  obtain ⟨pre, post, clear, _⟩ := splice_infix original nonempty text _ 0
    (ordered_matches (escaped name) replacement _) (fun s member => by
      obtain ⟨_, _, rfl⟩ := List.mem_map.mp member
      exact closed) pre' post' same
  have found := escaped_matchAt name pre.length (Medium.tracked.read pre).getLast?
    (Medium.tracked.read post)
  have rest : name ++ Medium.tracked.read post = Medium.tracked.read (part ++ post) := by
    rw [Medium.read_append, spells]
  rw [rest] at found
  apply not_clear_of_match rfl rfl clear _ found
  have positive := List.length_pos_iff.mpr some
  simp only
  omega

theorem removes_foldl {name : CodeUnits} (some : name ≠ [])
    (paths : List (CodeUnits × CodeUnits)) (closed : ∀ path ∈ paths, Closed path.2)
    (configured : name ∈ paths.map Prod.fst) :
    Removes name fun text => paths.foldl (replacePath .tracked) text := by
  induction paths with
  | nil => exact absurd configured List.not_mem_nil
  | cons path paths ih =>
    have rest : ∀ p ∈ paths, Closed p.2 :=
      fun p member => closed p (List.mem_cons_of_mem path member)
    rw [List.map_cons, List.mem_cons] at configured
    rcases configured with rfl | later
    · have first : Removes path.1 fun text => replacePath .tracked text path := by
        simp only [replacePath, if_neg some]
        exact removes_escaped some (closed path List.mem_cons_self)
      exact first.then some (retains_foldl paths rest)
    · exact (ih rest later).after

/-! ### The whole of the lexical rules -/

/-- The rules that do not depend on the context. -/
def fixedRules (text : List Cell) : List Cell :=
  replaceEmails .tracked
    (replaceAll .tracked IDENTIFYING_KEYS (units "<ID>")
      (replaceAll .tracked TEMP_PATH (units "<TEMP>/")
        (replaceAll .tracked HOME_PATH (units "<HOME>")
          (replaceAll .tracked FILE_URL_HOME (units "<HOME>") text))))

def userRule (ctx : RedactionContext) (text : List Cell) : List Cell :=
  match user ctx with
  | some rule => replaceAll .tracked rule (units "<USER>") text
  | none => text

theorem retains_fixedRules : Retains fixedRules :=
  retains_replaceEmails.comp ((retains_replaceAll _ (by decide)).comp
    ((retains_replaceAll _ (by decide)).comp ((retains_replaceAll _ (by decide)).comp
      (retains_replaceAll _ (by decide)))))

theorem retains_userRule (ctx : RedactionContext) : Retains (userRule ctx) := by
  cases configured : user ctx with
  | none =>
    have shape : userRule ctx = fun text => text := by
      funext text
      simp only [userRule, configured]
    rw [shape]
    exact retains_id
  | some rule =>
    have shape : userRule ctx = replaceAll .tracked rule (units "<USER>") := by
      funext text
      simp only [userRule, configured]
    rw [shape]
    exact retains_replaceAll rule (by decide)

theorem write_ne {part : List Cell} (original : ∀ x ∈ part, x.origin ≠ none) (some : part ≠ [])
    (text : CodeUnits) (pre' post' : List Cell) :
    Medium.tracked.write text ≠ pre' ++ (part ++ post') := by
  intro same
  obtain ⟨x, part, rfl⟩ := List.exists_cons_of_ne_nil some
  have member : x ∈ Medium.tracked.write text := by
    rw [same]
    simp
  obtain ⟨u, _, rfl⟩ := List.mem_map.mp member
  exact original _ List.mem_cons_self rfl

/-- All rules but the one for the user name. -/
def beforeUser (ctx : RedactionContext) (text : List Cell) : List Cell :=
  fixedRules ((paths ctx).foldl (replacePath .tracked)
    (redactOriginalText .tracked (environmentMatcher ctx) text))

theorem retains_beforeUser (ctx : RedactionContext) : Retains (beforeUser ctx) :=
  retains_fixedRules.comp ((retains_foldl _ (closed_paths ctx)).comp
    (retains_redactOriginalText _))

theorem removes_beforeUser (ctx : RedactionContext) {name : CodeUnits} (some : name ≠ [])
    (configured : name ∈ (paths ctx).map Prod.fst) : Removes name (beforeUser ctx) :=
  ((removes_foldl some (paths ctx) (closed_paths ctx) configured).after).then some
    retains_fixedRules

theorem createLexicalRedactor_eq (ctx : RedactionContext) (line : List Cell) :
    createLexicalRedactor .tracked ctx line =
      if (((sensitiveEnvironment ctx).map Prod.snd).filter (·.length < 4)).contains
          (Medium.tracked.read line) then Medium.tracked.write (units "<ENV>")
      else userRule ctx (beforeUser ctx line) := by
  cases configured : user ctx <;>
    simp only [createLexicalRedactor, userRule, beforeUser, fixedRules, configured]

theorem retains_createLexicalRedactor (ctx : RedactionContext) :
    Retains (createLexicalRedactor .tracked ctx) := by
  intro part original nonempty text pre' post' same
  rw [createLexicalRedactor_eq] at same
  split at same
  · exact absurd same (write_ne original nonempty _ _ _)
  · exact ((retains_userRule ctx).comp (retains_beforeUser ctx)) part original nonempty text
      pre' post' same

theorem removes_path (ctx : RedactionContext) {name : CodeUnits} (some : name ≠ [])
    (configured : name ∈ (paths ctx).map Prod.fst) :
    Removes name (createLexicalRedactor .tracked ctx) := by
  intro part original spells text pre' post' same
  have nonempty : part ≠ [] := by
    rintro rfl
    exact some spells.symm
  have removes : Removes name fun text => userRule ctx (beforeUser ctx text) :=
    (removes_beforeUser ctx some configured).then some (retains_userRule ctx)
  rw [createLexicalRedactor_eq] at same
  split at same
  · exact write_ne original nonempty _ _ _ same
  · exact removes part original spells text pre' post' same

/-! ### The user name -/

theorem any_eq_false_of_edge {neighbour : Option Nat} (edge : Edge neighbour) :
    neighbour.any isWordUnit = false := by
  cases neighbour with
  | none => rfl
  | some u => exact edge u rfl

theorem edge_read_getLast (pre : List Cell) :
    (Medium.tracked.read pre).getLast? = pre.getLast?.map Cell.unit := List.getLast?_map

theorem edge_read_head (post : List Cell) :
    (Medium.tracked.read post).head? = post.head?.map Cell.unit := List.head?_map

/-- A name that begins and ends with a word character. -/
def Wordly (name : CodeUnits) : Prop :=
  name.head?.any isWordUnit = true ∧ name.getLast?.any isWordUnit = true

theorem wholeWord_matchAt {name : CodeUnits} (wordly : Wordly name) (index : Nat)
    {before : Option Nat} {rest : CodeUnits} (front : Edge before) (back : Edge rest.head?) :
    (wholeWord name).matchAt index { before, rest := name ++ rest } =
      some {
        index
        start := index
        finish := index + name.length
        stop := index + name.length } := by
  have some : name ≠ [] := by
    rintro rfl
    exact Bool.false_ne_true wordly.1
  have head : (name ++ rest).head? = name.head? := List.head?_append_of_ne_nil _ some
  have last : name.getLast?.or before = name.getLast? := by
    obtain ⟨u, us, rfl⟩ := List.exists_cons_of_ne_nil some
    rw [List.getLast?_cons]
    rfl
  have begins : ({ before, rest := name ++ rest } : Cursor).atBoundary = true := by
    rw [Cursor.atBoundary, any_eq_false_of_edge front, head, wordly.1]
    rfl
  have ends : ({ before := name.getLast?, rest } : Cursor).atBoundary = true := by
    rw [Cursor.atBoundary, any_eq_false_of_edge back, wordly.2]
    rfl
  simp [Rule.matchAt, wholeWord, Pattern.sequence, Pattern.run, Pattern.run_text, Pattern.past,
    begins, last, ends]

theorem user_not_apart (ctx : RedactionContext) {name : CodeUnits}
    (configured : ctx.username = some name) (long : 3 ≤ name.length) (wordly : Wordly name)
    {part : List Cell} (original : ∀ x ∈ part, x.origin ≠ none)
    (spells : Medium.tracked.read part = name) (text pre' post' : List Cell)
    (same : createLexicalRedactor .tracked ctx text = pre' ++ (part ++ post')) :
    ∃ pre post, text = pre ++ (part ++ post) ∧ ¬ Apart pre post := by
  have nonempty : part ≠ [] := by
    rintro rfl
    rw [← spells] at long
    exact absurd long (by decide)
  have rule : user ctx = some (wholeWord name) := by
    rw [user, configured, Option.getD_some, if_pos long]
  rw [createLexicalRedactor_eq] at same
  split at same
  · exact absurd same (write_ne original nonempty _ _ _)
  · simp only [userRule, rule] at same
    obtain ⟨pre, post, clear, _⟩ := splice_infix original nonempty _ _ 0
      (ordered_matches (wholeWord name) _ _) (fun s member => by
        obtain ⟨_, _, rfl⟩ := List.mem_map.mp member
        exact (by decide : Closed (units "<USER>"))) pre' post' same
    obtain ⟨pre₀, post₀, whole, apart⟩ :=
      retains_beforeUser ctx part original nonempty text pre post clear.whole
    refine ⟨pre₀, post₀, whole, fun beside => ?_⟩
    have stillApart := apart beside
    have found := wholeWord_matchAt wordly pre.length
      (by rw [edge_read_getLast]; exact stillApart.front :
        Edge (Medium.tracked.read pre).getLast?)
      (by rw [edge_read_head]; exact stillApart.back : Edge (Medium.tracked.read post).head?)
    have rest : name ++ Medium.tracked.read post = Medium.tracked.read (part ++ post) := by
      rw [Medium.read_append, spells]
    rw [rest] at found
    apply not_clear_of_match rfl rfl clear _ found
    simp only
    omega

end Ace.Redaction
