import Ace.Script.UnitJson

/-!
# Spellings of a string in JSON text

A string can be spelled in many ways between its quotes. What `JSON.stringify` writes is one
spelling, and reading any spelling gives the string back. What it writes has no control characters
and no lone surrogates, so that writing it once more only adds backslashes.
-/

namespace Script.UnitJson

/-- Parts of a spelling: a unit that stands for itself, a short escape, and one by its number. -/
inductive Spelled : CodeUnits → CodeUnits → Prop where
  | nil : Spelled [] []
  | plain {u : Nat} {text spelling : CodeUnits} (notQuote : u ≠ '"'.toNat)
      (notSlash : u ≠ '\\'.toNat) (printable : 0x20 ≤ u) (rest : Spelled text spelling) :
      Spelled (u :: text) (u :: spelling)
  | short {u e : Nat} {text spelling : CodeUnits}
      (reads : ∀ rest, readEscape (e :: rest) = some (u, rest))
      (quote : u = '"'.toNat ↔ e = '"'.toNat) (rest : Spelled text spelling) :
      Spelled (u :: text) ('\\'.toNat :: e :: spelling)
  | long {u : Nat} {digits text spelling : CodeUnits}
      (reads : ∀ rest, readEscape ('u'.toNat :: digits ++ rest) = some (u, rest))
      (plain : ∀ d ∈ digits, d ≠ '"'.toNat ∧ d ≠ '\\'.toNat) (notQuote : u ≠ '"'.toNat)
      (rest : Spelled text spelling) :
      Spelled (u :: text) ('\\'.toNat :: 'u'.toNat :: digits ++ spelling)

variable {text text' spelling spelling' : CodeUnits}

theorem Spelled.append (first : Spelled text spelling) (second : Spelled text' spelling') :
    Spelled (text ++ text') (spelling ++ spelling') := by
  induction first with
  | nil => exact second
  | plain notQuote notSlash printable _ ih => exact .plain notQuote notSlash printable ih
  | short reads quote _ ih => exact .short reads quote ih
  | long reads plain notQuote _ ih =>
    have long := Spelled.long reads plain notQuote ih
    simpa using long

/-! ### What is written -/

theorem hexValue_hexDigit : ∀ n < 16, hexValue (hexDigit n) = some n := by decide

theorem hexDigit_plain : ∀ n < 16, hexDigit n ≠ '"'.toNat ∧ hexDigit n ≠ '\\'.toNat := by decide

theorem spelled_unicodeEscape {u : Nat} (unit : u < 0x10000) (notQuote : u ≠ '"'.toNat) :
    Spelled [u] (unicodeEscape u) := by
  have digit : ∀ n, n % 16 < 16 := fun n => Nat.mod_lt n (by decide)
  have long := @Spelled.long u [hexDigit (u / 4096 % 16), hexDigit (u / 256 % 16),
    hexDigit (u / 16 % 16), hexDigit (u % 16)] [] [] (fun rest => by
      have value : ((u / 4096 % 16 * 16 + u / 256 % 16) * 16 + u / 16 % 16) * 16 + u % 16 = u := by
        omega
      simp [readEscape, hexValue_hexDigit _ (digit _), value]) (by
      intro d member
      simp only [List.mem_cons, List.not_mem_nil, or_false] at member
      rcases member with rfl | rfl | rfl | rfl <;> exact hexDigit_plain _ (digit _)) notQuote .nil
  exact long

theorem spelled_escapeUnit {u : Nat} (unit : u < 0x10000) : Spelled [u] (escapeUnit u) := by
  rw [escapeUnit]
  split
  next quote => exact quote ▸ .short (fun _ => rfl) (by decide) .nil
  next notQuote =>
    split
    next slash => exact slash ▸ .short (fun _ => rfl) (by decide) .nil
    next notSlash =>
      split
      next control => exact control ▸ .short (fun _ => rfl) (by decide) .nil
      · split
        next control => exact control ▸ .short (fun _ => rfl) (by decide) .nil
        · split
          next control => exact control ▸ .short (fun _ => rfl) (by decide) .nil
          · split
            next control => exact control ▸ .short (fun _ => rfl) (by decide) .nil
            · split
              next control => exact control ▸ .short (fun _ => rfl) (by decide) .nil
              · split
                next => exact spelled_unicodeEscape unit notQuote
                next printable =>
                  exact .plain notQuote notSlash (Nat.le_of_not_lt printable) .nil

theorem not_surrogate_quote {u : Nat} (surrogate : (isHighSurrogate u || isLowSurrogate u) = true) :
    u ≠ '"'.toNat ∧ u ≠ '\\'.toNat ∧ 0x20 ≤ u := by
  simp only [isHighSurrogate, isLowSurrogate, Bool.or_eq_true, Bool.and_eq_true,
    decide_eq_true_eq] at surrogate
  have quote : '"'.toNat = 34 := rfl
  have slash : '\\'.toNat = 92 := rfl
  omega

theorem spelled_escapeText (units : ∀ u ∈ text, u < 0x10000) : Spelled text (escapeText text) := by
  induction text using escapeText.induct with
  | case1 => exact .nil
  | case2 u surrogate =>
    rw [escapeText, if_pos surrogate]
    exact spelled_unicodeEscape (units u (by simp)) (not_surrogate_quote surrogate).1
  | case3 u ordinary =>
    rw [escapeText, if_neg ordinary]
    exact spelled_escapeUnit (units u (by simp))
  | case4 u v rest high low ih =>
    -- The halves of a pair stand for themselves.
    have first := not_surrogate_quote (by rw [high, Bool.true_or] : _ = true)
    have second := not_surrogate_quote (by rw [low, Bool.or_true] : _ = true)
    rw [escapeText, if_pos high, if_pos low]
    exact .plain first.1 first.2.1 first.2.2 (.plain second.1 second.2.1 second.2.2
      (ih fun x member => units x (by simp [member])))
  | case5 u v rest high lone ih =>
    rw [escapeText, if_pos high, if_neg lone]
    have first := not_surrogate_quote (by rw [high, Bool.true_or] : _ = true)
    exact (spelled_unicodeEscape (units u (by simp)) first.1).append
      (ih fun x member => units x (List.mem_cons_of_mem u member))
  | case6 u v rest notHigh low ih =>
    rw [escapeText, if_neg notHigh, if_pos low]
    have first := not_surrogate_quote (by rw [low, Bool.or_true] : _ = true)
    exact (spelled_unicodeEscape (units u (by simp)) first.1).append
      (ih fun x member => units x (List.mem_cons_of_mem u member))
  | case7 u v rest notHigh notLow ih =>
    rw [escapeText, if_neg notHigh, if_neg notLow]
    exact (spelled_escapeUnit (units u (by simp))).append
      (ih fun x member => units x (List.mem_cons_of_mem u member))

/-! ### Reading it back -/

theorem readString_spelled (spelled : Spelled text spelling) : ∀ {fuel : Nat} {read rest : CodeUnits},
    spelling.length < fuel →
    readString fuel read (spelling ++ '"'.toNat :: rest) = some (read.reverse ++ text, rest) := by
  induction spelled with
  | nil =>
    intro fuel read rest enough
    obtain ⟨fuel, rfl⟩ : ∃ n, fuel = n + 1 := ⟨fuel - 1, by simp at enough; omega⟩
    simp [readString]
  | plain notQuote notSlash printable _ ih =>
    intro fuel read rest enough
    obtain ⟨fuel, rfl⟩ : ∃ n, fuel = n + 1 := ⟨fuel - 1, by omega⟩
    rw [List.cons_append, readString, if_neg notQuote, if_neg notSlash,
      if_neg (Nat.not_lt.mpr printable), ih (by simpa using enough)]
    simp
  | @short u e text spelling reads _ _ ih =>
    intro fuel read rest enough
    obtain ⟨fuel, rfl⟩ : ∃ n, fuel = n + 1 := ⟨fuel - 1, by omega⟩
    simp only [List.length_cons] at enough
    rw [List.cons_append, readString, if_neg (by decide), if_pos rfl, List.cons_append, reads]
    simp only
    rw [ih (by omega)]
    simp
  | @long u digits text spelling reads _ _ _ ih =>
    intro fuel read rest enough
    obtain ⟨fuel, rfl⟩ : ∃ n, fuel = n + 1 := ⟨fuel - 1, by omega⟩
    simp only [List.cons_append, List.length_cons, List.length_append] at enough
    have escape := reads (spelling ++ '"'.toNat :: rest)
    rw [List.cons_append] at escape
    rw [List.cons_append, List.cons_append, List.cons_append, readString, if_neg (by decide),
      if_pos rfl, List.cons_append, List.append_assoc, escape]
    simp only
    rw [ih (by omega)]
    simp

theorem skipSpace_cons {u : Nat} {rest : CodeUnits} (dark : isSpace u = false) :
    skipSpace (u :: rest) = u :: rest := by
  rw [skipSpace, List.dropWhile_cons_of_neg (by simp [dark])]

theorem parse_spelled (spelled : Spelled text spelling) :
    parse ('"'.toNat :: spelling ++ ['"'.toNat]) = some (.str text) := by
  have read : readValue (2 * (spelling.length + 2) + 1) ('"'.toNat :: (spelling ++ ['"'.toNat])) =
      some (.str text, []) := by
    rw [readValue, skipSpace_cons (by decide)]
    simp only
    have enough : spelling.length < (spelling ++ ['"'.toNat]).length + 1 := by
      rw [List.length_append]
      omega
    rw [if_neg (by decide), if_neg (by decide), if_pos trivial, readString_spelled spelled enough]
    simp
  rw [parse, List.cons_append]
  simp only [List.length_cons, List.length_append, List.length_nil]
  rw [show 2 * (spelling.length + (0 + 1) + 1) + 1 = 2 * (spelling.length + 2) + 1 by omega, read]
  simp [skipSpace]

/-! ### A text written as a string -/

/-- What is written of a text without control characters and lone surrogates. -/
def respell (text : CodeUnits) : CodeUnits :=
  text.flatMap fun u => if u = '"'.toNat ∨ u = '\\'.toNat then ['\\'.toNat, u] else [u]

theorem respell_cons (u : Nat) (rest : CodeUnits) :
    respell (u :: rest) =
      (if u = '"'.toNat ∨ u = '\\'.toNat then ['\\'.toNat, u] else [u]) ++ respell rest := rfl

theorem respell_append (front back : CodeUnits) : respell (front ++ back) = respell front ++ respell back :=
  List.flatMap_append

theorem respell_of_plain {u : Nat} (notQuote : u ≠ '"'.toNat) (notSlash : u ≠ '\\'.toNat)
    (rest : CodeUnits) : respell (u :: rest) = u :: respell rest := by
  rw [respell_cons, if_neg (by simp only [not_or]; exact ⟨notQuote, notSlash⟩)]
  rfl

theorem spelled_respell (printable : ∀ u ∈ text, 0x20 ≤ u) : Spelled text (respell text) := by
  induction text with
  | nil => exact .nil
  | cons u rest ih =>
    have rest' := ih fun v member => printable v (List.mem_cons_of_mem u member)
    rw [respell_cons]
    split
    next special =>
      refine Spelled.short (fun rest => ?_) Iff.rfl rest'
      rcases special with rfl | rfl <;> rfl
    next plain =>
      rw [not_or] at plain
      exact .plain plain.1 plain.2 (printable u List.mem_cons_self) rest'

/-- Without control characters and lone surrogates. -/
inductive Clean : CodeUnits → Prop where
  | nil : Clean []
  | unit {u : Nat} {rest : CodeUnits} (printable : 0x20 ≤ u) (high : isHighSurrogate u = false)
      (low : isLowSurrogate u = false) (after : Clean rest) : Clean (u :: rest)
  | pair {u v : Nat} {rest : CodeUnits} (high : isHighSurrogate u) (low : isLowSurrogate v)
      (after : Clean rest) : Clean (u :: v :: rest)

theorem Clean.append (first : Clean text) (second : Clean text') : Clean (text ++ text') := by
  induction first with
  | nil => exact second
  | unit printable high low _ ih => exact .unit printable high low ih
  | pair high low _ ih => exact .pair high low ih

theorem Clean.printable (clean : Clean text) : ∀ u ∈ text, 0x20 ≤ u := by
  have surrogate : ∀ u, (isHighSurrogate u || isLowSurrogate u) = true → 0x20 ≤ u :=
    fun u half => (not_surrogate_quote half).2.2
  induction clean with
  | nil => simp
  | unit printable _ _ _ ih => exact List.forall_mem_cons.mpr ⟨printable, ih⟩
  | pair high low _ ih =>
    exact List.forall_mem_cons.mpr ⟨surrogate _ (by rw [high]; rfl),
      List.forall_mem_cons.mpr ⟨surrogate _ (by rw [low, Bool.or_true]), ih⟩⟩

theorem Clean.front {u : Nat} {back : CodeUnits} (clean : Clean text) (lone : isLowSurrogate u = false) :
    ∀ {front : CodeUnits}, text = front ++ u :: back → Clean front := by
  induction clean with
  | nil =>
    intro front same
    simp at same
  | unit printable high low _ ih =>
    intro front same
    cases front with
    | nil => exact .nil
    | cons v front =>
      obtain ⟨first, rest⟩ := List.cons.inj same
      exact first ▸ .unit printable high low (ih rest)
  | pair high low _ ih =>
    intro front same
    cases front with
    | nil => exact .nil
    | cons v front =>
      obtain ⟨first, same⟩ := List.cons.inj same
      cases front with
      | nil =>
        rw [(List.cons.inj same).1, lone] at low
        cases low
      | cons w front =>
        obtain ⟨second, rest⟩ := List.cons.inj same
        exact first ▸ second ▸ .pair high low (ih rest)

theorem clean_of_all (all : text.all (fun u => decide (0x20 ≤ u) && decide (u < 0x80))) :
    Clean text := by
  induction text with
  | nil => exact .nil
  | cons u rest ih =>
    simp only [List.all_cons, Bool.and_eq_true, decide_eq_true_eq] at all
    refine .unit all.1.1 ?_ ?_ (ih all.2)
    · simp only [isHighSurrogate, Bool.and_eq_false_iff, decide_eq_false_iff_not]
      omega
    · simp only [isLowSurrogate, Bool.and_eq_false_iff, decide_eq_false_iff_not]
      omega

theorem clean_unicodeEscape (u : Nat) : Clean (unicodeEscape u) := by
  have digit : ∀ n < 16, 0x20 ≤ hexDigit n ∧ hexDigit n < 0x80 := by decide
  apply clean_of_all
  have bound : ∀ n, n % 16 < 16 := fun n => Nat.mod_lt n (by decide)
  have start : (units "\\u").all (fun u => decide (0x20 ≤ u) && decide (u < 0x80)) := by decide
  simp only [unicodeEscape, List.all_append, start, List.all_cons, List.all_nil, Bool.and_true,
    Bool.true_and, Bool.and_eq_true, decide_eq_true_eq]
  exact ⟨digit _ (bound _), digit _ (bound _), digit _ (bound _), digit _ (bound _)⟩

theorem clean_escapeUnit {u : Nat} (high : isHighSurrogate u = false)
    (low : isLowSurrogate u = false) : Clean (escapeUnit u) := by
  rw [escapeUnit]
  repeat' split
  · exact clean_of_all (by decide)
  · exact clean_of_all (by decide)
  · exact clean_of_all (by decide)
  · exact clean_of_all (by decide)
  · exact clean_of_all (by decide)
  · exact clean_of_all (by decide)
  · exact clean_of_all (by decide)
  · exact clean_unicodeEscape u
  next printable => exact .unit (Nat.le_of_not_lt printable) high low .nil

theorem clean_escapeText (text : CodeUnits) : Clean (escapeText text) := by
  induction text using escapeText.induct with
  | case1 => exact .nil
  | case2 u surrogate =>
    rw [escapeText, if_pos surrogate]
    exact clean_unicodeEscape u
  | case3 u ordinary =>
    rw [escapeText, if_neg ordinary]
    simp only [Bool.or_eq_true, not_or, Bool.not_eq_true] at ordinary
    exact clean_escapeUnit ordinary.1 ordinary.2
  | case4 u v rest high low ih =>
    rw [escapeText, if_pos high, if_pos low]
    exact .pair high low ih
  | case5 u v rest high lone ih =>
    rw [escapeText, if_pos high, if_neg lone]
    exact (clean_unicodeEscape u).append ih
  | case6 u v rest notHigh low ih =>
    rw [escapeText, if_neg notHigh, if_pos low]
    exact (clean_unicodeEscape u).append ih
  | case7 u v rest notHigh notLow ih =>
    rw [escapeText, if_neg notHigh, if_neg notLow]
    exact (clean_escapeUnit (by simpa using notHigh) (by simpa using notLow)).append ih

theorem escapeText_clean (clean : Clean text) : escapeText text = respell text := by
  induction clean with
  | nil => rfl
  | @unit u rest printable high low after ih =>
    have one : escapeUnit u = if u = '"'.toNat ∨ u = '\\'.toNat then ['\\'.toNat, u] else [u] := by
      have controls : u ≠ 8 ∧ u ≠ 9 ∧ u ≠ 10 ∧ u ≠ 12 ∧ u ≠ 13 ∧ ¬u < 0x20 := by omega
      simp only [escapeUnit, controls, if_false]
      by_cases quote : u = '"'.toNat
      · rw [if_pos quote, if_pos (.inl quote), quote]
        rfl
      · rw [if_neg quote]
        by_cases slash : u = '\\'.toNat
        · rw [if_pos slash, if_pos (.inr slash), slash]
          rfl
        · rw [if_neg slash, if_neg (by simp only [not_or]; exact ⟨quote, slash⟩)]
    cases rest with
    | nil => 
      rw [escapeText, if_neg (by simp [high, low]), one]
      simp [respell]
    | cons v rest =>
      rw [escapeText, if_neg (by simp [high]), if_neg (by simp [low]), ih, one, respell_cons u]
  | @pair u v rest high low after ih =>
    have first := not_surrogate_quote (by rw [high, Bool.true_or] : _ = true)
    have second := not_surrogate_quote (by rw [low, Bool.or_true] : _ = true)
    rw [escapeText, if_pos high, if_pos low, ih, respell_of_plain first.1 first.2.1,
      respell_of_plain second.1 second.2.1]

end Script.UnitJson
