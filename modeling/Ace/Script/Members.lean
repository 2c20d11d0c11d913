import Ace.Script.Spelling
import Mathlib.Data.List.TakeWhile

/-!
# Where the members of a JSON value are written

Every member of an object of a value has its place in the text that `JSON.stringify` writes of the
value: what is written before its key, and what is written after its value. The text before ends
where a key can begin, and the text after begins where a value can end.

## Main result

`membersIn_placed`: every member stands at its place in the whole text.
-/

namespace Script.UnitJson

/-! ### Numbers -/

/-- The text of a finite number. -/
def Numeral (token : CodeUnits) : Prop :=
  readNumber token = some (token, []) ∧ (double token).isSome

/-- The text that is written of a number is one of the same number. -/
def Prints (print : CodeUnits → CodeUnits) : Prop :=
  ∀ token, Numeral token → Numeral (print token) ∧ double (print token) = double token

/-- The units of numbers. -/
def isNumeric (u : Nat) : Bool := isDigit u || Script.oneOf "+-.eE" u

theorem readDigits_numeric (text : CodeUnits) :
    ∀ u ∈ (readDigits text).1, isNumeric u = true := by
  intro u member
  rw [readDigits, List.span_eq_takeWhile_dropWhile] at member
  rw [isNumeric, List.mem_takeWhile_imp member]
  rfl

theorem readFraction_numeric {text read rest : CodeUnits}
    (found : readFraction text = some (read, rest)) : ∀ u ∈ read, isNumeric u = true := by
  cases text with
  | nil =>
    rw [readFraction, Option.some.injEq, Prod.mk.injEq] at found
    simp [← found.1]
  | cons v text =>
    simp only [readFraction] at found
    split at found
    next point =>
      split at found
      · cases found
      · rw [Option.some.injEq, Prod.mk.injEq] at found
        intro u member
        rw [← found.1] at member
        rcases List.mem_cons.mp member with rfl | digit
        · rw [point]
          decide
        · exact readDigits_numeric _ u digit
    next =>
      rw [Option.some.injEq, Prod.mk.injEq] at found
      simp [← found.1]

theorem sign_numeric {signs : Prop} [Decidable signs] {u : Nat} {rest : CodeUnits}
    (numeric : signs → isNumeric u = true) :
    ∀ v ∈ (if signs then ([u], rest) else (([], u :: rest) : CodeUnits × CodeUnits)).1,
      isNumeric v = true := by
  intro v member
  split at member
  next signed => exact List.mem_singleton.mp member ▸ numeric signed
  next => cases member

theorem readExponent_numeric {text read rest : CodeUnits}
    (found : readExponent text = some (read, rest)) : ∀ u ∈ read, isNumeric u = true := by
  cases text with
  | nil =>
    rw [readExponent, Option.some.injEq, Prod.mk.injEq] at found
    simp [← found.1]
  | cons v text =>
    simp only [readExponent] at found
    split at found
    next mark =>
      have first : isNumeric v = true := by
        rcases mark with rfl | rfl <;> decide
      have parts : ∃ front : CodeUnits × CodeUnits, (∀ u ∈ front.1, isNumeric u = true) ∧
          (if (readDigits front.2).1.isEmpty then none
            else some (v :: (front.1 ++ (readDigits front.2).1), (readDigits front.2).2)) =
              some (read, rest) := by
        cases text with
        | nil => exact ⟨([], []), by simp, found⟩
        | cons s text =>
          refine ⟨_, sign_numeric fun signed => ?_, found⟩
          rcases signed with rfl | rfl <;> decide
      obtain ⟨front, signs, found⟩ := parts
      split at found
      · cases found
      · obtain ⟨isRead, -⟩ := Prod.mk.inj (Option.some.inj found)
        intro u member
        rw [← isRead] at member
        rcases List.mem_cons.mp member with rfl | later
        · exact first
        · rcases List.mem_append.mp later with sign | digit
          · exact signs u sign
          · exact readDigits_numeric _ u digit
    next =>
      rw [Option.some.injEq, Prod.mk.injEq] at found
      simp [← found.1]

theorem readNumber_numeric {text read rest : CodeUnits}
    (found : readNumber text = some (read, rest)) : read ≠ [] ∧ ∀ u ∈ read, isNumeric u = true := by
  have parts : ∃ front : CodeUnits × CodeUnits, (∀ u ∈ front.1, isNumeric u = true) ∧
      (if (readDigits front.2).1.isEmpty ∨
          ((readDigits front.2).1.head? = some '0'.toNat ∧ (readDigits front.2).1.length ≠ 1) then none
        else (readFraction (readDigits front.2).2).bind fun fraction =>
          (readExponent fraction.2).bind fun exponent =>
            some (front.1 ++ (readDigits front.2).1 ++ fraction.1 ++ exponent.1, exponent.2)) =
        some (read, rest) := by
    cases text with
    | nil => exact ⟨([], []), by simp, found⟩
    | cons u text =>
      refine ⟨_, sign_numeric fun signed => ?_, found⟩
      rw [signed]
      decide
  obtain ⟨front, signs, found⟩ := parts
  split at found
  · cases found
  next some_ =>
    obtain ⟨⟨fraction, back⟩, isFraction, found⟩ := Option.bind_eq_some_iff.mp found
    obtain ⟨⟨exponent, back'⟩, isExponent, found⟩ := Option.bind_eq_some_iff.mp found
    obtain ⟨isRead, -⟩ := Prod.mk.inj (Option.some.inj found)
    rw [← isRead]
    constructor
    · intro empty
      simp only [List.append_eq_nil_iff] at empty
      exact some_ (.inl (by rw [empty.1.1.2]; rfl))
    · intro u member
      simp only [List.mem_append] at member
      rcases member with ((sign | digit) | part) | power
      · exact signs u sign
      · exact readDigits_numeric _ u digit
      · exact readFraction_numeric isFraction u part
      · exact readExponent_numeric isExponent u power

theorem isNumeric_plain {u : Nat} (numeric : isNumeric u = true) :
    0x20 < u ∧ u < 0x80 ∧ u ∉ units "\"\\\x7b[tfn,;\x7d]" := by
  have small : ∀ u < 0x80, isNumeric u = true → 0x20 < u ∧ u ∉ units "\"\\\x7b[tfn,;\x7d]" := by
    decide
  have bound : u < 0x80 := by
    rw [isNumeric, Bool.or_eq_true] at numeric
    rcases numeric with digit | other
    · simp only [isDigit, between, Bool.and_eq_true, decide_eq_true_eq] at digit
      have nine : '9'.toNat = 57 := rfl
      omega
    · have members : ∀ v ∈ units "+-.eE", v < 0x80 := by decide
      exact members u (by simpa [Script.oneOf] using other)
  exact ⟨(small u bound numeric).1, bound, (small u bound numeric).2⟩

theorem parse_numeral {token : CodeUnits} (numeral : readNumber token = some (token, [])) :
    parse token = some (.num token) := by
  obtain ⟨nonempty, numeric⟩ := readNumber_numeric numeral
  cases token with
  | nil => exact absurd rfl nonempty
  | cons u rest =>
    have plain := isNumeric_plain (numeric u List.mem_cons_self)
    have other : ∀ v ∈ units "\"\\\x7b[tfn,;\x7d]", ¬u = v :=
      fun v member same => plain.2.2 (same ▸ member)
    have dark : isSpace u = false := by
      simp only [isSpace, Bool.or_eq_false_iff, beq_eq_false_iff_ne]
      omega
    have read : readValue (2 * (u :: rest).length + 1) (u :: rest) = some (.num (u :: rest), []) := by
      rw [readValue, skipSpace_cons dark]
      simp only
      rw [if_neg (other _ (by decide)), if_neg (other _ (by decide)), if_neg (other _ (by decide)),
        if_neg (other _ (by decide)), if_neg (other _ (by decide)), if_neg (other _ (by decide)),
        numeral]
      rfl
    rw [parse, read]
    rfl

/-! ### Values -/

mutual
/-- What `JSON.stringify` is given: texts of code units and finite numbers. -/
def IsJson : UnitJson → Prop
  | null => True
  | bool _ => True
  | num token => Numeral token
  | str text => ∀ u ∈ text, u < 0x10000
  | arr elements => AreJson elements
  | obj members => MembersAreJson members

def AreJson : List UnitJson → Prop
  | [] => True
  | v :: vs => IsJson v ∧ AreJson vs

def MembersAreJson : List (CodeUnits × UnitJson) → Prop
  | [] => True
  | (k, v) :: ms => (∀ u ∈ k, u < 0x10000) ∧ IsJson v ∧ MembersAreJson ms
end

/-- A member of an object in a value, with what is written before and after it. -/
structure Member where
  before : CodeUnits
  key : CodeUnits
  value : UnitJson
  after : CodeUnits

variable (print : CodeUnits → CodeUnits)

mutual
/-- The members in a value that is written between two texts. -/
def membersIn (before : CodeUnits) : UnitJson → CodeUnits → List Member
  | arr elements, after => elementMembers (before ++ units "[") elements (units "]" ++ after)
  | obj members, after => objectMembers (before ++ units "\x7b") members (units "\x7d" ++ after)
  | _, _ => []

def elementMembers (before : CodeUnits) : List UnitJson → CodeUnits → List Member
  | [], _ => []
  | [v], after => membersIn before v after
  | v :: w :: vs, after =>
    membersIn before v (units "," ++ stringifyElements print (w :: vs) ++ after) ++
      elementMembers (before ++ stringify print v ++ units ",") (w :: vs) after

def objectMembers (before : CodeUnits) : List (CodeUnits × UnitJson) → CodeUnits → List Member
  | [], _ => []
  | [(k, v)], after =>
    { before, key := k, value := v, after } :: membersIn (before ++ quote k ++ units ":") v after
  | (k, v) :: m :: ms, after =>
    { before, key := k, value := v, after := units "," ++ stringifyMembers print (m :: ms) ++ after } ::
      membersIn (before ++ quote k ++ units ":") v
        (units "," ++ stringifyMembers print (m :: ms) ++ after) ++
      objectMembers (before ++ quote k ++ units ":" ++ stringify print v ++ units ",") (m :: ms) after
end

/-- The members in a whole text. -/
def members (v : UnitJson) : List Member := membersIn print [] v []

/-- A member stands at its place in a text. -/
structure Placed (whole : CodeUnits) (m : Member) : Prop where
  text : m.before ++ quote m.key ++ units ":" ++ stringify print m.value ++ m.after = whole
  opens : m.before.getLast? = some '\x7b'.toNat ∨ m.before.getLast? = some ','.toNat
  closes : m.after.head? = some ','.toNat ∨ m.after.head? = some '\x7d'.toNat
  key : ∀ u ∈ m.key, u < 0x10000
  value : IsJson m.value

variable {print} {whole : CodeUnits}

theorem getLast?_snoc {front : CodeUnits} {last : String} {u : Nat} (one : units last = [u]) :
    (front ++ units last).getLast? = some u := by
  rw [one, List.getLast?_append]
  rfl

mutual
theorem membersIn_placed : ∀ (v : UnitJson) {before after : CodeUnits}, IsJson v →
    before ++ stringify print v ++ after = whole →
    ∀ m ∈ membersIn print before v after, Placed print whole m
  | null, _, _, _, _, m, member | bool _, _, _, _, _, m, member | num _, _, _, _, _, m, member
  | str _, _, _, _, _, m, member => by
    rw [membersIn] at member
    · cases member
    all_goals
      intros
      simp_all
  | arr elements, before, after, json, text, m, member => by
    rw [membersIn] at member
    rw [IsJson] at json
    refine elementMembers_placed elements json ?_ m member
    rw [← text, stringify]
    simp only [List.append_assoc]
  | obj members, before, after, json, text, m, member => by
    rw [membersIn] at member
    rw [IsJson] at json
    refine objectMembers_placed members json (.inl (getLast?_snoc rfl)) (.inr rfl) ?_ m member
    rw [← text, stringify]
    simp only [List.append_assoc]

theorem elementMembers_placed : ∀ (vs : List UnitJson) {before after : CodeUnits}, AreJson vs →
    before ++ stringifyElements print vs ++ after = whole →
    ∀ m ∈ elementMembers print before vs after, Placed print whole m
  | [], _, _, _, _, m, member => by
    rw [elementMembers] at member
    cases member
  | [v], before, after, json, text, m, member => by
    rw [elementMembers] at member
    rw [stringifyElements] at text
    rw [AreJson] at json
    exact membersIn_placed v json.1 text m member
  | v :: w :: vs, before, after, json, text, m, member => by
    rw [elementMembers] at member
    rw [stringifyElements] at text
    rw [AreJson] at json
    rcases List.mem_append.mp member with first | later
    · refine membersIn_placed v json.1 ?_ m first
      rw [← text]
      simp only [List.append_assoc]
    · refine elementMembers_placed (w :: vs) json.2 ?_ m later
      rw [← text]
      simp only [List.append_assoc]

theorem objectMembers_placed : ∀ (ms : List (CodeUnits × UnitJson)) {before after : CodeUnits},
    MembersAreJson ms →
    before.getLast? = some '\x7b'.toNat ∨ before.getLast? = some ','.toNat →
    after.head? = some ','.toNat ∨ after.head? = some '\x7d'.toNat →
    before ++ stringifyMembers print ms ++ after = whole →
    ∀ m ∈ objectMembers print before ms after, Placed print whole m
  | [], _, _, _, _, _, _, m, member => by
    rw [objectMembers] at member
    cases member
  | [(k, v)], before, after, json, opens, closes, text, m, member => by
    rw [objectMembers] at member
    rw [stringifyMembers] at text
    rw [MembersAreJson] at json
    rcases List.mem_cons.mp member with rfl | inside
    · refine ⟨?_, opens, closes, json.1, json.2.1⟩
      rw [← text]
      simp only [List.append_assoc]
    · refine membersIn_placed v json.2.1 ?_ m inside
      rw [← text]
      simp only [List.append_assoc]
  | (k, v) :: n :: ms, before, after, json, opens, closes, text, m, member => by
    rw [objectMembers] at member
    rw [stringifyMembers] at text
    rw [MembersAreJson] at json
    rw [List.cons_append] at member
    rcases List.mem_cons.mp member with rfl | inside
    · refine ⟨?_, opens, .inl rfl, json.1, json.2.1⟩
      rw [← text]
      simp only [List.append_assoc]
    · rcases List.mem_append.mp inside with first | later
      · refine membersIn_placed v json.2.1 ?_ m first
        rw [← text]
        simp only [List.append_assoc]
      · refine objectMembers_placed (n :: ms) json.2.2 (.inr (getLast?_snoc rfl)) closes ?_ m later
        rw [← text]
        simp only [List.append_assoc]
end

/-! ### Clean texts -/

theorem clean_quote (text : CodeUnits) : Clean (quote text) :=
  ((clean_of_all (by decide)).append (clean_escapeText text)).append (clean_of_all (by decide))

theorem clean_numeric {token : CodeUnits} (numeric : ∀ u ∈ token, isNumeric u = true) :
    Clean token := by
  apply clean_of_all
  rw [List.all_eq_true]
  intro u member
  have plain := isNumeric_plain (numeric u member)
  simp only [Bool.and_eq_true, decide_eq_true_eq]
  omega

mutual
theorem clean_stringify (prints : Prints print) : ∀ v : UnitJson, IsJson v → Clean (stringify print v)
  | null, _ => by
    rw [stringify]
    exact clean_of_all (by decide)
  | bool true, _ => by
    rw [stringify]
    exact clean_of_all (by decide)
  | bool false, _ => by
    rw [stringify]
    exact clean_of_all (by decide)
  | num token, json => by
    rw [IsJson] at json
    rw [stringify]
    exact clean_numeric (readNumber_numeric (prints token json).1.1).2
  | str text, _ => by
    rw [stringify]
    exact clean_quote text
  | arr elements, json => by
    rw [IsJson] at json
    rw [stringify]
    exact ((clean_of_all (by decide)).append (clean_stringifyElements prints elements json)).append
      (clean_of_all (by decide))
  | obj members, json => by
    rw [IsJson] at json
    rw [stringify]
    exact ((clean_of_all (by decide)).append (clean_stringifyMembers prints members json)).append
      (clean_of_all (by decide))

theorem clean_stringifyElements (prints : Prints print) : ∀ vs : List UnitJson, AreJson vs →
    Clean (stringifyElements print vs)
  | [], _ => by
    rw [stringifyElements]
    exact .nil
  | [v], json => by
    rw [AreJson] at json
    rw [stringifyElements]
    exact clean_stringify prints v json.1
  | v :: w :: vs, json => by
    rw [AreJson] at json
    rw [stringifyElements]
    exact ((clean_stringify prints v json.1).append (clean_of_all (by decide))).append
      (clean_stringifyElements prints (w :: vs) json.2)

theorem clean_stringifyMembers (prints : Prints print) : ∀ ms : List (CodeUnits × UnitJson),
    MembersAreJson ms → Clean (stringifyMembers print ms)
  | [], _ => by
    rw [stringifyMembers]
    exact .nil
  | [(k, v)], json => by
    rw [MembersAreJson] at json
    rw [stringifyMembers]
    exact ((clean_quote k).append (clean_of_all (by decide))).append
      (clean_stringify prints v json.2.1)
  | (k, v) :: m :: ms, json => by
    rw [MembersAreJson] at json
    rw [stringifyMembers]
    exact ((((clean_quote k).append (clean_of_all (by decide))).append
      (clean_stringify prints v json.2.1)).append (clean_of_all (by decide))).append
      (clean_stringifyMembers prints (m :: ms) json.2.2)
end

end Script.UnitJson
