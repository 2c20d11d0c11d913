import Ace.Script.Copy

/-!
# SQL expressions over JSON columns

Values of SQLite, its three-valued logic and `json_extract`. A comparison with NULL is NULL, and a
`WHERE` clause keeps a row only when it is true.
-/

namespace Script

/-- A value of SQLite. An object or array of a JSON column is its text, kept as it was read. -/
inductive Sql where
  | null
  | num (q : ℚ)
  | text (s : String)
  | json (v : Value)
  deriving DecidableEq

/-- True, false or NULL. -/
abbrev Truth := Option Bool

namespace Truth

def and : Truth → Truth → Truth
  | some false, _ | _, some false => some false
  | some true, some true => some true
  | _, _ => none

def or : Truth → Truth → Truth
  | some true, _ | _, some true => some true
  | some false, some false => some false
  | _, _ => none

def not (t : Truth) : Truth := t.map (!·)

@[simp] theorem and_some (a b : Bool) : and (some a) (some b) = some (a && b) := by
  cases a <;> cases b <;> rfl

@[simp] theorem or_some (a b : Bool) : or (some a) (some b) = some (a || b) := by
  cases a <;> cases b <;> rfl

@[simp] theorem not_some (a : Bool) : not (some a) = some !a := rfl

@[simp] theorem and_false (t : Truth) : and t (some false) = some false := by
  cases t with
  | none => rfl
  | some b => cases b <;> rfl

@[simp] theorem false_and (t : Truth) : and (some false) t = some false := by
  cases t with
  | none => rfl
  | some b => cases b <;> rfl

/-- Whether a `WHERE` clause keeps the row. -/
def holds (t : Truth) : Bool := t == some true

@[simp] theorem holds_some (b : Bool) : holds (some b) = b := by
  cases b <;> rfl

end Truth

namespace Sql

def isNull : Sql → Truth
  | null => some true
  | _ => some false

/-- `=` -/
def eq : Sql → Sql → Truth
  | null, _ | _, null => none
  | a, b => some (a = b)

/-- `<` of numbers. -/
def less : Sql → Sql → Truth
  | num p, num q => some (p < q)
  | _, _ => none

/-- `NOT IN` a list of texts. -/
def notIn (a : Sql) (texts : List String) : Truth :=
  match a with
  | null => none
  | a => some !(texts.any fun s => a = .text s)

def coalesce : Sql → Sql → Sql
  | null, b => b
  | a, _ => a

/-- What `json_extract` gives for a value that it finds. -/
def ofValue : Value → Sql
  | .bool b => num (if b then 1 else 0)
  | .num q => num q
  | .str s => text s
  | .undefined | .null => null
  | v => json v

/-- `json_extract(column, '$.a.b')` -/
def extract (column : Option Value) (path : List String) : Sql :=
  match column with
  | none => null
  | some value => ofValue (path.foldl (·.field ·) value)

@[simp] theorem isNull_null : isNull null = some true := rfl
@[simp] theorem isNull_num (q : ℚ) : isNull (num q) = some false := rfl
@[simp] theorem isNull_text (s : String) : isNull (text s) = some false := rfl
@[simp] theorem isNull_json (v : Value) : isNull (json v) = some false := rfl
@[simp] theorem coalesce_null (b : Sql) : coalesce null b = b := rfl
@[simp] theorem coalesce_num (q : ℚ) (b : Sql) : coalesce (num q) b = num q := rfl
@[simp] theorem coalesce_text (s : String) (b : Sql) : coalesce (text s) b = text s := rfl
@[simp] theorem null_eq (b : Sql) : eq null b = none := by cases b <;> rfl
@[simp] theorem num_eq_num (p q : ℚ) : eq (num p) (num q) = some (decide (p = q)) := by
  simp [eq]
@[simp] theorem text_eq_text (s t : String) : eq (text s) (text t) = some (decide (s = t)) := by
  simp [eq]
@[simp] theorem num_less_num (p q : ℚ) : less (num p) (num q) = some (decide (p < q)) := rfl
@[simp] theorem null_notIn (texts : List String) : notIn null texts = none := rfl
@[simp] theorem text_notIn (s : String) (texts : List String) :
    notIn (text s) texts = some (decide (s ∉ texts)) := by
  simp [notIn, List.any_eq]

end Sql

/-! ### Columns that were written as JSON text -/

theorem Sql.extract_json (v : Value) (path : List String) :
    extract (some v.json) path = ofValue (path.foldl (·.field ·) v).json := by
  simp only [extract]
  congr 1
  induction path generalizing v with
  | nil => rfl
  | cons k path ih => rw [List.foldl_cons, List.foldl_cons, Value.field_json, ih]

end Script
