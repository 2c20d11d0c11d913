import Mathlib.Data.List.Infix

/-!
# Longest prefixes with a property

An automaton that reads a text remembers the longest end of it that is still worth
something. Over a text that is kept newest first the ends are prefixes. What the longest
prefix with a property is after one more element follows from what it was before.
-/

namespace Script

universe u

variable {α : Type u}

/-- `x` is the longest prefix of `l` with the property. -/
structure LongestPrefix (P : List α → Prop) (l x : List α) : Prop where
  leads : x <+: l
  holds : P x
  longest : ∀ y, y <+: l → P y → y.length ≤ x.length

/-- No prefix of `l` has the property. -/
def NoPrefix (P : List α → Prop) (l : List α) : Prop := ∀ y, y <+: l → ¬ P y

theorem prefix_of_length_le {x y l : List α} (first : x <+: l) (second : y <+: l)
    (shorter : x.length ≤ y.length) : x <+: y :=
  List.prefix_of_prefix_length_le first second shorter

theorem eq_or_shorter_of_prefix {x l : List α} (leads : x <+: l) :
    x = l ∨ x.length < l.length := by
  rcases Nat.lt_or_ge x.length l.length with shorter | same
  · exact .inr shorter
  · exact .inl (leads.eq_of_length_le same)

namespace LongestPrefix

variable {P Q : List α → Prop} {l x : List α}

theorem self (holds : P l) : LongestPrefix P l l where
  leads := List.prefix_refl l
  holds := holds
  longest _ leads _ := leads.length_le

theorem prefix_iff (longest : LongestPrefix P l x) {y : List α} (holds : P y) :
    y <+: l ↔ y <+: x := by
  constructor
  · intro leads
    exact prefix_of_length_le leads longest.leads (longest.longest y leads holds)
  · exact fun leads => leads.trans longest.leads

theorem of_stronger (longest : LongestPrefix P l x) {y : List α} (stronger : ∀ z, Q z → P z)
    (inside : LongestPrefix Q x y) : LongestPrefix Q l y where
  leads := inside.leads.trans longest.leads
  holds := inside.holds
  longest z leads holds := inside.longest z ((longest.prefix_iff (stronger z holds)).mp leads) holds

theorem noPrefix_of_stronger (longest : LongestPrefix P l x) (stronger : ∀ z, Q z → P z)
    (inside : NoPrefix Q x) : NoPrefix Q l :=
  fun z leads holds => inside z ((longest.prefix_iff (stronger z holds)).mp leads) holds

theorem cons {a : α} (next : LongestPrefix (fun y => P (a :: y)) l x) :
    LongestPrefix P (a :: l) (a :: x) where
  leads := (List.cons_prefix_cons).mpr ⟨rfl, next.leads⟩
  holds := next.holds
  longest y leads holds := by
    cases y with
    | nil => exact Nat.zero_le _
    | cons b y =>
      obtain ⟨rfl, inside⟩ := List.cons_prefix_cons.mp leads
      simpa using next.longest y inside holds

theorem cons_nil {a : α} (none : NoPrefix (fun y => P (a :: y)) l) (empty : P []) :
    LongestPrefix P (a :: l) [] where
  leads := List.nil_prefix
  holds := empty
  longest y leads holds := by
    cases y with
    | nil => exact Nat.le_refl _
    | cons b y =>
      obtain ⟨rfl, inside⟩ := List.cons_prefix_cons.mp leads
      exact absurd holds (none y inside)

end LongestPrefix

/-- The proper prefixes of `l` with the property, by the longest of them. -/
def LongestProper (P : List α → Prop) (l x : List α) : Prop :=
  LongestPrefix (fun y => P y ∧ y.length < l.length) l x

namespace LongestProper

variable {P Q : List α → Prop} {l x : List α}

theorem shorter (proper : LongestProper P l x) : x.length < l.length := proper.holds.2

theorem eq_or_prefix (proper : LongestProper P l x) {y : List α} (leads : y <+: l) (holds : P y) :
    y = l ∨ y <+: x := by
  rcases eq_or_shorter_of_prefix leads with whole | short
  · exact .inl whole
  · exact .inr ((proper.prefix_iff ⟨holds, short⟩).mp leads)

theorem of_not_whole (proper : LongestProper P l x) (stronger : ∀ z, Q z → P z) (not : ¬ Q l)
    {y : List α} (inside : LongestPrefix Q x y) : LongestPrefix Q l y where
  leads := inside.leads.trans proper.leads
  holds := inside.holds
  longest z leads holds := by
    rcases proper.eq_or_prefix leads (stronger z holds) with rfl | deeper
    · exact absurd holds not
    · exact inside.longest z deeper holds

theorem noPrefix_of_not_whole (proper : LongestProper P l x) (stronger : ∀ z, Q z → P z)
    (not : ¬ Q l) (inside : NoPrefix Q x) : NoPrefix Q l := by
  intro z leads holds
  rcases proper.eq_or_prefix leads (stronger z holds) with rfl | deeper
  · exact not holds
  · exact inside z deeper holds

theorem cons {a : α} (proper : LongestProper P l x) (down : ∀ y, P (a :: y) → P y) {y : List α}
    (inside : LongestPrefix (fun y => P (a :: y)) x y) : LongestProper P (a :: l) (a :: y) := by
  apply LongestPrefix.cons
  have short : y.length < l.length := Nat.lt_of_le_of_lt inside.leads.length_le proper.shorter
  refine ⟨inside.leads.trans proper.leads, ⟨inside.holds, by simpa using short⟩, ?_⟩
  rintro z leads ⟨holds, still⟩
  have shorter : z.length < l.length := by simpa using still
  exact inside.longest z ((proper.prefix_iff ⟨down z holds, shorter⟩).mp leads) holds

theorem cons_nil {a : α} (proper : LongestProper P l x) (down : ∀ y, P (a :: y) → P y)
    (empty : P []) (none : NoPrefix (fun y => P (a :: y)) x) : LongestProper P (a :: l) [] := by
  apply LongestPrefix.cons_nil
  · rintro z leads ⟨holds, still⟩
    have shorter : z.length < l.length := by simpa using still
    exact none z ((proper.prefix_iff ⟨down z holds, shorter⟩).mp leads) holds
  · exact ⟨empty, Nat.succ_pos _⟩

theorem singleton {a : α} (empty : P []) : LongestProper P [a] [] where
  leads := List.nil_prefix
  holds := ⟨empty, Nat.one_pos⟩
  longest _ _ holds := Nat.le_of_lt_succ holds.2

end LongestProper

end Script
