import Ace.Script.Json
import Ace.Script.Stringify
import Mathlib.Data.List.Lex
import Mathlib.Order.Basic

/-!
# Hexadecimal digits

Numbers in a fixed number of lower-case hexadecimal digits. Read digit by digit they are in the
order of the numbers, and they are read back as they were written.
-/

namespace Script.Hex

open Json (hexValue)
open Value (hexDigit)

/-- The last `width` hexadecimal digits of a number. -/
def digits : Nat → Nat → List Char
  | 0, _ => []
  | width + 1, n => digits width (n / 16) ++ [hexDigit (n % 16)]

/-- `Number.parseInt(text, 16)`, of digits. -/
def parse (text : List Char) : Nat :=
  text.foldl (fun n c => n * 16 + (hexValue c).getD 0) 0

theorem hexValue_digit : ∀ n < 16, hexValue (hexDigit n) = some n := by decide

@[simp] theorem length_digits (width n : Nat) : (digits width n).length = width := by
  induction width generalizing n with
  | zero => rfl
  | succ width ih => rw [digits, List.length_append, ih, List.length_singleton]

theorem digits_add (first second n : Nat) :
    digits (first + second) n = digits first (n / 16 ^ second) ++ digits second n := by
  induction second generalizing n with
  | zero => rw [Nat.add_zero, Nat.pow_zero, Nat.div_one, digits, List.append_nil]
  | succ second ih =>
    have shifted : n / 16 / 16 ^ second = n / 16 ^ (second + 1) := by
      rw [Nat.div_div_eq_div_mul, Nat.pow_succ, Nat.mul_comm 16]
    rw [← Nat.add_assoc, digits, ih, digits, shifted, List.append_assoc]

theorem digits_mod (width n : Nat) : digits width (n % 16 ^ width) = digits width n := by
  induction width generalizing n with
  | zero => rfl
  | succ width ih =>
    have high : n % 16 ^ (width + 1) / 16 = n / 16 % 16 ^ width := by
      rw [Nat.pow_succ, Nat.mul_comm, Nat.mod_mul_right_div_self]
    have low : n % 16 ^ (width + 1) % 16 = n % 16 := by
      rw [Nat.pow_succ, Nat.mul_comm, Nat.mod_mul_right_mod]
    rw [digits, high, low, ih, digits]

theorem mem_digits {width n : Nat} {c : Char} (member : c ∈ digits width n) :
    ∃ d < 16, c = hexDigit d := by
  induction width generalizing n with
  | zero => cases member
  | succ width ih =>
    rcases List.mem_append.mp member with first | last
    · exact ih first
    · exact ⟨n % 16, Nat.mod_lt _ (by decide), List.mem_singleton.mp last⟩

theorem parse_digits (width n : Nat) (small : n < 16 ^ width) : parse (digits width n) = n := by
  induction width generalizing n with
  | zero =>
    rw [Nat.pow_zero, Nat.lt_one_iff] at small
    rw [small]
    rfl
  | succ width ih =>
    have high : n / 16 < 16 ^ width := by
      rw [Nat.pow_succ, Nat.mul_comm] at small
      exact Nat.div_lt_of_lt_mul small
    have before := ih (n / 16) high
    rw [parse] at before
    rw [parse, digits, List.foldl_append, before, List.foldl_cons, List.foldl_nil,
      hexValue_digit _ (Nat.mod_lt n (by decide)), Option.getD_some]
    omega

/-! ### Order -/

theorem hexDigit_lt : ∀ m < 16, ∀ n < 16, m < n → hexDigit m < hexDigit n := by decide

theorem append_lt_append_right {a b : List Char} (same : a.length = b.length) (less : a < b)
    (x y : List Char) : a ++ x < b ++ y := by
  induction a generalizing b with
  | nil =>
    cases b with
    | nil => exact absurd less (List.lt_irrefl [])
    | cons => cases same
  | cons c a ih =>
    cases b with
    | nil => cases same
    | cons d b =>
      rw [List.cons_lt_cons_iff] at less
      rw [List.cons_append, List.cons_append, List.cons_lt_cons_iff]
      rcases less with first | ⟨equal, rest⟩
      · exact .inl first
      · exact .inr ⟨equal, ih (Nat.succ_injective same) rest⟩

theorem append_lt_append_left (a : List Char) {x y : List Char} (less : x < y) :
    a ++ x < a ++ y := by
  induction a with
  | nil => exact less
  | cons c a ih =>
    rw [List.cons_append, List.cons_append, List.cons_lt_cons_iff]
    exact .inr ⟨rfl, ih⟩

theorem digits_lt {width m n : Nat} (small : n < 16 ^ width) (less : m < n) :
    digits width m < digits width n := by
  induction width generalizing m n with
  | zero =>
    rw [Nat.pow_zero, Nat.lt_one_iff] at small
    omega
  | succ width ih =>
    have high : n / 16 < 16 ^ width := by
      rw [Nat.pow_succ, Nat.mul_comm] at small
      exact Nat.div_lt_of_lt_mul small
    rw [digits, digits]
    rcases Nat.lt_or_eq_of_le (Nat.div_le_div_right (Nat.le_of_lt less) : m / 16 ≤ n / 16)
      with lower | equal
    · apply append_lt_append_right _ (ih high lower)
      rw [length_digits, length_digits]
    · -- the last digits decide
      rw [equal]
      apply append_lt_append_left
      rw [List.cons_lt_cons_iff]
      exact .inl (hexDigit_lt _ (Nat.mod_lt _ (by decide)) _ (Nat.mod_lt _ (by decide)) (by omega))

end Script.Hex
