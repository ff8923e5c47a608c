import Mathlib.Algebra.Group.Nat.Defs
import Mathlib.Data.Nat.Basic
import Mathlib.Order.Compare
import Mathlib.Tactic.Common

namespace Positional

def value (base : Nat) (digits : List Nat) : Nat := digits.foldl (fun n d => n * base + d) 0

variable {base : Nat} {left right : List Nat}

theorem foldl_eq (n : Nat) (digits : List Nat) :
    digits.foldl (fun n d => n * base + d) n = n * base ^ digits.length + value base digits := by
  induction digits generalizing n with
  | nil => simp [value]
  | cons d digits ih =>
    rw [value, List.foldl_cons, List.foldl_cons, ih, ih (0 * base + d), List.length_cons, Nat.pow_succ, Nat.zero_mul,
      Nat.zero_add, Nat.add_mul, Nat.mul_comm (base ^ digits.length), Nat.mul_assoc, Nat.add_assoc]

theorem value_cons (d : Nat) (digits : List Nat) :
    value base (d :: digits) = d * base ^ digits.length + value base digits := by
  rw [value, List.foldl_cons, foldl_eq, Nat.zero_mul, Nat.zero_add]

theorem value_lt {digits : List Nat} (small : ∀ d ∈ digits, d < base) :
    value base digits < base ^ digits.length := by
  induction digits with
  | nil => exact Nat.one_pos
  | cons d digits ih =>
    rw [List.forall_mem_cons] at small
    have rest := ih small.2
    rw [value_cons, List.length_cons, Nat.pow_succ]
    calc d * base ^ digits.length + value base digits
        < d * base ^ digits.length + base ^ digits.length := Nat.add_lt_add_left rest _
      _ = (d + 1) * base ^ digits.length := by rw [Nat.add_mul, Nat.one_mul]
      _ ≤ base * base ^ digits.length := Nat.mul_le_mul_right _ small.1
      _ = base ^ digits.length * base := Nat.mul_comm _ _

theorem lt_of_first {d e n m width : Nat} (less : d < e) (fits : n < width) : d * width + n < e * width + m := by
  calc d * width + n < d * width + width := Nat.add_lt_add_left fits _
    _ = (d + 1) * width := by rw [Nat.add_mul, Nat.one_mul]
    _ ≤ e * width := Nat.mul_le_mul_right _ less
    _ ≤ e * width + m := Nat.le_add_right _ _

/-- Numbers of one length are ordered as their digits are. -/
theorem compare_value (length : left.length = right.length) (small : ∀ d ∈ left, d < base)
    (small' : ∀ d ∈ right, d < base) : compare (value base left) (value base right) = compare left right := by
  induction left generalizing right with
  | nil => rw [List.length_eq_zero_iff.mp length.symm]; rfl
  | cons d left ih =>
    cases right with
    | nil => cases length
    | cons e right =>
      have same := Nat.succ.inj length
      rw [List.forall_mem_cons] at small small'
      have fits := value_lt small.2
      have fits' := value_lt small'.2
      rw [same] at fits
      rw [List.compare_cons_cons, ← ih same small.2 small'.2, value_cons, value_cons, same]
      rcases lt_trichotomy d e with less | rfl | more
      · rw [compare_lt_iff_lt.mpr less, compare_lt_iff_lt.mpr (lt_of_first less fits)]
        rfl
      · rw [compare_eq_iff_eq.mpr rfl, Ordering.then]
        rcases lt_trichotomy (value base left) (value base right) with less | even | more
        · rw [compare_lt_iff_lt.mpr less, compare_lt_iff_lt.mpr (Nat.add_lt_add_left less _)]
        · rw [even, compare_eq_iff_eq.mpr rfl, compare_eq_iff_eq.mpr rfl]
        · rw [compare_gt_iff_gt.mpr more, compare_gt_iff_gt.mpr (Nat.add_lt_add_left more _)]
      · rw [compare_gt_iff_gt.mpr more, compare_gt_iff_gt.mpr (lt_of_first more fits')]
        rfl

theorem compare_append (length : left.length = right.length) (rest rest' : List Nat) :
    compare (left ++ rest) (right ++ rest') = (compare left right).then (compare rest rest') := by
  induction left generalizing right with
  | nil => rw [List.length_eq_zero_iff.mp length.symm]; rfl
  | cons d left ih =>
    cases right with
    | nil => cases length
    | cons e right =>
      rw [List.cons_append, List.cons_append, List.compare_cons_cons, List.compare_cons_cons,
        ih (Nat.succ.inj length), Ordering.then_assoc]

end Positional
