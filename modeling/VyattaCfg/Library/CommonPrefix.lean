import Mathlib.Data.List.Nodup
import Mathlib.Data.List.Infix
import Mathlib.Tactic.Common

namespace CommonPrefix

variable {α : Type*}

structure IsLongest (p xs ys : List α) : Prop where
  left : p <+: xs
  right : p <+: ys
  longest : ∀ q, q <+: xs → q <+: ys → q.length ≤ p.length

section Longest

variable [DecidableEq α]

def commonPrefix : List α → List α → List α
  | x :: xs, y :: ys => if x = y then x :: commonPrefix xs ys else []
  | _, _ => []

theorem commonPrefix_left (xs ys : List α) : commonPrefix xs ys <+: xs := by
  fun_induction commonPrefix xs ys with
  | case1 x xs ys ih => exact List.cons_prefix_cons.mpr ⟨rfl, ih⟩
  | case2 => exact List.nil_prefix
  | case3 => exact List.nil_prefix

theorem commonPrefix_right (xs ys : List α) : commonPrefix xs ys <+: ys := by
  fun_induction commonPrefix xs ys with
  | case1 x xs ys ih => exact List.cons_prefix_cons.mpr ⟨rfl, ih⟩
  | case2 => exact List.nil_prefix
  | case3 => exact List.nil_prefix

theorem prefix_commonPrefix {p xs ys : List α} (left : p <+: xs) (right : p <+: ys) :
    p <+: commonPrefix xs ys := by
  induction p generalizing xs ys with
  | nil => exact List.nil_prefix
  | cons x p ih =>
    obtain ⟨restLeft, rfl, tailLeft⟩ := List.cons_prefix_iff.mp left
    obtain ⟨restRight, rfl, tailRight⟩ := List.cons_prefix_iff.mp right
    rw [commonPrefix, if_pos rfl]
    exact List.cons_prefix_cons.mpr ⟨rfl, ih tailLeft tailRight⟩

theorem isLongest_commonPrefix (xs ys : List α) : IsLongest (commonPrefix xs ys) xs ys where
  left := commonPrefix_left xs ys
  right := commonPrefix_right xs ys
  longest _ left right := (prefix_commonPrefix left right).length_le

/-- A value is in the common prefix when everything up to its place is the same in both lists. -/
theorem mem_commonPrefix_iff [BEq α] [LawfulBEq α] {xs ys : List α} (distinct : xs.Nodup) {v : α} (member : v ∈ xs) :
    v ∈ commonPrefix xs ys ↔ xs.take (xs.idxOf v + 1) <+: ys := by
  have inside : xs.idxOf v < xs.length := List.idxOf_lt_length_of_mem member
  have last : xs[xs.idxOf v] = v := List.getElem_idxOf inside
  constructor
  · intro shared
    have before : xs.idxOf v < (commonPrefix xs ys).length := by
      have place := List.idxOf_lt_length_of_mem shared
      have same : (commonPrefix xs ys)[(commonPrefix xs ys).idxOf v] = v := List.getElem_idxOf place
      rw [List.IsPrefix.getElem (commonPrefix_left xs ys) place] at same
      have unique := distinct.idxOf_getElem _ (place.trans_le (commonPrefix_left xs ys).length_le)
      rw [same] at unique
      omega
    have taken : xs.take (xs.idxOf v + 1) <+: commonPrefix xs ys := by
      apply List.prefix_of_prefix_length_le (List.take_prefix _ _) (commonPrefix_left xs ys)
      rw [List.length_take]
      omega
    exact taken.trans (commonPrefix_right xs ys)
  · intro shared
    apply (prefix_commonPrefix (List.take_prefix _ _) shared).subset
    rw [List.mem_take_iff_getElem]
    exact ⟨xs.idxOf v, by omega, last⟩

end Longest

section Filter

variable [BEq α] [LawfulBEq α]

theorem filter_mem_of_prefix_nodup {p xs : List α} (distinct : xs.Nodup) (isPrefix : p <+: xs) :
    xs.filter (· ∈ p) = p := by
  obtain ⟨rest, rfl⟩ := isPrefix
  have apart := (List.nodup_append.mp distinct).2.2
  have kept : p.filter (· ∈ p) = p := List.filter_eq_self.mpr (by simp)
  have dropped : rest.filter (· ∈ p) = [] := by
    rw [List.filter_eq_nil_iff]
    intro v member inside
    exact apart v (by simpa using inside) v member rfl
  rw [List.filter_append, kept, dropped, List.append_nil]

theorem prefix_append_filter {p xs : List α} (distinct : xs.Nodup) (isPrefix : p <+: xs) :
    p ++ xs.filter (· ∉ p) = xs := by
  obtain ⟨rest, rfl⟩ := isPrefix
  have apart := (List.nodup_append.mp distinct).2.2
  have dropped : p.filter (· ∉ p) = [] := by
    rw [List.filter_eq_nil_iff]
    simp
  have kept : rest.filter (· ∉ p) = rest := by
    rw [List.filter_eq_self]
    intro v member
    have outside : v ∉ p := fun inside => apart v inside v member rfl
    simpa using outside
  rw [List.filter_append, dropped, kept, List.nil_append]

end Filter

end CommonPrefix
