import Mathlib.Data.List.Basic
import Mathlib.Tactic.Common

namespace VyattaCfg.Lines

variable {α : Type*}

/-- Each line with its end behind it. -/
def written (eol : α) (lines : List (List α)) : List α := lines.flatMap (· ++ [eol])

theorem written_cons (eol : α) (line : List α) (lines : List (List α)) :
    written eol (line :: lines) = line ++ eol :: written eol lines := by
  rw [written, List.flatMap_cons, List.append_assoc]
  rfl

theorem written_append (eol : α) (first second : List (List α)) :
    written eol (first ++ second) = written eol first ++ written eol second := List.flatMap_append

variable [DecidableEq α]

/-- The lines of a text all of which is lines. -/
def cut (eol : α) : List α → Option (List (List α))
  | [] => some []
  | c :: text =>
    if c = eol then (cut eol text).map ([] :: ·)
    else
      match cut eol text with
      | some (line :: lines) => some ((c :: line) :: lines)
      | _ => none

theorem cut_line {eol : α} {line : List α} (free : eol ∉ line) (text : List α) :
    cut eol (line ++ eol :: text) = (cut eol text).map (line :: ·) := by
  induction line with
  | nil => rw [List.nil_append, cut, if_pos rfl]
  | cons c line ih =>
    rw [List.mem_cons, not_or] at free
    rw [List.cons_append, cut, if_neg (Ne.symm free.1), ih free.2]
    cases cut eol text <;> rfl

theorem cut_eq_some_iff {eol : α} {text : List α} {lines : List (List α)} :
    cut eol text = some lines ↔ text = written eol lines ∧ ∀ line ∈ lines, eol ∉ line := by
  constructor
  · intro found
    induction text generalizing lines with
    | nil =>
      cases found
      exact ⟨rfl, List.forall_mem_nil _⟩
    | cons c text ih =>
      rw [cut] at found
      split at found
      · rename_i ends
        obtain ⟨rest, cutRest, rfl⟩ := Option.map_eq_some_iff.mp found
        obtain ⟨rfl, free⟩ := ih cutRest
        exact ⟨by rw [ends]; rfl, List.forall_mem_cons.mpr ⟨List.not_mem_nil, free⟩⟩
      · rename_i goes
        split at found
        · rename_i line rest cutRest
          cases found
          obtain ⟨rfl, free⟩ := ih cutRest
          rw [List.forall_mem_cons] at free ⊢
          refine ⟨by rw [written_cons, written_cons, List.cons_append], ?_, free.2⟩
          rw [List.mem_cons, not_or]
          exact ⟨Ne.symm goes, free.1⟩
        · cases found
  · rintro ⟨rfl, free⟩
    induction lines with
    | nil => rfl
    | cons line lines ih =>
      rw [List.forall_mem_cons] at free
      rw [written_cons, cut_line free.1, ih free.2, Option.map_some]

end VyattaCfg.Lines
