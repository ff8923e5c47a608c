import VyattaCfg.Library.Words
import Mathlib.Data.List.DropRight

namespace VyattaCfg.Fields

variable {α : Type}

/-- The longest pieces without a blank that are not empty. -/
def fields (blank : α → Bool) (s : List α) : List (List α) := (s.splitOnP blank).filter (!·.isEmpty)

def Solid (blank : α → Bool) (word : List α) : Prop := word ≠ [] ∧ ∀ c ∈ word, blank c = false

section Cutting

variable {blank : α → Bool}

@[simp] theorem fields_nil : fields blank [] = [] := by simp [fields]

theorem fields_append {c : α} (here : blank c = true) (s t : List α) :
    fields blank (s ++ c :: t) = fields blank s ++ fields blank t := by
  rw [fields, List.splitOnP_append_cons s t here, List.filter_append]
  rfl

theorem fields_cons {c : α} (here : blank c = true) (s : List α) : fields blank (c :: s) = fields blank s := by
  have cut := fields_append here [] s
  rw [List.nil_append, fields_nil, List.nil_append] at cut
  exact cut

theorem fields_blanks {s : List α} (blanks : ∀ c ∈ s, blank c = true) : fields blank s = [] := by
  induction s with
  | nil => exact fields_nil
  | cons c s ih =>
    rw [List.forall_mem_cons] at blanks
    rw [fields_cons blanks.1, ih blanks.2]

theorem fields_append_blanks {s t : List α} (blanks : ∀ c ∈ t, blank c = true) :
    fields blank (s ++ t) = fields blank s := by
  cases t with
  | nil => rw [List.append_nil]
  | cons c t =>
    rw [List.forall_mem_cons] at blanks
    rw [fields_append blanks.1, fields_blanks blanks.2, List.append_nil]

theorem fields_dropWhile (s : List α) : fields blank (s.dropWhile blank) = fields blank s := by
  induction s with
  | nil => rfl
  | cons c s ih =>
    by_cases here : blank c = true
    · rw [List.dropWhile_cons_of_pos here, ih, fields_cons here]
    · rw [List.dropWhile_cons_of_neg here]

theorem fields_rdropWhile (s : List α) : fields blank (s.rdropWhile blank) = fields blank s := by
  have ending : ∀ c ∈ s.rtakeWhile blank, blank c = true := fun c inside => List.mem_rtakeWhile_imp inside
  have whole := fields_append_blanks (s := s.rdropWhile blank) ending
  rw [List.rdropWhile_append_rtakeWhile] at whole
  exact whole.symm

theorem solid_of_mem {s word : List α} (inside : word ∈ fields blank s) : Solid blank word := by
  induction s generalizing word with
  | nil =>
    rw [fields_nil] at inside
    cases inside
  | cons c s ih =>
    by_cases here : blank c = true
    · rw [fields_cons here] at inside
      exact ih inside
    · obtain ⟨first, rest, split⟩ := List.exists_cons_of_ne_nil (List.splitOnP_ne_nil blank s)
      have unblank : ∀ d ∈ first, blank d = false := by
        by_cases empty : first = []
        · rw [empty]
          exact fun d none => absurd none List.not_mem_nil
        · apply (ih _).2
          rw [fields, split]
          exact List.mem_filter.mpr ⟨List.mem_cons_self, by simpa using empty⟩
      rw [fields, List.splitOnP_cons_eq_if_modifyHead, if_neg here, split, List.modifyHead_cons,
        List.filter_cons_of_pos (by rfl), List.mem_cons] at inside
      rcases inside with rfl | later
      · exact ⟨List.cons_ne_nil _ _, List.forall_mem_cons.mpr ⟨by simpa using here, unblank⟩⟩
      · apply ih
        rw [fields, split]
        exact List.mem_filter.mpr ⟨List.mem_cons_of_mem _ (List.mem_filter.mp later).1, (List.mem_filter.mp later).2⟩

theorem fields_solid {word : List α} (solid : Solid blank word) : fields blank word = [word] := by
  have single : word.splitOnP blank = [word] := by
    apply List.splitOnP_eq_singleton
    exact solid.2
  rw [fields, single, List.filter_cons_of_pos (by simpa using solid.1), List.filter_nil]

theorem fields_join {sep : α} (here : blank sep = true) (lists : List (List α)) :
    fields blank (Words.join sep lists) = lists.flatMap (fields blank) := by
  induction lists with
  | nil => exact fields_nil
  | cons first lists ih =>
    by_cases alone : lists = []
    · rw [alone, Words.join_singleton, List.flatMap_cons, List.flatMap_nil, List.append_nil]
    · rw [Words.join_cons sep first alone, fields_append here, ih, List.flatMap_cons]

/-- Words joined with blanks are cut where they were joined if and only if each is a word. -/
theorem fields_join_iff {sep : α} (here : blank sep = true) (words : List (List α)) :
    fields blank (Words.join sep words) = words ↔ ∀ word ∈ words, Solid blank word := by
  constructor
  · intro same word inside
    rw [← same] at inside
    exact solid_of_mem inside
  · intro solid
    rw [fields_join here]
    induction words with
    | nil => rfl
    | cons word words ih =>
      rw [List.forall_mem_cons] at solid
      rw [List.flatMap_cons, fields_solid solid.1, ih solid.2]
      rfl

end Cutting

end VyattaCfg.Fields
