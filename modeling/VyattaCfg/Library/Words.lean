import Mathlib.Data.List.Basic
import Mathlib.Tactic.Common

namespace Words

variable {α : Type*}

/-- The words with one separator between two of them. -/
def join (sep : α) (words : List (List α)) : List α := [sep].intercalate words

def Separable (sep : α) (words : List (List α)) : Prop := ∀ w ∈ words, w ≠ [] ∧ sep ∉ w

theorem join_singleton (sep : α) (w : List α) : join sep [w] = w := List.intercalate_singleton

theorem join_cons (sep : α) (w : List α) {words : List (List α)} (nonempty : words ≠ []) :
    join sep (w :: words) = w ++ sep :: join sep words := by
  obtain ⟨next, rest, rfl⟩ := List.exists_cons_of_ne_nil nonempty
  simp [join, List.intercalate_cons_cons]

theorem mem_join {sep b : α} {words : List (List α)} (member : b ∈ join sep words) :
    b = sep ∨ ∃ w ∈ words, b ∈ w := by
  induction words with
  | nil => cases member
  | cons w words ih =>
    by_cases more : words = []
    · rw [more, join_singleton] at member
      exact .inr ⟨w, List.mem_cons_self, member⟩
    · rw [join_cons sep w more] at member
      rcases List.mem_append.mp member with here | later
      · exact .inr ⟨w, List.mem_cons_self, here⟩
      · rcases List.mem_cons.mp later with same | later
        · exact .inl same
        · rcases ih later with same | ⟨u, inside, here⟩
          · exact .inl same
          · exact .inr ⟨u, List.mem_cons_of_mem _ inside, here⟩

theorem join_append (sep : α) {first second : List (List α)} (left : first ≠ []) (right : second ≠ []) :
    join sep (first ++ second) = join sep first ++ sep :: join sep second := by
  induction first with
  | nil => exact absurd rfl left
  | cons w first ih =>
    cases first with
    | nil => rw [join_singleton, List.singleton_append, join_cons sep w right]
    | cons next first =>
      have more : next :: first ≠ [] := List.cons_ne_nil next first
      rw [List.cons_append, join_cons sep w (by simp), ih more, join_cons sep w more]
      simp

theorem join_map_join (sep : α) {lists : List (List (List α))} (filled : ∀ words ∈ lists, words ≠ []) :
    join sep (lists.map (join sep)) = join sep lists.flatten := by
  induction lists with
  | nil => rfl
  | cons words lists ih =>
    have rest := ih fun words member => filled words (List.mem_cons_of_mem _ member)
    have here := filled words List.mem_cons_self
    cases lists with
    | nil => simp [join_singleton]
    | cons next lists =>
      have more : (next :: lists).flatten ≠ [] := by
        have present := filled next (List.mem_cons_of_mem _ List.mem_cons_self)
        simp [present]
      rw [List.flatten_cons, join_append sep here more, ← rest]
      exact join_cons sep _ (by simp)

variable [DecidableEq α]

/-- The longest pieces without a separator that are not empty. -/
def tokens (sep : α) (s : List α) : List (List α) := (s.splitOn sep).filter (· ≠ [])

theorem sep_not_mem_splitOn (sep : α) (s : List α) : ∀ piece ∈ s.splitOn sep, sep ∉ piece := by
  induction s with
  | nil => simp
  | cons b s ih =>
    rw [List.splitOn_cons_eq_if_modifyHead]
    obtain ⟨first, rest, split⟩ := List.exists_cons_of_ne_nil (List.splitOn_ne_nil sep s)
    rw [split] at ih ⊢
    intro piece member
    by_cases here : b = sep
    · rw [if_pos (by simpa using here)] at member
      rcases List.mem_cons.mp member with rfl | member
      · exact List.not_mem_nil
      · exact ih piece member
    · rw [if_neg (by simpa using here), List.modifyHead_cons] at member
      rcases List.mem_cons.mp member with rfl | member
      · rw [List.mem_cons, not_or]
        exact ⟨Ne.symm here, ih first List.mem_cons_self⟩
      · exact ih piece (List.mem_cons_of_mem _ member)

theorem separable_tokens (sep : α) (s : List α) : Separable sep (tokens sep s) := by
  intro w member
  obtain ⟨inside, nonempty⟩ := List.mem_filter.mp member
  exact ⟨by simpa using nonempty, sep_not_mem_splitOn sep s w inside⟩

theorem tokens_join (sep : α) {words : List (List α)} (separable : Separable sep words) :
    tokens sep (join sep words) = words := by
  cases words with
  | nil => simp [tokens, join]
  | cons w words =>
    rw [tokens, join, List.splitOn_intercalate sep (fun u member => (separable u member).2) (by simp),
      List.filter_eq_self]
    intro u member
    simpa using (separable u member).1

theorem join_injective (sep : α) {first second : List (List α)} (left : Separable sep first)
    (right : Separable sep second) (same : join sep first = join sep second) : first = second := by
  rw [← tokens_join sep left, same, tokens_join sep right]

theorem join_ne_nil (sep : α) {words : List (List α)} (filled : words ≠ []) (separable : Separable sep words) :
    join sep words ≠ [] := by
  intro empty
  have tokens := tokens_join sep separable
  rw [empty] at tokens
  exact filled (tokens.symm.trans rfl)

theorem getLast?_join (sep : α) {words : List (List α)} (separable : Separable sep words) :
    (join sep words).getLast? ≠ some sep := by
  induction words with
  | nil => simp [join]
  | cons w words ih =>
    have rest : Separable sep words := fun u member => separable u (List.mem_cons_of_mem _ member)
    by_cases more : words = []
    · rw [more, join_singleton]
      intro last
      exact (separable w List.mem_cons_self).2 (List.mem_of_getLast? last)
    · have nonempty := join_ne_nil sep more rest
      rw [join_cons sep w more, List.getLast?_append_of_ne_nil _ (List.cons_ne_nil _ _),
        List.getLast?_cons_of_ne_nil nonempty]
      exact ih rest

omit [DecidableEq α] in
/-- No two separators stand side by side. -/
theorem join_ne_double (sep : α) {words : List (List α)} (separable : Separable sep words) (x y : List α) :
    join sep words ≠ x ++ sep :: sep :: y := by
  induction words generalizing x with
  | nil => exact fun same => nomatch (List.append_eq_nil_iff.mp same.symm).2
  | cons word words ih =>
    obtain ⟨⟨filled, free⟩, later⟩ := List.forall_mem_cons.mp separable
    cases words with
    | nil =>
      rw [join_singleton]
      rintro rfl
      exact free (by simp)
    | cons next words =>
      have starts : ∀ y, join sep (next :: words) ≠ sep :: y := by
        intro y same
        obtain ⟨filled, free⟩ := later next List.mem_cons_self
        obtain ⟨b, rest, rfl⟩ := List.exists_cons_of_ne_nil filled
        have first : b = sep := by
          cases words with
          | nil =>
            rw [join_singleton] at same
            exact (List.cons.inj same).1
          | cons third words =>
            rw [join_cons sep _ (List.cons_ne_nil _ _)] at same
            exact (List.cons.inj same).1
        exact free (first ▸ List.mem_cons_self)
      rw [join_cons sep _ (List.cons_ne_nil _ _)]
      intro same
      rcases List.append_eq_append_iff.mp same with ⟨z, rfl, rest⟩ | ⟨z, rfl, rest⟩
      · cases z with
        | nil => exact starts y (List.cons.inj rest).2
        | cons c z => exact ih later z (List.cons.inj rest).2
      · cases z with
        | nil => exact starts y (List.cons.inj rest).2.symm
        | cons c z =>
          obtain ⟨rfl, -⟩ := List.cons.inj rest
          exact free (by simp)

theorem tokens_eq_nil_iff (sep : α) (s : List α) : tokens sep s = [] ↔ ∀ b ∈ s, b = sep := by
  unfold tokens
  induction s with
  | nil => simp
  | cons b s ih =>
    rw [List.splitOn_cons_eq_if_modifyHead, List.forall_mem_cons, ← ih]
    by_cases here : b = sep
    · simp [here]
    · obtain ⟨first, rest, split⟩ := List.exists_cons_of_ne_nil (List.splitOn_ne_nil sep s)
      simp [here, split]

/-- Joined words come apart as they were when they are separable; a single word that is all
    separators is left whole by a reader that finds no token. -/
theorem tokens_or_whole_iff (sep : α) {words : List (List α)} (filled : words ≠ []) :
    (if tokens sep (join sep words) = [] then [join sep words] else tokens sep (join sep words)) = words ↔
      Separable sep words ∨ ∃ w, words = [w] ∧ ∀ b ∈ w, b = sep := by
  constructor
  · intro same
    split at same
    · rename_i none
      refine .inr ⟨join sep words, same.symm, ?_⟩
      exact (tokens_eq_nil_iff sep _).mp none
    · left
      rw [← same]
      exact separable_tokens sep _
  · intro held
    rcases held with separable | ⟨w, rfl, blank⟩
    · rw [tokens_join sep separable, if_neg filled]
    · rw [join_singleton, if_pos ((tokens_eq_nil_iff sep w).mpr blank)]

end Words
