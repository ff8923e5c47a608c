import VyattaCfg.Library.Flex
import VyattaCfg.Library.WordShape

namespace Flex

open Regex

variable {α τ : Type} [DecidableEq α]

/-- The longest match is found within what no word goes beyond. -/
theorem longest_append {r : RegularExpression α} {w rest : List α} (ends : Ends r w rest) :
    longest r (w ++ rest) (w ++ rest).length = longest r w w.length := by
  have beyond : ∀ k, k ≤ rest.length → longest r (w ++ rest) (w.length + k) = longest r (w ++ rest) w.length := by
    intro k few
    induction k with
    | zero => rfl
    | succ k ih =>
      rw [← Nat.add_assoc, longest, if_neg, ih (by omega)]
      intro matched
      have word := (RegularExpression.rmatch_iff_matches' _ _).mp matched
      rw [Nat.add_assoc, List.take_length_add_append] at word
      refine ends (rest.take (k + 1)) ?_ (List.take_prefix _ _) word
      apply List.ne_nil_of_length_pos
      rw [List.length_take]
      omega
  have within : ∀ n, n ≤ w.length → longest r (w ++ rest) n = longest r w n := by
    intro n few
    induction n with
    | zero => rfl
    | succ n ih => rw [longest, longest, List.take_append_of_le_length few, ih (by omega)]
  rw [List.length_append, beyond _ (le_refl _), within _ (le_refl _)]

theorem longest_whole {r : RegularExpression α} {w : List α} (word : w ∈ r.matches') :
    longest r w w.length = w.length := by
  cases length : w.length with
  | zero => rfl
  | succ n =>
    rw [longest, ← length, List.take_length, if_pos ((RegularExpression.rmatch_iff_matches' r w).mpr word)]

theorem longest_less {r : RegularExpression α} {w : List α} (foreign : w ∉ r.matches') (some : w ≠ []) :
    longest r w w.length < w.length := by
  cases length : w.length with
  | zero => exact absurd (List.eq_nil_of_length_eq_zero length) some
  | succ n =>
    rw [longest, if_neg]
    · exact Nat.lt_succ_of_le (longest_le _ _ _)
    · rw [← length, List.take_length]
      exact fun matched => foreign ((RegularExpression.rmatch_iff_matches' r w).mp matched)

variable {atBol : Bool} {rules before after : List (Rule α τ)} {rule : Rule α τ} {w rest : List α} {n : Nat}

theorem matchLength_append (ends : Ends rule.pattern w rest) :
    matchLength atBol (w ++ rest) rule = matchLength atBol w rule := by
  unfold matchLength
  rw [longest_append ends]

/-- What the scanner takes of a text is decided by the part that no rule goes beyond. -/
theorem choose_append (ends : ∀ rule ∈ rules, Ends rule.pattern w rest) :
    choose atBol (w ++ rest) rules = choose atBol w rules := by
  induction rules with
  | nil => rfl
  | cons rule rules ih =>
    rw [List.forall_mem_cons] at ends
    rw [choose, choose, matchLength_append ends.1, ih ends.2]

theorem choose_length (chosen : choose atBol w rules = some (n, rule)) : n = matchLength atBol w rule := by
  induction rules generalizing n rule with
  | nil => cases chosen
  | cons first rules ih =>
    rw [choose] at chosen
    cases rest : choose atBol w rules with
    | none =>
      simp only [rest] at chosen
      split at chosen
      · cases chosen
      · obtain ⟨rfl, rfl⟩ := Prod.mk.inj (Option.some.inj chosen)
        rfl
    | some best =>
      simp only [rest] at chosen
      split at chosen
      · obtain ⟨rfl, rfl⟩ := Prod.mk.inj (Option.some.inj chosen)
        rfl
      · rw [chosen] at rest
        exact ih rest

theorem choose_le (short : ∀ rule ∈ rules, matchLength atBol w rule ≤ n) {m : Nat}
    (chosen : choose atBol w rules = some (m, rule)) : m ≤ n := by
  rw [choose_length chosen]
  exact short rule (choose_matches chosen).1

/-- The first rule with the longest match is taken. -/
theorem choose_eq (own : matchLength atBol w rule = n) (some : 0 < n)
    (less : ∀ rule ∈ before, matchLength atBol w rule < n) (most : ∀ rule ∈ after, matchLength atBol w rule ≤ n) :
    choose atBol w (before ++ rule :: after) = .some (n, rule) := by
  induction before with
  | nil =>
    rw [List.nil_append, choose, own]
    cases rest : choose atBol w after with
    | none => exact if_neg (by omega)
    | some best =>
      obtain ⟨m, other⟩ := best
      exact if_pos (choose_le most rest)
  | cons first before ih =>
    rw [List.forall_mem_cons] at less
    rw [List.cons_append, choose, ih less.2]
    exact if_neg (by omega)

/-- A text that rules match as a whole is taken by the first of them. -/
theorem choose_whole (free : ∀ rule ∈ rules, rule.bol = false) (some : w ≠ [])
    (found : rules.find? (fun rule => rule.pattern.rmatch w) = .some rule) :
    choose atBol w rules = .some (w.length, rule) := by
  obtain ⟨matched, before, after, rfl, unmatched⟩ := List.find?_eq_some_iff_append.mp found
  have length : ∀ other ∈ before ++ rule :: after, matchLength atBol w other = longest other.pattern w w.length := by
    intro other known
    rw [matchLength, free other known]
    rfl
  apply choose_eq
  · rw [length rule (by simp), longest_whole ((RegularExpression.rmatch_iff_matches' _ _).mp matched)]
  · exact List.length_pos_iff.mpr some
  · intro other known
    rw [length other (List.mem_append_left _ known)]
    have unlike := unmatched other known
    rw [Bool.not_eq_true', ← Bool.not_eq_true, RegularExpression.rmatch_iff_matches'] at unlike
    exact longest_less unlike some
  · intro other known
    rw [length other (by simp [known])]
    exact longest_le _ _ _

/-- The same in front of what no rule goes on with. -/
theorem choose_ahead (free : ∀ rule ∈ rules, rule.bol = false) (some : w ≠ [])
    (found : rules.find? (fun rule => rule.pattern.rmatch w) = .some rule)
    (ends : ∀ rule ∈ rules, Ends rule.pattern w rest) :
    choose atBol (w ++ rest) rules = .some (w.length, rule) := by
  rw [choose_append ends, choose_whole free some found]

/-- Rules that differ in what their actions deliver take the same texts. -/
theorem choose_rel {υ : Type} {R : Rule α τ → Rule α υ → Prop} (atBol : Bool) (w : List α)
    (same : ∀ rule other, R rule other → rule.bol = other.bol ∧ rule.pattern = other.pattern)
    {rules : List (Rule α τ)} {others : List (Rule α υ)} (related : List.Forall₂ R rules others) :
    Option.Rel (fun taken taken' => taken.1 = taken'.1 ∧ R taken.2 taken'.2) (choose atBol w rules)
      (choose atBol w others) := by
  induction related with
  | nil => exact .none
  | @cons rule other rules others here _ ih =>
    have length : matchLength atBol w rule = matchLength atBol w other := by
      obtain ⟨bol, pattern⟩ := same rule other here
      rw [matchLength, matchLength, bol, pattern]
    rw [choose, choose, length]
    revert ih
    generalize choose atBol w rules = taken
    generalize choose atBol w others = taken'
    intro ih
    cases ih with
    | none =>
      simp only
      split
      · exact .none
      · exact .some ⟨rfl, here⟩
    | @some best best' later =>
      obtain ⟨m, rule'⟩ := best
      obtain ⟨m', other'⟩ := best'
      obtain ⟨rfl, there⟩ := later
      simp only
      split
      · exact .some ⟨rfl, here⟩
      · exact .some ⟨rfl, there⟩

end Flex
