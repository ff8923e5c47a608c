import Mathlib.Computability.RegularExpressions
import Mathlib.Tactic.Common

namespace Flex

/-- A rule of a scanner: with `bol` it only matches at the beginning of a line. -/
structure Rule (α τ : Type) where
  bol : Bool
  pattern : RegularExpression α
  action : List α → τ

variable {α τ : Type} [DecidableEq α]

/-- The length of the longest prefix that a pattern matches, up to a limit. -/
def longest (r : RegularExpression α) (s : List α) : Nat → Nat
  | 0 => 0
  | n + 1 => if r.rmatch (s.take (n + 1)) then n + 1 else longest r s n

def matchLength (atBol : Bool) (s : List α) (rule : Rule α τ) : Nat :=
  if rule.bol && !atBol then 0 else longest rule.pattern s s.length

/-- The rule with the longest match, the first of them where several match as much. -/
def choose (atBol : Bool) (s : List α) : List (Rule α τ) → Option (Nat × Rule α τ)
  | [] => none
  | rule :: rules =>
    let n := matchLength atBol s rule
    match choose atBol s rules with
    | none => if n = 0 then none else some (n, rule)
    | some (m, other) => if m ≤ n then some (n, rule) else some (m, other)

/-- What the actions deliver. A symbol that no rule matches is passed over. -/
def scan (rules : List (Rule α τ)) (newline : α) : Nat → Bool → List α → List τ
  | 0, _, _ => []
  | _ + 1, _, [] => []
  | fuel + 1, atBol, c :: s =>
    match choose atBol (c :: s) rules with
    | none => scan rules newline fuel (c = newline) s
    | some (n, rule) =>
      rule.action ((c :: s).take n) ::
        scan rules newline fuel (((c :: s).take n).getLast? = some newline) ((c :: s).drop n)

/-- Every match takes at least one symbol, so that the length of the input is enough. -/
def tokens (rules : List (Rule α τ)) (newline : α) (s : List α) : List τ := scan rules newline s.length true s

/-- The rule may start at `s` and matches `n` symbols of it. -/
structure Matches (atBol : Bool) (s : List α) (rule : Rule α τ) (n : Nat) : Prop where
  bol : rule.bol = true → atBol = true
  some : 0 < n
  inside : n ≤ s.length
  mem : s.take n ∈ rule.pattern.matches'

variable {atBol : Bool} {s : List α} {rule : Rule α τ} {rules : List (Rule α τ)} {n : Nat}

theorem longest_le (r : RegularExpression α) (s : List α) (n : Nat) : longest r s n ≤ n := by
  induction n with
  | zero => exact le_refl 0
  | succ n ih =>
    rw [longest]
    split
    · exact le_refl _
    · omega

theorem longest_mem {r : RegularExpression α} {s : List α} {n : Nat} (found : longest r s n ≠ 0) :
    s.take (longest r s n) ∈ r.matches' := by
  induction n with
  | zero => exact absurd rfl found
  | succ n ih =>
    rw [longest] at found ⊢
    split
    · rename_i matched
      exact (RegularExpression.rmatch_iff_matches' _ _).mp matched
    · rename_i unmatched
      rw [if_neg unmatched] at found
      exact ih found

theorem matchLength_matches (nonzero : matchLength atBol s rule ≠ 0) :
    Matches atBol s rule (matchLength atBol s rule) := by
  unfold matchLength at nonzero ⊢
  split at nonzero
  · exact absurd rfl nonzero
  · rename_i free
    rw [if_neg free]
    refine ⟨?_, Nat.pos_of_ne_zero nonzero, longest_le _ _ _, longest_mem nonzero⟩
    intro anchored
    simpa [anchored] using free

theorem choose_matches (chosen : choose atBol s rules = some (n, rule)) : rule ∈ rules ∧ Matches atBol s rule n := by
  induction rules generalizing n rule with
  | nil => cases chosen
  | cons first rules ih =>
    rw [choose] at chosen
    cases rest : choose atBol s rules with
    | none =>
      simp only [rest] at chosen
      split at chosen
      · cases chosen
      · rename_i nonzero
        obtain ⟨rfl, rfl⟩ := Prod.mk.inj (Option.some.inj chosen)
        exact ⟨List.mem_cons_self, matchLength_matches nonzero⟩
    | some best =>
      obtain ⟨m, other⟩ := best
      obtain ⟨member, matched⟩ := ih rest
      simp only [rest] at chosen
      split at chosen
      · rename_i longer
        obtain ⟨rfl, rfl⟩ := Prod.mk.inj (Option.some.inj chosen)
        have positive := matched.some
        exact ⟨List.mem_cons_self, matchLength_matches (by omega)⟩
      · obtain ⟨rfl, rfl⟩ := Prod.mk.inj (Option.some.inj chosen)
        exact ⟨List.mem_cons_of_mem _ member, matched⟩

/-- Everything that is delivered comes from a rule and a text that it matches. -/
theorem mem_scan {newline : α} {fuel : Nat} {token : τ} (delivered : token ∈ scan rules newline fuel atBol s) :
    ∃ rule ∈ rules, ∃ text, text <:+: s ∧ text ∈ rule.pattern.matches' ∧ rule.action text = token := by
  induction fuel generalizing atBol s with
  | zero => cases delivered
  | succ fuel ih =>
    cases s with
    | nil => cases delivered
    | cons c s =>
      rw [scan] at delivered
      cases chosen : choose atBol (c :: s) rules with
      | none =>
        simp only [chosen] at delivered
        obtain ⟨rule, known, text, inside, matched⟩ := ih delivered
        exact ⟨rule, known, text, inside.trans (List.suffix_cons c s).isInfix, matched⟩
      | some best =>
        obtain ⟨n, rule⟩ := best
        obtain ⟨known, matches'⟩ := choose_matches chosen
        simp only [chosen] at delivered
        rcases List.mem_cons.mp delivered with here | later
        · exact ⟨rule, known, _, (List.take_prefix n _).isInfix, matches'.mem, here.symm⟩
        · obtain ⟨rule, known, text, inside, matched⟩ := ih later
          exact ⟨rule, known, text, inside.trans (List.drop_suffix n _).isInfix, matched⟩

end Flex
