import Mathlib.Computability.RegularExpressions
import Mathlib.Tactic.Common

namespace Regex

variable {α : Type*}

def anyOf (symbols : List α) : RegularExpression α :=
  symbols.foldr (fun symbol r => .char symbol + r) 0

def lit (symbols : List α) : RegularExpression α :=
  symbols.foldr (fun symbol r => .char symbol * r) 1

def opt (r : RegularExpression α) : RegularExpression α := 1 + r

def upTo (r : RegularExpression α) : Nat → RegularExpression α
  | 0 => 1
  | n + 1 => 1 + r * upTo r n

/-- From `low` to `high` times. -/
def rep (low high : Nat) (r : RegularExpression α) : RegularExpression α := r ^ low * upTo r (high - low)

variable {r : RegularExpression α} {s : List α}

theorem mem_anyOf {symbols : List α} : s ∈ (anyOf symbols).matches' ↔ ∃ symbol ∈ symbols, s = [symbol] := by
  induction symbols with
  | nil => exact iff_of_false (Language.notMem_zero s) (by simp)
  | cons first symbols ih =>
    show s ∈ (RegularExpression.char first + anyOf symbols).matches' ↔ _
    rw [RegularExpression.matches'_add, Language.mem_add, ih, List.exists_mem_cons_iff]
    rfl

theorem mem_lit {symbols : List α} : s ∈ (lit symbols).matches' ↔ s = symbols := by
  induction symbols generalizing s with
  | nil => exact Language.mem_one s
  | cons first symbols ih =>
    show s ∈ (RegularExpression.char first * lit symbols).matches' ↔ _
    rw [RegularExpression.matches'_mul, Language.mem_mul]
    constructor
    · rintro ⟨one, same, rest, matched, rfl⟩
      obtain rfl : one = [first] := same
      rw [ih.mp matched, List.singleton_append]
    · rintro rfl
      exact ⟨[first], rfl, symbols, ih.mpr rfl, rfl⟩

theorem mem_mul {left right : RegularExpression α} :
    s ∈ (left * right).matches' ↔ ∃ a ∈ left.matches', ∃ b ∈ right.matches', a ++ b = s := Language.mem_mul

theorem mem_add {left right : RegularExpression α} :
    s ∈ (left + right).matches' ↔ s ∈ left.matches' ∨ s ∈ right.matches' := Language.mem_add _ _ s

theorem mem_opt : s ∈ (opt r).matches' ↔ s = [] ∨ s ∈ r.matches' := by
  rw [opt, mem_add]
  rfl

theorem mem_pow {n : Nat} : s ∈ (r ^ n).matches' ↔
    ∃ pieces : List (List α), s = pieces.flatten ∧ pieces.length = n ∧ ∀ piece ∈ pieces, piece ∈ r.matches' := by
  rw [RegularExpression.matches'_pow, Language.mem_pow]

theorem mem_upTo {n : Nat} : s ∈ (upTo r n).matches' ↔
    ∃ pieces : List (List α), s = pieces.flatten ∧ pieces.length ≤ n ∧ ∀ piece ∈ pieces, piece ∈ r.matches' := by
  induction n generalizing s with
  | zero =>
    constructor
    · intro empty
      exact ⟨[], (Language.mem_one s).mp empty, le_refl 0, by simp⟩
    · rintro ⟨pieces, rfl, none, -⟩
      rw [List.length_eq_zero_iff.mp (Nat.le_zero.mp none)]
      exact Language.nil_mem_one
  | succ n ih =>
    rw [upTo, mem_add, mem_mul]
    constructor
    · rintro (empty | ⟨first, matched, rest, more, rfl⟩)
      · exact ⟨[], (Language.mem_one s).mp empty, Nat.zero_le _, by simp⟩
      · obtain ⟨pieces, rfl, few, all⟩ := ih.mp more
        exact ⟨first :: pieces, rfl, Nat.succ_le_succ few, List.forall_mem_cons.mpr ⟨matched, all⟩⟩
    · rintro ⟨pieces, rfl, few, all⟩
      cases pieces with
      | nil => exact .inl Language.nil_mem_one
      | cons first pieces =>
        rw [List.forall_mem_cons] at all
        exact .inr ⟨first, all.1, pieces.flatten, ih.mpr ⟨pieces, rfl, Nat.le_of_succ_le_succ few, all.2⟩, rfl⟩

theorem mem_rep {low high : Nat} (range : low ≤ high) : s ∈ (rep low high r).matches' ↔
    ∃ pieces : List (List α), s = pieces.flatten ∧ (low ≤ pieces.length ∧ pieces.length ≤ high) ∧
      ∀ piece ∈ pieces, piece ∈ r.matches' := by
  rw [rep, mem_mul]
  constructor
  · rintro ⟨a, least, b, more, rfl⟩
    obtain ⟨first, rfl, count, all⟩ := mem_pow.mp least
    obtain ⟨rest, rfl, few, others⟩ := mem_upTo.mp more
    refine ⟨first ++ rest, List.flatten_append.symm, ?_, ?_⟩
    · rw [List.length_append]
      omega
    · intro piece member
      rcases List.mem_append.mp member with here | there
      · exact all piece here
      · exact others piece there
  · rintro ⟨pieces, rfl, ⟨least, most⟩, all⟩
    refine ⟨(pieces.take low).flatten, mem_pow.mpr ⟨pieces.take low, rfl, ?_, ?_⟩, (pieces.drop low).flatten,
      mem_upTo.mpr ⟨pieces.drop low, rfl, ?_, ?_⟩, ?_⟩
    · rw [List.length_take]
      omega
    · exact fun piece member => all piece (List.mem_of_mem_take member)
    · rw [List.length_drop]
      omega
    · exact fun piece member => all piece (List.mem_of_mem_drop member)
    · rw [← List.flatten_append, List.take_append_drop]

/-- A repeated class is a word over it of a length in the range. -/
theorem mem_rep_anyOf {low high : Nat} (range : low ≤ high) {symbols : List α} :
    s ∈ (rep low high (anyOf symbols)).matches' ↔
      (low ≤ s.length ∧ s.length ≤ high) ∧ ∀ symbol ∈ s, symbol ∈ symbols := by
  rw [mem_rep range]
  constructor
  · rintro ⟨pieces, rfl, few, all⟩
    have single : ∀ piece ∈ pieces, ∃ symbol ∈ symbols, piece = [symbol] :=
      fun piece member => mem_anyOf.mp (all piece member)
    have length : pieces.flatten.length = pieces.length := by
      clear few all range
      induction pieces with
      | nil => rfl
      | cons piece pieces ih =>
        obtain ⟨symbol, -, rfl⟩ := single piece List.mem_cons_self
        have rest := ih fun piece member => single piece (List.mem_cons_of_mem _ member)
        simp only [List.flatten_cons, List.length_append, rest, List.length_cons, List.length_nil]
        omega
    refine ⟨length.symm ▸ few, ?_⟩
    intro symbol member
    obtain ⟨piece, inside, here⟩ := List.mem_flatten.mp member
    obtain ⟨one, known, rfl⟩ := single piece inside
    rw [List.mem_singleton.mp here]
    exact known
  · rintro ⟨few, all⟩
    refine ⟨s.map fun symbol => [symbol], ?_, ?_, ?_⟩
    · rw [← List.flatMap_def, List.flatMap_singleton']
    · rw [List.length_map]
      exact few
    · intro piece member
      obtain ⟨symbol, inside, rfl⟩ := List.mem_map.mp member
      exact mem_anyOf.mpr ⟨symbol, all symbol inside, rfl⟩

theorem mem_star_anyOf {symbols : List α} (matched : s ∈ (anyOf symbols).star.matches') :
    ∀ symbol ∈ s, symbol ∈ symbols := by
  rw [RegularExpression.matches'_star, Language.mem_kstar] at matched
  obtain ⟨pieces, rfl, all⟩ := matched
  intro symbol member
  obtain ⟨piece, inside, here⟩ := List.mem_flatten.mp member
  obtain ⟨one, known, rfl⟩ := mem_anyOf.mp (all piece inside)
  rw [List.mem_singleton.mp here]
  exact known

end Regex
