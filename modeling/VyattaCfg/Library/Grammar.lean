import Mathlib.Computability.ContextFreeGrammar
import Mathlib.Data.Finset.Union
import Mathlib.Data.Fintype.Defs
import Mathlib.Tactic.Common

open Computability

namespace Grammar

section Words

variable {T : Type} {g : ContextFreeGrammar T} {u v w : List (Symbol T g.NT)}

theorem produces_append (step : g.Produces (u ++ v) w) :
    (∃ u', g.Produces u u' ∧ w = u' ++ v) ∨ ∃ v', g.Produces v v' ∧ w = u ++ v' := by
  obtain ⟨rule, known, rewrites⟩ := step
  obtain ⟨p, q, same, rfl⟩ := rewrites.exists_parts
  rw [List.append_assoc] at same
  rcases List.append_eq_append_iff.mp same with ⟨middle, rfl, rfl⟩ | ⟨middle, rfl, tail⟩
  · right
    refine ⟨middle ++ rule.output ++ q, ⟨rule, known, ?_⟩, by simp⟩
    rw [← List.append_assoc]
    exact rule.rewrites_of_exists_parts middle q
  · cases middle with
    | nil =>
      right
      refine ⟨rule.output ++ q, ⟨rule, known, ?_⟩, by simp⟩
      rw [List.nil_append] at tail
      rw [← tail]
      exact .head q
    | cons first middle =>
      left
      obtain ⟨rfl, rfl⟩ := List.cons.inj tail
      refine ⟨p ++ rule.output ++ middle, ⟨rule, known, ?_⟩, by simp⟩
      have rewritten := rule.rewrites_of_exists_parts p middle
      rw [List.append_assoc, List.singleton_append] at rewritten
      exact rewritten

theorem derives_append : g.Derives (u ++ v) w ↔ ∃ a b, g.Derives u a ∧ g.Derives v b ∧ w = a ++ b := by
  constructor
  · intro derives
    induction derives with
    | refl => exact ⟨u, v, .refl u, .refl v, rfl⟩
    | tail _ step ih =>
      obtain ⟨a, b, left, right, rfl⟩ := ih
      rcases produces_append step with ⟨a', first, rfl⟩ | ⟨b', second, rfl⟩
      · exact ⟨a', b, left.tail first, right, rfl⟩
      · exact ⟨a, b', left, right.tail second, rfl⟩
  · intro parts
    obtain ⟨a, b, left, right, rfl⟩ := parts
    exact (left.append_right v).trans (right.append_left a)

/-- The words of a nonterminal. -/
def derived (g : ContextFreeGrammar T) (A : g.NT) : Language T :=
  { word | g.Derives [.nonterminal A] (word.map .terminal) }

def words (g : ContextFreeGrammar T) : Symbol T g.NT → Language T
  | .terminal t => {[t]}
  | .nonterminal A => derived g A

theorem derives_terminals {word : List T} (derives : g.Derives (word.map .terminal) w) : w = word.map .terminal := by
  rcases derives.eq_or_head with same | ⟨next, step, -⟩
  · exact same.symm
  · obtain ⟨rule, -, inside⟩ := step.exists_nonterminal_input_mem
    simp at inside

theorem derives_symbol {s : Symbol T g.NT} {word : List T} :
    g.Derives [s] (word.map .terminal) ↔ word ∈ words g s := by
  cases s with
  | nonterminal A => exact Iff.rfl
  | terminal t =>
    constructor
    · intro derives
      have same : word.map Symbol.terminal = [t].map (Symbol.terminal (N := g.NT)) := derives_terminals derives
      exact List.map_injective_iff.mpr (fun _ _ => Symbol.terminal.inj) same
    · intro one
      obtain rfl : word = [t] := one
      exact .refl _

/-- The words of a sequence of symbols are those of the symbols, one behind the other. -/
theorem derives_iff {word : List T} : g.Derives u (word.map .terminal) ↔ word ∈ (u.map (words g)).prod := by
  induction u generalizing word with
  | nil =>
    rw [List.map_nil, List.prod_nil, Language.mem_one]
    constructor
    · intro derives
      have none : g.Derives (([] : List T).map .terminal) (word.map .terminal) := derives
      exact List.map_eq_nil_iff.mp (derives_terminals none)
    · intro empty
      rw [empty]
      exact .refl _
  | cons s u ih =>
    rw [List.map_cons, List.prod_cons, Language.mem_mul, ← List.singleton_append, derives_append]
    constructor
    · intro parts
      obtain ⟨a, b, left, right, same⟩ := parts
      obtain ⟨first, rest, rfl, rfl, rfl⟩ := List.map_eq_append_iff.mp same
      exact ⟨first, derives_symbol.mp left, rest, ih.mp right, rfl⟩
    · intro parts
      obtain ⟨first, left, rest, right, rfl⟩ := parts
      exact ⟨_, _, derives_symbol.mpr left, ih.mpr right, List.map_append⟩

theorem mem_derived {A : g.NT} {word : List T} :
    word ∈ derived g A ↔ ∃ rule ∈ g.rules, rule.input = A ∧ word ∈ (rule.output.map (words g)).prod := by
  constructor
  · intro derives
    rcases Relation.ReflTransGen.cases_head derives with same | ⟨next, ⟨rule, known, rewrites⟩, rest⟩
    · have inside : Symbol.nonterminal A ∈ word.map Symbol.terminal := same ▸ List.mem_singleton_self _
      simp at inside
    · obtain ⟨p, q, same, rfl⟩ := rewrites.exists_parts
      cases p with
      | cons first p => simp at same
      | nil =>
        obtain ⟨one, empty⟩ := List.cons.inj same
        obtain rfl : [] = q := empty
        rw [List.nil_append, List.append_nil] at rest
        exact ⟨rule, known, (Symbol.nonterminal.inj one).symm, derives_iff.mp rest⟩
  · intro rewritten
    obtain ⟨rule, known, rfl, inside⟩ := rewritten
    exact .head ⟨rule, known, .input_output⟩ (derives_iff.mpr inside)

/-- Tokens that carry values are read as the symbols of a rule, those of a nonterminal `A` as `F A` says. -/
def Reads {V N : Type} (kind : V → T) (F : N → List V → Prop) : List (Symbol T N) → List V → Prop
  | [], tokens => tokens = []
  | .terminal t :: symbols, tokens => ∃ token rest, tokens = token :: rest ∧ kind token = t ∧ Reads kind F symbols rest
  | .nonterminal A :: symbols, tokens => ∃ own rest, tokens = own ++ rest ∧ F A own ∧ Reads kind F symbols rest

section Valued

variable {V N : Type} {kind : V → T} {F : N → List V → Prop}

theorem reads_append {first second : List (Symbol T N)} {tokens : List V} :
    Reads kind F (first ++ second) tokens ↔
      ∃ own rest, tokens = own ++ rest ∧ Reads kind F first own ∧ Reads kind F second rest := by
  induction first generalizing tokens with
  | nil =>
    constructor
    · exact fun reads => ⟨[], tokens, rfl, rfl, reads⟩
    · rintro ⟨own, rest, rfl, none, reads⟩
      cases none
      exact reads
  | cons symbol first ih =>
    cases symbol with
    | terminal t =>
      simp only [List.cons_append, Reads, ih]
      constructor
      · rintro ⟨token, _, rfl, here, own, rest, rfl, reads, reads'⟩
        exact ⟨token :: own, rest, rfl, ⟨token, own, rfl, here, reads⟩, reads'⟩
      · rintro ⟨_, rest, rfl, ⟨token, own, rfl, here, reads⟩, reads'⟩
        exact ⟨token, own ++ rest, rfl, here, own, rest, rfl, reads, reads'⟩
    | nonterminal A =>
      simp only [List.cons_append, Reads, ih]
      constructor
      · rintro ⟨front, _, rfl, here, own, rest, rfl, reads, reads'⟩
        exact ⟨front ++ own, rest, (List.append_assoc _ _ _).symm, ⟨front, own, rfl, here, reads⟩, reads'⟩
      · rintro ⟨_, rest, rfl, ⟨front, own, rfl, here, reads⟩, reads'⟩
        exact ⟨front, own ++ rest, List.append_assoc _ _ _, here, own, rest, rfl, reads, reads'⟩

theorem reads_terminals (tokens : List V) : Reads kind F ((tokens.map kind).map .terminal) tokens := by
  induction tokens with
  | nil => rfl
  | cons token tokens ih => exact ⟨token, tokens, rfl, rfl, ih⟩

theorem mem_prod_of_reads {symbols : List (Symbol T g.NT)} {tokens : List V}
    (reads : Reads kind (fun A own => own.map kind ∈ derived g A) symbols tokens) :
    tokens.map kind ∈ (symbols.map (words g)).prod := by
  induction symbols generalizing tokens with
  | nil =>
    cases reads
    exact Language.nil_mem_one
  | cons symbol symbols ih =>
    rw [List.map_cons, List.prod_cons]
    cases symbol with
    | terminal t =>
      obtain ⟨token, rest, rfl, rfl, reads⟩ := reads
      exact Language.append_mem_mul (Set.mem_singleton [kind token]) (ih reads)
    | nonterminal A =>
      obtain ⟨own, rest, rfl, here, reads⟩ := reads
      rw [List.map_append]
      exact Language.append_mem_mul here (ih reads)

theorem derived_of_reads {rule : ContextFreeRule T g.NT} (known : rule ∈ g.rules) {tokens : List V}
    (reads : Reads kind (fun A own => own.map kind ∈ derived g A) rule.output tokens) :
    tokens.map kind ∈ derived g rule.input :=
  mem_derived.mpr ⟨rule, known, rfl, mem_prod_of_reads reads⟩

end Valued

/-- What holds of the tokens of a rule, if it holds of those of its nonterminals, holds of all that are derived. -/
theorem derived_induction {V : Type} {kind : V → T} {F : g.NT → List V → Prop} {A : g.NT} {tokens : List V}
    (closed : ∀ rule ∈ g.rules, ∀ own, Reads kind F rule.output own → F rule.input own)
    (derives : tokens.map kind ∈ derived g A) : F A tokens := by
  have run : g.Derives [.nonterminal A] ((tokens.map kind).map .terminal) := derives
  have reads : Reads kind F [Symbol.nonterminal A] tokens := by
    generalize [Symbol.nonterminal A] = form at run ⊢
    induction run using Relation.ReflTransGen.head_induction_on with
    | refl => exact reads_terminals tokens
    | head step _ ih =>
      obtain ⟨rule, known, rewrites⟩ := step
      obtain ⟨p, q, rfl, rfl⟩ := rewrites.exists_parts
      obtain ⟨_, behind, rfl, reads, reads''⟩ := reads_append.mp ih
      obtain ⟨before, own, rfl, reads, reads'⟩ := reads_append.mp reads
      refine reads_append.mpr ⟨before ++ own, behind, rfl, reads_append.mpr ⟨before, own, rfl, reads, ?_⟩, reads''⟩
      exact ⟨own, [], (List.append_nil _).symm, closed rule known own reads', rfl⟩
  obtain ⟨own, rest, rfl, here, none⟩ := reads
  cases none
  rw [List.append_nil]
  exact here

/-- Symbols none of which leads to the terminal `t`, if the nonterminals in `clean` do not. -/
def Clean {N : Type} (clean : N → Prop) (t : T) : Symbol T N → Prop
  | .terminal s => s ≠ t
  | .nonterminal A => clean A

/-- A terminal stays out of the words of nonterminals whose rules mention neither it nor others. -/
theorem notMem_derived {clean : g.NT → Prop} {t : T} {A : g.NT} {word : List T}
    (closed : ∀ rule ∈ g.rules, clean rule.input → ∀ s ∈ rule.output, Clean clean t s) (start : clean A)
    (derives : word ∈ derived g A) : t ∉ word := by
  -- every form on the way consists of such symbols
  have kept : ∀ s ∈ word.map Symbol.terminal, Clean clean t s := by
    have run : g.Derives [.nonterminal A] (word.map .terminal) := derives
    generalize word.map Symbol.terminal = form at run
    induction run with
    | refl =>
      intro s member
      rw [List.mem_singleton.mp member]
      exact start
    | tail _ step ih =>
      obtain ⟨rule, known, rewrites⟩ := step
      obtain ⟨p, q, rfl, rfl⟩ := rewrites.exists_parts
      have input : clean rule.input := ih (.nonterminal rule.input) (by simp)
      intro s member
      rcases List.mem_append.mp member with front | behind
      · rcases List.mem_append.mp front with before | inside
        · exact ih s (by simp [before])
        · exact closed rule known input s inside
      · exact ih s (by simp [behind])
  intro member
  exact kept (.terminal t) (List.mem_map_of_mem member) rfl

end Words

section Equations

variable {T : Type} {l m n : Language T}

theorem mem_sum {languages : List (Language T)} {word : List T} :
    word ∈ languages.sum ↔ ∃ language ∈ languages, word ∈ language := by
  induction languages with
  | nil => exact iff_of_false (Language.notMem_zero word) (by simp)
  | cons first languages ih =>
    rw [List.sum_cons, Language.mem_add, ih, List.exists_mem_cons_iff]

/-- The solution of a left recursive equation, from that of a right recursive one. -/
theorem left_recursion (filled : [] ∉ m) (equation : l = l * m + n) : l = n * m∗ := by
  have reversed : l.reverse = m.reverse * l.reverse + n.reverse := by
    rw [← Language.reverse_mul, ← Language.reverse_add, ← equation]
  have solved := (Language.self_eq_mul_add_iff (show [] ∉ m.reverse from filled)).mp reversed
  apply Language.reverse_injective
  rw [Language.reverse_mul, Language.reverse_kstar]
  exact solved

end Equations

section Without

variable {T : Type} {t : T} {l m : Language T}

def Without (t : T) (l : Language T) : Prop := ∀ word ∈ l, t ∉ word

theorem Without.add (left : Without t l) (right : Without t m) : Without t (l + m) := by
  intro word inside
  rcases (Language.mem_add l m word).mp inside with first | second
  · exact left word first
  · exact right word second

theorem Without.mul (left : Without t l) (right : Without t m) : Without t (l * m) := by
  intro word inside
  obtain ⟨a, first, b, second, rfl⟩ := Language.mem_mul.mp inside
  rw [List.mem_append, not_or]
  exact ⟨left a first, right b second⟩

theorem Without.kstar (each : Without t l) : Without t l∗ := by
  intro word inside
  obtain ⟨pieces, rfl, all⟩ := Language.mem_kstar.mp inside
  intro member
  obtain ⟨piece, listed, here⟩ := List.mem_flatten.mp member
  exact each piece (all piece listed) here

theorem Without.singleton {s : T} (other : t ≠ s) : Without t {[s]} := by
  intro word inside
  obtain rfl : word = [s] := inside
  rw [List.mem_singleton]
  exact other

end Without

section Alternatives

variable {T N : Type} [DecidableEq T] [DecidableEq N] [Fintype N]

/-- A grammar written down by the alternatives of each nonterminal. -/
@[reducible] def ofAlternatives (start : N) (alternatives : N → List (List (Symbol T N))) : ContextFreeGrammar T where
  NT := N
  initial := start
  rules := Finset.univ.biUnion fun A => ((alternatives A).map (ContextFreeRule.mk A)).toFinset

variable {start : N} {alternatives : N → List (List (Symbol T N))}

theorem mem_rules {rule : ContextFreeRule T N} :
    rule ∈ (ofAlternatives start alternatives).rules ↔ rule.output ∈ alternatives rule.input := by
  simp only [Finset.mem_biUnion, Finset.mem_univ, true_and, List.mem_toFinset, List.mem_map]
  constructor
  · intro listed
    obtain ⟨A, output, known, rfl⟩ := listed
    exact known
  · intro known
    exact ⟨rule.input, rule.output, known, rfl⟩

/-- The equation of a nonterminal. -/
theorem derived_eq (A : N) : derived (ofAlternatives start alternatives) A =
    ((alternatives A).map fun output => (output.map (words (ofAlternatives start alternatives))).prod).sum := by
  ext word
  rw [mem_derived, mem_sum]
  constructor
  · intro rewritten
    obtain ⟨rule, known, rfl, inside⟩ := rewritten
    exact ⟨_, List.mem_map_of_mem (mem_rules.mp known), inside⟩
  · intro listed
    obtain ⟨language, known, inside⟩ := listed
    obtain ⟨output, given, rfl⟩ := List.mem_map.mp known
    exact ⟨⟨A, output⟩, mem_rules.mpr given, rfl, inside⟩

end Alternatives

section Generated

/-- What a parser generator makes of a grammar: zero is returned for its words, one for other
    sequences of tokens, and two where the stack is exhausted on the way. -/
structure Parser {T : Type} (language : Language T) where
  yyparse : List T → Int
  exhausted : List T → Prop
  success : ∀ tokens ∈ language, ¬ exhausted tokens → yyparse tokens = 0
  invalid : ∀ tokens ∉ language, ¬ exhausted tokens → yyparse tokens = 1
  memory : ∀ tokens, exhausted tokens → yyparse tokens = 2

variable {T : Type} {language : Language T}

theorem Parser.yyparse_zero_iff (parser : Parser language) (tokens : List T) :
    parser.yyparse tokens = 0 ↔ tokens ∈ language ∧ ¬ parser.exhausted tokens := by
  by_cases full : parser.exhausted tokens
  · rw [parser.memory tokens full]
    simp [full]
  · by_cases inside : tokens ∈ language
    · rw [parser.success tokens inside full]
      simp [inside, full]
    · rw [parser.invalid tokens inside full]
      simp [inside]

open Classical in
/-- A parser of the language whose stack is never exhausted. -/
noncomputable def Parser.roomy (language : Language T) : Parser language where
  yyparse tokens := if tokens ∈ language then 0 else 1
  exhausted _ := False
  success _ inside _ := if_pos inside
  invalid _ outside _ := if_neg outside
  memory _ full := full.elim

end Generated

end Grammar
