import VyattaCfg.Cliexec.CliDef
import VyattaCfg.Library.Grammar
import Mathlib.Data.Fintype.OfMap
import Mathlib.Tactic.Abel

namespace VyattaCfg.Cliexec

open Computability Grammar

section Rules

inductive Nonterminal where
  | input | otherinput | tag | type | cause | dummyStmt | helpCause | defaultCause | priorityStmt | secretStmt
  | enumerationStmt | chelpStmt | allowedStmt | vhelpStmt | syntaxCause | action0 | action | exp | assignExp | val
  | val0 | syntaxError
  deriving DecidableEq

instance : Fintype Nonterminal :=
  Fintype.ofList [.input, .otherinput, .tag, .type, .cause, .dummyStmt, .helpCause, .defaultCause, .priorityStmt,
    .secretStmt, .enumerationStmt, .chelpStmt, .allowedStmt, .vhelpStmt, .syntaxCause, .action0, .action, .exp,
    .assignExp, .val, .val0, .syntaxError] (by intro A; cases A <;> decide)

abbrev GrammarSymbol := Symbol Token Nonterminal

def t (token : Token) : GrammarSymbol := .terminal token

def n (nonterminal : Nonterminal) : GrammarSymbol := .nonterminal nonterminal

/-- The rules of cli_parse.y. The precedences choose among the trees of a text, not among the texts, and so does
    the choice of a shift where a line break may also follow an empty tag. -/
def alternatives : Nonterminal → List (List GrammarSymbol)
  | .input => [[n .tag], [t .eol, n .input], [n .tag, n .otherinput]]
  | .otherinput => [[n .type, t .eol], [n .cause, t .eol], [n .otherinput, n .type, t .eol],
      [n .otherinput, n .cause, t .eol], [n .otherinput, t .eol], [t .eol], [n .syntaxError]]
  | .tag => [[], [t .tag, t .eol], [t .tag, t .value], [t .multi, t .eol], [t .multi, t .value]]
  | .type => [[t .type, t .typeDef, t .comma, t .typeDef], [t .type, t .typeDef, t .semi, t .string],
      [t .type, t .typeDef]]
  | .cause => [[n .helpCause], [n .defaultCause], [n .priorityStmt], [n .secretStmt], [n .enumerationStmt],
      [n .chelpStmt], [n .allowedStmt], [n .vhelpStmt], [n .syntaxCause], [t .action, n .action], [n .dummyStmt]]
  | .dummyStmt => [[t .dummy, t .string]]
  | .helpCause => [[t .help, t .string]]
  | .defaultCause => [[t .default, t .value], [t .default, t .string]]
  | .priorityStmt => [[t .priority, t .value]]
  | .secretStmt => [[t .secret]]
  | .enumerationStmt => [[t .enumeration, t .string]]
  | .chelpStmt => [[t .chelp, t .string]]
  | .allowedStmt => [[t .allowed, t .string]]
  | .vhelpStmt => [[t .vhelp, t .string]]
  | .syntaxCause => [[t .syntaxField, n .action], [t .sub, n .assignExp], [t .commit, n .action]]
  | .action0 => [[t .string]]
  | .action => [[n .action0], [n .action0, t .semi, t .string], [n .exp]]
  | .exp => [[t .lp, n .exp, t .rp], [n .exp, t .and, n .exp], [n .exp, t .or, n .exp], [n .val, t .cond, n .val],
      [t .pattern, t .var, t .string], [t .exec, t .string], [t .not, n .exp], [n .exp, t .semi, t .string],
      [t .var, t .assign, n .val]]
  | .assignExp => [[t .var, t .assign, n .val], [n .assignExp, t .and, n .assignExp],
      [n .assignExp, t .or, n .assignExp], [n .assignExp, t .semi, t .string]]
  | .val => [[t .var], [n .val0], [t .exString]]
  | .val0 => [[t .value], [n .val0, t .comma, n .val0], [t .string]]
  | .syntaxError => [[t .syntaxError]]

@[reducible] def cliParse : ContextFreeGrammar Token := ofAlternatives .input alternatives

def wordsOf (A : Nonterminal) : Language Token := derived cliParse A

/-- The equation of each nonterminal, from its rules. -/
theorem wordsOf_eq (A : Nonterminal) :
    wordsOf A = ((alternatives A).map fun output => (output.map (words cliParse)).prod).sum := derived_eq A

theorem words_t (token : Token) : words cliParse (t token) = {[token]} := rfl

theorem words_n (A : Nonterminal) : words cliParse (n A) = wordsOf A := rfl

end Rules

section Shape

/-- One line of `otherinput`. -/
def line : Language Token := wordsOf .type * {[.eol]} + wordsOf .cause * {[.eol]} + {[.eol]}

theorem nil_notMem_line : [] ∉ line := by
  intro empty
  have ended : ∀ l : Language Token, [] ∉ l * {[Token.eol]} := by
    intro l inside
    obtain ⟨a, -, b, one, none⟩ := Language.mem_mul.mp inside
    obtain rfl : b = [.eol] := one
    simp at none
  rcases empty with (first | second) | third
  · exact ended _ first
  · exact ended _ second
  · cases third

theorem syntaxError_eq : wordsOf .syntaxError = {[.syntaxError]} := by
  simp [wordsOf_eq, alternatives, words_t]

theorem otherinput_eq : wordsOf .otherinput = (line + {[.syntaxError]}) * line∗ := by
  apply left_recursion nil_notMem_line
  calc wordsOf .otherinput
      = wordsOf .type * {[.eol]} + (wordsOf .cause * {[.eol]} + (wordsOf .otherinput * (wordsOf .type * {[.eol]}) +
          (wordsOf .otherinput * (wordsOf .cause * {[.eol]}) + (wordsOf .otherinput * {[.eol]} +
            ({[.eol]} + {[.syntaxError]}))))) := by
        apply (wordsOf_eq .otherinput).trans
        simp only [alternatives, List.map_cons, List.map_nil, List.sum_cons, List.sum_nil, List.prod_cons,
          List.prod_nil, words_t, words_n, syntaxError_eq, mul_one, add_zero]
    _ = wordsOf .otherinput * line + (line + {[.syntaxError]}) := by
        rw [line, mul_add, mul_add]
        abel

theorem input_eq : wordsOf .input = KStar.kstar {[.eol]} * (wordsOf .tag + wordsOf .tag * wordsOf .otherinput) := by
  have equation : wordsOf .input = {[.eol]} * wordsOf .input + (wordsOf .tag + wordsOf .tag * wordsOf .otherinput) := by
    calc wordsOf .input
        = wordsOf .tag + ({[.eol]} * wordsOf .input + wordsOf .tag * wordsOf .otherinput) := by
          apply (wordsOf_eq .input).trans
          simp only [alternatives, List.map_cons, List.map_nil, List.sum_cons, List.sum_nil, List.prod_cons,
            List.prod_nil, words_t, words_n, mul_one, add_zero]
      _ = {[.eol]} * wordsOf .input + (wordsOf .tag + wordsOf .tag * wordsOf .otherinput) := by
        abel
  refine (Language.self_eq_mul_add_iff ?_).mp equation
  intro empty
  cases empty

end Shape

section BadToken

/-- The nonterminals that do not lead to SYNTAX_ERROR. -/
def Fine (A : Nonterminal) : Prop := A ≠ .input ∧ A ≠ .otherinput ∧ A ≠ .syntaxError

instance (A : Nonterminal) : Decidable (Fine A) := inferInstanceAs (Decidable (_ ∧ _ ∧ _))

theorem fine_closed {A : Nonterminal} (fine : Fine A) :
    ∀ output ∈ alternatives A, ∀ s ∈ output, Clean Fine Token.syntaxError s := by
  obtain ⟨first, second, third⟩ := fine
  cases A <;> simp_all [alternatives, Clean, Fine, t, n]

theorem fine_without {A : Nonterminal} (fine : Fine A) : Without Token.syntaxError (wordsOf A) := by
  have closed : ∀ rule ∈ cliParse.rules, Fine rule.input → ∀ s ∈ rule.output, Clean Fine Token.syntaxError s := by
    intro rule known start
    exact fine_closed start rule.output (mem_rules.mp known)
  intro word derives
  exact notMem_derived closed fine derives

theorem line_without : Without Token.syntaxError line := by
  have eol : Without Token.syntaxError {[Token.eol]} := .singleton (by decide)
  exact (((fine_without (by decide)).mul eol).add ((fine_without (by decide)).mul eol)).add eol

/-- The files that are accepted with the token: it is the first one behind the line breaks and the tag that the
    file starts with, and lines follow. -/
def BadTokenOpens (tokens : List Token) : Prop :=
  tokens ∈ KStar.kstar {[.eol]} * wordsOf .tag * {[.syntaxError]} * line∗

/-- With the token in it a text is one of the grammar only if it is the first thing behind the tag. -/
theorem bad_language_iff {tokens : List Token} (delivered : .syntaxError ∈ tokens) :
    tokens ∈ cliParse.language ↔ BadTokenOpens tokens := by
  have split : wordsOf .input =
      KStar.kstar {[.eol]} * (wordsOf .tag + wordsOf .tag * (line * line∗)) +
        KStar.kstar {[.eol]} * wordsOf .tag * {[.syntaxError]} * line∗ := by
    rw [input_eq, otherinput_eq, add_mul, mul_add (wordsOf .tag), ← add_assoc, mul_add]
    simp only [mul_assoc]
  have clean : Without Token.syntaxError (KStar.kstar {[.eol]} * (wordsOf .tag + wordsOf .tag * (line * line∗))) := by
    have tag : Without Token.syntaxError (wordsOf .tag) := fine_without (by decide)
    have eols : Without Token.syntaxError (KStar.kstar {[Token.eol]}) := (Without.singleton (by decide)).kstar
    exact eols.mul (tag.add (tag.mul (line_without.mul line_without.kstar)))
  have member : tokens ∈ cliParse.language ↔ tokens ∈ wordsOf .input := Iff.rfl
  rw [member, split, Language.mem_add]
  constructor
  · intro parsed
    rcases parsed with without | opens
    · exact absurd delivered (clean tokens without)
    · exact opens
  · exact Or.inr

/-- A second bad token is always reported. -/
theorem BadTokenOpens.once {tokens : List Token} (opens : BadTokenOpens tokens) : tokens.count .syntaxError = 1 := by
  obtain ⟨front, opened, behind, lines, rfl⟩ := Language.mem_mul.mp opens
  obtain ⟨before, clean, bad, one, rfl⟩ := Language.mem_mul.mp opened
  obtain rfl : bad = [.syntaxError] := one
  have eols : Without Token.syntaxError (KStar.kstar {[Token.eol]}) := (Without.singleton (by decide)).kstar
  have first := eols.mul (fine_without (A := .tag) (by decide)) before clean
  have last := line_without.kstar behind lines
  rw [List.count_append, List.count_append, List.count_eq_zero.mpr first, List.count_eq_zero.mpr last]
  rfl

theorem badTokenOpens_eols (k : Nat) : BadTokenOpens (.syntaxError :: List.replicate k .eol) := by
  have tag : [] ∈ wordsOf .tag := by
    rw [wordsOf_eq]
    exact Or.inl rfl
  have front := Language.append_mem_mul (Language.nil_mem_kstar {[Token.eol]}) tag
  have eols : List.replicate k Token.eol = (List.replicate k [Token.eol]).flatten := by
    induction k with
    | zero => rfl
    | succ k ih => rw [List.replicate_succ, ih, List.replicate_succ, List.flatten_cons, List.singleton_append]
  have lines : (List.replicate k [Token.eol]).flatten ∈ line∗ := by
    apply Language.join_mem_kstar
    intro piece listed
    rw [List.eq_of_mem_replicate listed]
    exact Or.inr rfl
  rw [eols]
  exact Language.append_mem_mul (Language.append_mem_mul front (Set.mem_singleton [Token.syntaxError])) lines

end BadToken

end VyattaCfg.Cliexec
