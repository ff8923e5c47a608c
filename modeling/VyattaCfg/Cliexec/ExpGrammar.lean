import VyattaCfg.Cliexec.ExpParser
import VyattaCfg.Cliexec.TemplateGrammar

namespace VyattaCfg.Cliexec

open Grammar Precedence

section Derived

theorem val0_append (first second : Val0) : ∃ values : Val0, values.tokens = first.tokens ++ .comma :: second.tokens := by
  induction second with
  | item last => exact ⟨.comma first last, rfl⟩
  | comma middle last ih =>
    obtain ⟨values, same⟩ := ih
    exact ⟨.comma values last, by rw [Val0.tokens, same, Val0.tokens, List.append_assoc]; rfl⟩

/-- What the tokens of a nonterminal are tokens of. -/
def WrittenAs : Nonterminal → List ExpToken → Prop
  | .exp, tokens => ∃ tree : ExpTree, expTokens tree = tokens
  | .val, tokens => ∃ val : Val, val.tokens = tokens
  | .val0, tokens => ∃ values : Val0, values.tokens = tokens
  | .assignExp, tokens => ∃ tree : ExpTree, (assignOf tree).isSome ∧ expTokens tree = tokens
  | .action0, tokens => ∃ command, tokens = [.string command]
  | .action, tokens =>
    (∃ command, tokens = [.string command]) ∨ (∃ command help, tokens = [.string command, .semi, .string help]) ∨
      ∃ tree : ExpTree, expTokens tree = tokens
  | _, _ => True

theorem expTokens_binary (left right : ExpTree) (op : Connective) :
    expTokens (.binary left op right) = expTokens left ++ op.token :: expTokens right := by
  simp [expTokens, Tree.yield, lexemeTokens]

/-- The tokens that a terminal stands for. -/
def OfKind : Token → ExpToken → Prop
  | .value, token => ∃ value, token = .value value
  | .string, token => ∃ string, token = .string string
  | .var, token => ∃ var, token = .var var
  | .exString, token => ∃ string, token = .exString string
  | .cond, token => ∃ cond, token = .cond cond
  | .pattern, token => token = .pattern
  | .exec, token => token = .exec
  | .not, token => token = .not
  | .and, token => token = .and
  | .or, token => token = .or
  | .assign, token => token = .assign
  | .semi, token => token = .semi
  | .comma, token => token = .comma
  | .lp, token => token = .lp
  | .rp, token => token = .rp
  | _, _ => False

theorem ofKind (token : ExpToken) : OfKind token.token token := by
  cases token <;> first | rfl | exact ⟨_, rfl⟩

variable {F : Nonterminal → List ExpToken → Prop} {symbols : List GrammarSymbol} {tokens : List ExpToken}

theorem reads_t {terminal : Token} (reads : Reads ExpToken.token F (t terminal :: symbols) tokens) :
    ∃ token rest, tokens = token :: rest ∧ OfKind terminal token ∧ Reads ExpToken.token F symbols rest := by
  obtain ⟨token, rest, rfl, rfl, reads⟩ := reads
  exact ⟨token, rest, rfl, ofKind token, reads⟩

theorem reads_n {A : Nonterminal} (reads : Reads ExpToken.token F (n A :: symbols) tokens) :
    ∃ own rest, tokens = own ++ rest ∧ F A own ∧ Reads ExpToken.token F symbols rest := reads

theorem exp_closed {output : List GrammarSymbol} (listed : output ∈ alternatives .exp)
    (reads : Reads ExpToken.token WrittenAs output tokens) : WrittenAs .exp tokens := by
  simp only [alternatives, List.mem_cons, List.not_mem_nil, or_false] at listed
  rcases listed with rfl | rfl | rfl | rfl | rfl | rfl | rfl | rfl | rfl
  · obtain ⟨_, _, rfl, rfl, reads₁⟩ := reads_t reads
    obtain ⟨own, _, rfl, ⟨tree, rfl⟩, reads₂⟩ := reads_n reads₁
    obtain ⟨_, _, rfl, rfl, none⟩ := reads_t reads₂
    cases none
    refine ⟨.group () tree, ?_⟩
    simp [expTokens, Tree.yield, lexemeTokens]
  · obtain ⟨own, _, rfl, ⟨left, rfl⟩, reads₁⟩ := reads_n reads
    obtain ⟨_, _, rfl, rfl, reads₂⟩ := reads_t reads₁
    obtain ⟨own', _, rfl, ⟨right, rfl⟩, none⟩ := reads_n reads₂
    cases none
    exact ⟨.binary left .and right, by rw [expTokens_binary, List.append_nil]; rfl⟩
  · obtain ⟨own, _, rfl, ⟨left, rfl⟩, reads₁⟩ := reads_n reads
    obtain ⟨_, _, rfl, rfl, reads₂⟩ := reads_t reads₁
    obtain ⟨own', _, rfl, ⟨right, rfl⟩, none⟩ := reads_n reads₂
    cases none
    exact ⟨.binary left .or right, by rw [expTokens_binary, List.append_nil]; rfl⟩
  · obtain ⟨own, _, rfl, ⟨left, rfl⟩, reads₁⟩ := reads_n reads
    obtain ⟨_, _, rfl, ⟨op, rfl⟩, reads₂⟩ := reads_t reads₁
    obtain ⟨own', _, rfl, ⟨right, rfl⟩, none⟩ := reads_n reads₂
    cases none
    refine ⟨.atom (.cond left op right), ?_⟩
    simp [expTokens, Tree.yield, lexemeTokens, Atom.tokens]
  · obtain ⟨_, _, rfl, rfl, reads₁⟩ := reads_t reads
    obtain ⟨_, _, rfl, ⟨var, rfl⟩, reads₂⟩ := reads_t reads₁
    obtain ⟨_, _, rfl, ⟨regex, rfl⟩, none⟩ := reads_t reads₂
    cases none
    exact ⟨.atom (.pattern var regex), rfl⟩
  · obtain ⟨_, _, rfl, rfl, reads₁⟩ := reads_t reads
    obtain ⟨_, _, rfl, ⟨command, rfl⟩, none⟩ := reads_t reads₁
    cases none
    exact ⟨.atom (.exec command), rfl⟩
  · obtain ⟨_, _, rfl, rfl, reads₁⟩ := reads_t reads
    obtain ⟨own, _, rfl, ⟨tree, rfl⟩, none⟩ := reads_n reads₁
    cases none
    refine ⟨.unary () tree, ?_⟩
    simp [expTokens, Tree.yield, lexemeTokens]
  · obtain ⟨own, _, rfl, ⟨tree, rfl⟩, reads₁⟩ := reads_n reads
    obtain ⟨_, _, rfl, rfl, reads₂⟩ := reads_t reads₁
    obtain ⟨_, _, rfl, ⟨help, rfl⟩, none⟩ := reads_t reads₂
    cases none
    refine ⟨.suffix tree help, ?_⟩
    simp [expTokens, Tree.yield, lexemeTokens]
  · obtain ⟨_, _, rfl, ⟨var, rfl⟩, reads₁⟩ := reads_t reads
    obtain ⟨_, _, rfl, rfl, reads₂⟩ := reads_t reads₁
    obtain ⟨own, _, rfl, ⟨val, rfl⟩, none⟩ := reads_n reads₂
    cases none
    refine ⟨.atom (.assign var val), ?_⟩
    simp [expTokens, Tree.yield, lexemeTokens, Atom.tokens]

theorem val_closed {output : List GrammarSymbol} (listed : output ∈ alternatives .val)
    (reads : Reads ExpToken.token WrittenAs output tokens) : WrittenAs .val tokens := by
  simp only [alternatives, List.mem_cons, List.not_mem_nil, or_false] at listed
  rcases listed with rfl | rfl | rfl
  · obtain ⟨_, _, rfl, ⟨var, rfl⟩, none⟩ := reads_t reads
    cases none
    exact ⟨.var var, rfl⟩
  · obtain ⟨own, _, rfl, ⟨values, rfl⟩, none⟩ := reads_n reads
    cases none
    exact ⟨.val0 values, (List.append_nil _).symm⟩
  · obtain ⟨_, _, rfl, ⟨token, rfl⟩, none⟩ := reads_t reads
    cases none
    exact ⟨.exString token, rfl⟩

theorem val0_closed {output : List GrammarSymbol} (listed : output ∈ alternatives .val0)
    (reads : Reads ExpToken.token WrittenAs output tokens) : WrittenAs .val0 tokens := by
  simp only [alternatives, List.mem_cons, List.not_mem_nil, or_false] at listed
  rcases listed with rfl | rfl | rfl
  · obtain ⟨_, _, rfl, ⟨value, rfl⟩, none⟩ := reads_t reads
    cases none
    exact ⟨.item (.value value), rfl⟩
  · obtain ⟨own, _, rfl, ⟨first, rfl⟩, reads₁⟩ := reads_n reads
    obtain ⟨_, _, rfl, rfl, reads₂⟩ := reads_t reads₁
    obtain ⟨own', _, rfl, ⟨second, rfl⟩, none⟩ := reads_n reads₂
    cases none
    rw [List.append_nil]
    exact val0_append first second
  · obtain ⟨_, _, rfl, ⟨string, rfl⟩, none⟩ := reads_t reads
    cases none
    exact ⟨.item (.string string), rfl⟩

theorem assignExp_closed {output : List GrammarSymbol} (listed : output ∈ alternatives .assignExp)
    (reads : Reads ExpToken.token WrittenAs output tokens) : WrittenAs .assignExp tokens := by
  simp only [alternatives, List.mem_cons, List.not_mem_nil, or_false] at listed
  rcases listed with rfl | rfl | rfl | rfl
  · obtain ⟨_, _, rfl, ⟨var, rfl⟩, reads₁⟩ := reads_t reads
    obtain ⟨_, _, rfl, rfl, reads₂⟩ := reads_t reads₁
    obtain ⟨own, _, rfl, ⟨val, rfl⟩, none⟩ := reads_n reads₂
    cases none
    refine ⟨.atom (.assign var val), rfl, ?_⟩
    simp [expTokens, Tree.yield, lexemeTokens, Atom.tokens]
  · obtain ⟨own, _, rfl, ⟨left, isLeft, rfl⟩, reads₁⟩ := reads_n reads
    obtain ⟨_, _, rfl, rfl, reads₂⟩ := reads_t reads₁
    obtain ⟨own', _, rfl, ⟨right, isRight, rfl⟩, none⟩ := reads_n reads₂
    cases none
    obtain ⟨first, left_eq⟩ := Option.isSome_iff_exists.mp isLeft
    obtain ⟨second, right_eq⟩ := Option.isSome_iff_exists.mp isRight
    refine ⟨.binary left .and right, ?_, by rw [expTokens_binary, List.append_nil]; rfl⟩
    rw [assignOf, left_eq, right_eq]
    rfl
  · obtain ⟨own, _, rfl, ⟨left, isLeft, rfl⟩, reads₁⟩ := reads_n reads
    obtain ⟨_, _, rfl, rfl, reads₂⟩ := reads_t reads₁
    obtain ⟨own', _, rfl, ⟨right, isRight, rfl⟩, none⟩ := reads_n reads₂
    cases none
    obtain ⟨first, left_eq⟩ := Option.isSome_iff_exists.mp isLeft
    obtain ⟨second, right_eq⟩ := Option.isSome_iff_exists.mp isRight
    refine ⟨.binary left .or right, ?_, by rw [expTokens_binary, List.append_nil]; rfl⟩
    rw [assignOf, left_eq, right_eq]
    rfl
  · obtain ⟨own, _, rfl, ⟨tree, isTree, rfl⟩, reads₁⟩ := reads_n reads
    obtain ⟨_, _, rfl, rfl, reads₂⟩ := reads_t reads₁
    obtain ⟨_, _, rfl, ⟨help, rfl⟩, none⟩ := reads_t reads₂
    cases none
    obtain ⟨exp, tree_eq⟩ := Option.isSome_iff_exists.mp isTree
    refine ⟨.suffix tree help, ?_, ?_⟩
    · rw [assignOf, tree_eq]
      rfl
    · simp [expTokens, Tree.yield, lexemeTokens]

theorem action_closed {output : List GrammarSymbol} (listed : output ∈ alternatives .action)
    (reads : Reads ExpToken.token WrittenAs output tokens) : WrittenAs .action tokens := by
  simp only [alternatives, List.mem_cons, List.not_mem_nil, or_false] at listed
  rcases listed with rfl | rfl | rfl
  · obtain ⟨own, _, rfl, ⟨command, rfl⟩, none⟩ := reads_n reads
    cases none
    exact .inl ⟨command, rfl⟩
  · obtain ⟨own, _, rfl, ⟨command, rfl⟩, reads₁⟩ := reads_n reads
    obtain ⟨_, _, rfl, rfl, reads₂⟩ := reads_t reads₁
    obtain ⟨_, _, rfl, ⟨help, rfl⟩, none⟩ := reads_t reads₂
    cases none
    exact .inr (.inl ⟨command, help, rfl⟩)
  · obtain ⟨own, _, rfl, ⟨tree, rfl⟩, none⟩ := reads_n reads
    cases none
    exact .inr (.inr ⟨tree, (List.append_nil _).symm⟩)

theorem action0_closed {output : List GrammarSymbol} (listed : output ∈ alternatives .action0)
    (reads : Reads ExpToken.token WrittenAs output tokens) : WrittenAs .action0 tokens := by
  simp only [alternatives, List.mem_cons, List.not_mem_nil, or_false] at listed
  subst listed
  obtain ⟨_, _, rfl, ⟨command, rfl⟩, none⟩ := reads_t reads
  cases none
  exact ⟨command, rfl⟩

theorem written_of_derived {A : Nonterminal} (derives : tokens.map ExpToken.token ∈ wordsOf A) : WrittenAs A tokens := by
  apply derived_induction (F := WrittenAs) _ derives
  intro rule known own reads
  have listed := mem_rules.mp known
  rcases rule with ⟨A, output⟩
  cases A
  case exp => exact exp_closed listed reads
  case val => exact val_closed listed reads
  case val0 => exact val0_closed listed reads
  case assignExp => exact assignExp_closed listed reads
  case action0 => exact action0_closed listed reads
  case action => exact action_closed listed reads
  all_goals exact trivial

abbrev Derives (A : Nonterminal) (own : List ExpToken) : Prop := own.map ExpToken.token ∈ wordsOf A

theorem derives_of {A : Nonterminal} (output : List GrammarSymbol) (listed : output ∈ alternatives A)
    (reads : Reads ExpToken.token Derives output tokens) : Derives A tokens := by
  have known : (⟨A, output⟩ : ContextFreeRule Token cliParse.NT) ∈ cliParse.rules := mem_rules.mpr listed
  exact derived_of_reads known reads

theorem val0_derives (values : Val0) : Derives .val0 values.tokens := by
  have item : ∀ item : Item, Derives .val0 item.tokens := by
    intro item
    cases item with
    | value value => exact derives_of [t .value] (by decide) ⟨_, _, rfl, rfl, rfl⟩
    | string string => exact derives_of [t .string] (by decide) ⟨_, _, rfl, rfl, rfl⟩
  induction values with
  | item first => exact item first
  | comma first second ih =>
    apply derives_of [n .val0, t .comma, n .val0] (by decide)
    exact ⟨_, _, rfl, ih, _, _, rfl, rfl, _, _, (List.append_nil _).symm, item second, rfl⟩

theorem val_derives (val : Val) : Derives .val val.tokens := by
  cases val with
  | var token => exact derives_of [t .var] (by decide) ⟨_, _, rfl, rfl, rfl⟩
  | exString token => exact derives_of [t .exString] (by decide) ⟨_, _, rfl, rfl, rfl⟩
  | val0 values =>
    exact derives_of [n .val0] (by decide) ⟨_, _, (List.append_nil _).symm, val0_derives values, rfl⟩

theorem atom_derives (atom : Atom) : Derives .exp atom.tokens := by
  cases atom with
  | cond left op right =>
    apply derives_of [n .val, t .cond, n .val] (by decide)
    exact ⟨_, _, rfl, val_derives left, _, _, rfl, rfl, _, _, (List.append_nil _).symm, val_derives right, rfl⟩
  | pattern var regex =>
    exact derives_of [t .pattern, t .var, t .string] (by decide) ⟨_, _, rfl, rfl, _, _, rfl, rfl, _, _, rfl, rfl, rfl⟩
  | exec command => exact derives_of [t .exec, t .string] (by decide) ⟨_, _, rfl, rfl, _, _, rfl, rfl, rfl⟩
  | assign var val =>
    apply derives_of [t .var, t .assign, n .val] (by decide)
    exact ⟨_, _, rfl, rfl, _, _, rfl, rfl, _, _, (List.append_nil _).symm, val_derives val, rfl⟩

theorem exp_derives (tree : ExpTree) : Derives .exp (expTokens tree) := by
  induction tree with
  | atom atom =>
    have own := atom_derives atom
    rw [← List.append_nil atom.tokens] at own
    exact own
  | unary op operand ih =>
    apply derives_of [t .not, n .exp] (by decide)
    exact ⟨_, _, rfl, rfl, _, _, (List.append_nil _).symm, ih, rfl⟩
  | binary left op right ihLeft ihRight =>
    rw [expTokens_binary]
    cases op with
    | and =>
      apply derives_of [n .exp, t .and, n .exp] (by decide)
      exact ⟨_, _, rfl, ihLeft, _, _, rfl, rfl, _, _, (List.append_nil _).symm, ihRight, rfl⟩
    | or =>
      apply derives_of [n .exp, t .or, n .exp] (by decide)
      exact ⟨_, _, rfl, ihLeft, _, _, rfl, rfl, _, _, (List.append_nil _).symm, ihRight, rfl⟩
  | suffix operand help ih =>
    apply derives_of [n .exp, t .semi, t .string] (by decide)
    have text : expTokens (.suffix operand help) = expTokens operand ++ [.semi, .string help] := by
      simp [expTokens, Tree.yield, lexemeTokens]
    exact ⟨_, _, text, ih, _, _, rfl, rfl, _, _, rfl, rfl, rfl⟩
  | group bracket inside ih =>
    apply derives_of [t .lp, n .exp, t .rp] (by decide)
    have text : expTokens (.group bracket inside) = .lp :: (expTokens inside ++ [.rp]) := by
      simp [expTokens, Tree.yield, lexemeTokens]
    exact ⟨_, _, text, rfl, _, _, rfl, ih, _, _, rfl, rfl, rfl⟩

theorem assignExp_derives {tree : ExpTree} {exp : AssignExp} (made : assignOf tree = some exp) :
    Derives .assignExp (expTokens tree) := by
  induction tree generalizing exp with
  | atom atom =>
    cases atom with
    | assign var val =>
      have text : expTokens (.atom (.assign var val)) = .var var :: .assign :: val.tokens := by
        simp [expTokens, Tree.yield, lexemeTokens, Atom.tokens]
      apply derives_of [t .var, t .assign, n .val] (by decide)
      exact ⟨_, _, text, rfl, _, _, rfl, rfl, _, _, (List.append_nil _).symm, val_derives val, rfl⟩
    | _ => cases made
  | binary left op right ihLeft ihRight =>
    rw [expTokens_binary]
    cases op with
    | and =>
      obtain ⟨first, isLeft, rest⟩ := Option.bind_eq_some_iff.mp made
      obtain ⟨second, isRight, -⟩ := Option.bind_eq_some_iff.mp rest
      apply derives_of [n .assignExp, t .and, n .assignExp] (by decide)
      exact ⟨_, _, rfl, ihLeft isLeft, _, _, rfl, rfl, _, _, (List.append_nil _).symm, ihRight isRight, rfl⟩
    | or =>
      obtain ⟨first, isLeft, rest⟩ := Option.bind_eq_some_iff.mp made
      obtain ⟨second, isRight, -⟩ := Option.bind_eq_some_iff.mp rest
      apply derives_of [n .assignExp, t .or, n .assignExp] (by decide)
      exact ⟨_, _, rfl, ihLeft isLeft, _, _, rfl, rfl, _, _, (List.append_nil _).symm, ihRight isRight, rfl⟩
  | suffix operand help ih =>
    obtain ⟨inner, isInner, -⟩ := Option.bind_eq_some_iff.mp made
    have text : expTokens (.suffix operand help) = expTokens operand ++ [.semi, .string help] := by
      simp [expTokens, Tree.yield, lexemeTokens]
    apply derives_of [n .assignExp, t .semi, t .string] (by decide)
    exact ⟨_, _, text, ih isInner, _, _, rfl, rfl, _, _, rfl, rfl, rfl⟩
  | unary op operand ih => cases made
  | group bracket inside ih => cases made

/-- The grammar derives what trees are written as, whether or not they respect the precedences. -/
theorem exp_derives_iff : Derives .exp tokens ↔ ∃ tree : ExpTree, expTokens tree = tokens := by
  constructor
  · exact written_of_derived
  · rintro ⟨tree, rfl⟩
    exact exp_derives tree

end Derived

section Parsed

theorem parseExp_eq_some_iff {tokens : List ExpToken} {tree : ExpTree} :
    parseExp tokens = some tree ↔ expTokens tree = tokens ∧ tree.Respects expTable := by
  constructor
  · intro parsed
    obtain ⟨lexemes, scanned, found⟩ := Option.bind_eq_some_iff.mp parsed
    obtain ⟨rfl, respects⟩ := parse_eq_some_iff.mp found
    exact ⟨scan_sound scanned, respects⟩
  · rintro ⟨rfl, respects⟩
    rw [parseExp, expTokens, scan_lexemes tree.yield (Nat.le_refl _), Option.bind_some, parse_yield respects]

theorem parseExp_total (tree : ExpTree) : ∃ found, parseExp (expTokens tree) = some found := by
  obtain ⟨found, parsed⟩ := parse_total expTable tree
  refine ⟨found, ?_⟩
  rw [parseExp, expTokens, scan_lexemes tree.yield (Nat.le_refl _), Option.bind_some, parsed]

/-- The lexemes of an `assign_exp`. -/
def Assigning : ExpLexeme → Prop
  | .atom (.assign _ _) | .binary _ | .suffix _ => True
  | _ => False

theorem assignOf_isSome (tree : ExpTree) : (assignOf tree).isSome ↔ ∀ lexeme ∈ tree.yield, Assigning lexeme := by
  induction tree with
  | atom atom => cases atom <;> simp [assignOf, Tree.yield, Assigning]
  | unary op operand ih => simp [assignOf, Tree.yield, Assigning]
  | group bracket inside ih => simp [assignOf, Tree.yield, Assigning]
  | suffix operand help ih =>
    rw [Tree.yield, List.forall_mem_append, ← ih, assignOf]
    cases assignOf operand <;> simp [Assigning]
  | binary left op right ihLeft ihRight =>
    rw [Tree.yield, List.forall_mem_append, List.forall_mem_cons, ← ihLeft, ← ihRight]
    cases op <;> rw [assignOf] <;> cases assignOf left <;> cases assignOf right <;> simp [Assigning]

/-- Two trees of a text have the same lexemes. -/
theorem yield_eq {first second : ExpTree} (same : expTokens first = expTokens second) : first.yield = second.yield := by
  have scanned := scan_lexemes first.yield (Nat.le_refl _)
  have scanned' := scan_lexemes second.yield (Nat.le_refl _)
  rw [show first.yield.flatMap lexemeTokens = second.yield.flatMap lexemeTokens from same, scanned'] at scanned
  exact (Option.some.inj scanned).symm

/-- What the semantic actions make of a text of `action`. -/
def ActionText : Action → List ExpToken → Prop
  | .exec command, tokens => tokens = [.string command]
  | .execHelp command help, tokens => tokens = [.string command, .semi, .string help]
  | .exp exp, tokens => ∃ tree : ExpTree, expTokens tree = tokens ∧ tree.Respects expTable ∧ expOf tree = exp

/-- No expression is a string alone or with its help. -/
theorem parseAction_eq_some_iff {tokens : List ExpToken} {action : Action} :
    parseAction tokens = some action ↔ ActionText action tokens := by
  have unread : ∀ {tokens : List ExpToken}, parseExp tokens = none → ∀ exp, ¬ ActionText (.exp exp) tokens := by
    rintro tokens none exp ⟨tree, text, respects, -⟩
    rw [parseExp_eq_some_iff.mpr ⟨text, respects⟩] at none
    cases none
  unfold parseAction
  split
  · rename_i command
    rw [Option.some.injEq]
    cases action with
    | exec other =>
      rw [Action.exec.injEq, ActionText]
      constructor
      · rintro rfl
        rfl
      · intro same
        cases same
        rfl
    | execHelp other help => exact iff_of_false nofun nofun
    | exp exp => exact iff_of_false nofun (unread rfl exp)
  · rename_i command help
    rw [Option.some.injEq]
    cases action with
    | exec other => exact iff_of_false nofun nofun
    | execHelp other help' =>
      rw [Action.execHelp.injEq, ActionText]
      constructor
      · rintro ⟨rfl, rfl⟩
        rfl
      · intro same
        cases same
        exact ⟨rfl, rfl⟩
    | exp exp => exact iff_of_false nofun (unread rfl exp)
  · rename_i alone helped
    rw [Option.map_eq_some_iff]
    cases action with
    | exec command =>
      apply iff_of_false
      · rintro ⟨tree, -, made⟩
        cases made
      · exact alone command
    | execHelp command help =>
      apply iff_of_false
      · rintro ⟨tree, -, made⟩
        cases made
      · exact helped command help
    | exp exp =>
      constructor
      · rintro ⟨tree, parsed, made⟩
        obtain ⟨text, respects⟩ := parseExp_eq_some_iff.mp parsed
        exact ⟨tree, text, respects, Action.exp.inj made⟩
      · rintro ⟨tree, text, respects, rfl⟩
        exact ⟨tree, parseExp_eq_some_iff.mpr ⟨text, respects⟩, rfl⟩

theorem action_derives_iff {tokens : List ExpToken} :
    Derives .action tokens ↔ ∃ action, parseAction tokens = some action := by
  constructor
  · intro derives
    have written : WrittenAs .action tokens := written_of_derived derives
    rcases written with ⟨command, rfl⟩ | ⟨command, help, rfl⟩ | ⟨tree, rfl⟩
    · exact ⟨_, rfl⟩
    · exact ⟨_, rfl⟩
    · obtain ⟨found, parsed⟩ := parseExp_total tree
      obtain ⟨text, respects⟩ := parseExp_eq_some_iff.mp parsed
      have made : ActionText (.exp (expOf found)) (expTokens tree) := ⟨found, text, respects, rfl⟩
      exact ⟨_, parseAction_eq_some_iff.mpr made⟩
  · rintro ⟨action, parsed⟩
    have text := parseAction_eq_some_iff.mp parsed
    have action0 : ∀ command, Derives .action0 [.string command] :=
      fun command => derives_of [t .string] (by decide) ⟨_, _, rfl, rfl, rfl⟩
    cases action with
    | exec command =>
      subst text
      exact derives_of [n .action0] (by decide) ⟨_, _, rfl, action0 command, rfl⟩
    | execHelp command help =>
      subst text
      apply derives_of [n .action0, t .semi, t .string] (by decide)
      exact ⟨[.string command], _, rfl, action0 command, _, _, rfl, rfl, _, _, rfl, rfl, rfl⟩
    | exp exp =>
      obtain ⟨tree, rfl, -, -⟩ := text
      exact derives_of [n .exp] (by decide) ⟨_, _, (List.append_nil _).symm, exp_derives tree, rfl⟩

theorem parseAssignExp_eq_some_iff {tokens : List ExpToken} {exp : AssignExp} :
    parseAssignExp tokens = some exp ↔
      ∃ tree, expTokens tree = tokens ∧ tree.Respects expTable ∧ assignOf tree = some exp := by
  rw [parseAssignExp, Option.bind_eq_some_iff]
  simp only [parseExp_eq_some_iff, and_assoc]

theorem assignExp_derives_iff {tokens : List ExpToken} :
    Derives .assignExp tokens ↔ ∃ exp, parseAssignExp tokens = some exp := by
  constructor
  · intro derives
    obtain ⟨tree, assigning, rfl⟩ : WrittenAs .assignExp tokens := written_of_derived derives
    obtain ⟨found, parsed⟩ := parseExp_total tree
    obtain ⟨text, respects⟩ := parseExp_eq_some_iff.mp parsed
    rw [assignOf_isSome, ← yield_eq text, ← assignOf_isSome] at assigning
    obtain ⟨exp, made⟩ := Option.isSome_iff_exists.mp assigning
    exact ⟨exp, parseAssignExp_eq_some_iff.mpr ⟨found, text, respects, made⟩⟩
  · rintro ⟨exp, parsed⟩
    obtain ⟨tree, rfl, -, made⟩ := parseAssignExp_eq_some_iff.mp parsed
    exact assignExp_derives made

end Parsed

/-- The precedences make the grammar of expressions unambiguous without taking a text from it: each has one tree
    that respects them, and the parser finds it. -/
theorem parseExp_iff (tokens : List ExpToken) :
    (tokens.map ExpToken.token ∈ wordsOf .exp ↔ ∃ tree, parseExp tokens = some tree) ∧
      ∀ tree, parseExp tokens = some tree ↔ expTokens tree = tokens ∧ tree.Respects expTable := by
  refine ⟨?_, fun tree => parseExp_eq_some_iff⟩
  constructor
  · intro derives
    obtain ⟨tree, rfl⟩ := exp_derives_iff.mp derives
    exact parseExp_total tree
  · rintro ⟨tree, parsed⟩
    rw [← (parseExp_eq_some_iff.mp parsed).1]
    exact exp_derives tree

section Printed

/-- An expression with the parentheses that it needs. -/
def printExp : Exp → ExpTree
  | .and left right => binaryOf expTable () (printExp left) .and (printExp right)
  | .or left right => binaryOf expTable () (printExp left) .or (printExp right)
  | .cond left op right => .atom (.cond left op right)
  | .pattern var regex => .atom (.pattern var regex)
  | .exec command => .atom (.exec command)
  | .not exp => unaryOf expTable () () (printExp exp)
  | .help exp help => suffixOf expTable () (printExp exp) help
  | .assign var val => .atom (.assign var val)

theorem respects_printExp (exp : Exp) : (printExp exp).Respects expTable := by
  induction exp with
  | and left right ihLeft ihRight => exact respects_binaryOf () .and ihLeft ihRight
  | or left right ihLeft ihRight => exact respects_binaryOf () .or ihLeft ihRight
  | cond left op right => exact trivial
  | pattern var regex => exact trivial
  | exec command => exact trivial
  | not exp ih => exact respects_unaryOf () () ih
  | help exp help ih => exact respects_suffixOf () help ih
  | assign var val => exact trivial

theorem expOf_bracketed (bare : Prop) [Decidable bare] (tree : ExpTree) : expOf (tree.bracketed () bare) = expOf tree := by
  unfold Tree.bracketed
  split <;> rfl

theorem expOf_printExp (exp : Exp) : expOf (printExp exp) = exp := by
  induction exp with
  | and left right ihLeft ihRight =>
    rw [printExp, binaryOf, expOf, expOf_bracketed, expOf_bracketed, ihLeft, ihRight]
  | or left right ihLeft ihRight =>
    rw [printExp, binaryOf, expOf, expOf_bracketed, expOf_bracketed, ihLeft, ihRight]
  | cond left op right => rfl
  | pattern var regex => rfl
  | exec command => rfl
  | not exp ih => rw [printExp, unaryOf, expOf, expOf_bracketed, ih]
  | help exp help ih => rw [printExp, suffixOf, expOf, expOf_bracketed, ih]
  | assign var val => rfl

end Printed

/-- So are the texts of the two kinds of clauses. -/
theorem parseClause_iff (tokens : List ExpToken) :
    ((tokens.map ExpToken.token ∈ wordsOf .action ↔ ∃ action, parseAction tokens = some action) ∧
      ∀ action, parseAction tokens = some action ↔ ActionText action tokens) ∧
    ((tokens.map ExpToken.token ∈ wordsOf .assignExp ↔ ∃ exp, parseAssignExp tokens = some exp) ∧
      ∀ exp, parseAssignExp tokens = some exp ↔
        ∃ tree, expTokens tree = tokens ∧ tree.Respects expTable ∧ assignOf tree = some exp) :=
  ⟨⟨action_derives_iff, fun _ => parseAction_eq_some_iff⟩,
    ⟨assignExp_derives_iff, fun _ => parseAssignExp_eq_some_iff⟩⟩

/-- Every expression can be written: with the parentheses that it needs it is what the parser reads. -/
theorem parseExp_print (exp : Exp) : (parseExp (expTokens (printExp exp))).map expOf = some exp := by
  rw [parseExp_eq_some_iff.mpr ⟨rfl, respects_printExp exp⟩, Option.map_some, expOf_printExp]

end VyattaCfg.Cliexec
