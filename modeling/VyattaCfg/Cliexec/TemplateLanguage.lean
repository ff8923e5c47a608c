import VyattaCfg.Cliexec.TemplateParser

namespace VyattaCfg.Cliexec

open Grammar

section Kinds

/-- The tokens that a terminal stands for. -/
def OfDefKind : Token → DefToken → Prop
  | .typeDef, token => ∃ vtype, token = .typeDef vtype
  | .action, token => ∃ actType, token = .action actType
  | .eol, token => token = .eol
  | .multi, token => token = .multi
  | .tag, token => token = .tag
  | .type, token => token = .type
  | .help, token => token = .help
  | .default, token => token = .default
  | .priority, token => token = .priority
  | .secret, token => token = .secret
  | .enumeration, token => token = .enumeration
  | .chelp, token => token = .chelp
  | .allowed, token => token = .allowed
  | .vhelp, token => token = .vhelp
  | .syntaxField, token => token = .syntaxField
  | .sub, token => token = .sub
  | .commit, token => token = .commit
  | .check, token => token = .check
  | .dummy, token => token = .dummy
  | .syntaxError, token => token = .syntaxError
  | kind, token => ∃ own, token = .exp own ∧ OfKind kind own

theorem ofDefKind (token : DefToken) : OfDefKind token.token token := by
  cases token with
  | exp own =>
    have kind := ofKind own
    cases own <;> exact ⟨_, rfl, kind⟩
  | typeDef vtype => exact ⟨_, rfl⟩
  | action actType => exact ⟨_, rfl⟩
  | _ => rfl

/-- The nonterminals of expressions. -/
def InExp : Nonterminal → Bool
  | .action0 | .action | .exp | .assignExp | .val | .val0 => true
  | _ => false

def Token.inExp : Token → Bool
  | .value | .string | .var | .exString | .cond | .pattern | .exec | .not | .and | .or | .assign | .semi | .comma
  | .lp | .rp => true
  | _ => false

def ExpSymbol : GrammarSymbol → Bool
  | .terminal kind => kind.inExp
  | .nonterminal A => InExp A

theorem exp_symbols {A : Nonterminal} (inside : InExp A = true) :
    ∀ output ∈ alternatives A, ∀ symbol ∈ output, ExpSymbol symbol = true := by
  revert inside
  cases A <;> decide

end Kinds

section Derived

abbrev DefDerives (A : Nonterminal) (tokens : List DefToken) : Prop := tokens.map DefToken.token ∈ wordsOf A

/-- What the tokens of a nonterminal are tokens of. -/
def DefWrittenAs : Nonterminal → List DefToken → Prop
  | .input, tokens => ∃ file : TemplateFile, file.Written tokens
  | .otherinput, tokens => ∃ (badToken : Bool) (statements : List Statement) (lines : List (List DefToken)),
      LinesOf statements lines ∧ tokens = (if badToken then [.syntaxError] else []) ++ Lines.written .eol lines
  | .tag, tokens => ∃ tag, tokens = tagTokens tag
  | .syntaxError, tokens => tokens = [.syntaxError]
  | .action0, tokens => ∃ own : List ExpToken, tokens = own.map .exp ∧ Derives .action0 own
  | .action, tokens => ∃ own : List ExpToken, tokens = own.map .exp ∧ Derives .action own
  | .exp, tokens => ∃ own : List ExpToken, tokens = own.map .exp ∧ Derives .exp own
  | .assignExp, tokens => ∃ own : List ExpToken, tokens = own.map .exp ∧ Derives .assignExp own
  | .val, tokens => ∃ own : List ExpToken, tokens = own.map .exp ∧ Derives .val own
  | .val0, tokens => ∃ own : List ExpToken, tokens = own.map .exp ∧ Derives .val0 own
  | _, tokens => ∃ statement : Statement, statement.Written tokens

variable {F : Nonterminal → List DefToken → Prop} {symbols : List GrammarSymbol} {tokens : List DefToken}

theorem defReads_t {terminal : Token} (reads : Reads DefToken.token F (t terminal :: symbols) tokens) :
    ∃ token rest, tokens = token :: rest ∧ OfDefKind terminal token ∧ Reads DefToken.token F symbols rest := by
  obtain ⟨token, rest, rfl, rfl, reads⟩ := reads
  exact ⟨token, rest, rfl, ofDefKind token, reads⟩

theorem defReads_n {A : Nonterminal} (reads : Reads DefToken.token F (n A :: symbols) tokens) :
    ∃ own rest, tokens = own ++ rest ∧ F A own ∧ Reads DefToken.token F symbols rest := reads

theorem expWrittenAs {A : Nonterminal} (inside : InExp A = true) :
    DefWrittenAs A tokens ↔ ∃ own : List ExpToken, tokens = own.map .exp ∧ Derives A own := by
  cases A <;> first | exact Iff.rfl | exact nomatch inside

theorem reads_exp (inside : ∀ symbol ∈ symbols, ExpSymbol symbol = true)
    (reads : Reads DefToken.token DefWrittenAs symbols tokens) :
    ∃ own : List ExpToken, tokens = own.map .exp ∧ Reads ExpToken.token Derives symbols own := by
  induction symbols generalizing tokens with
  | nil =>
    cases reads
    exact ⟨[], rfl, rfl⟩
  | cons symbol symbols ih =>
    rw [List.forall_mem_cons] at inside
    cases symbol with
    | terminal kind =>
      obtain ⟨token, rest, rfl, rfl, reads₁⟩ := reads
      obtain ⟨own, rfl, reads₂⟩ := ih inside.2 reads₁
      cases token with
      | exp first => exact ⟨first :: own, rfl, first, own, rfl, rfl, reads₂⟩
      | _ => exact nomatch inside.1
    | nonterminal A =>
      obtain ⟨front, rest, rfl, here, reads₁⟩ := reads
      obtain ⟨own, rfl, reads₂⟩ := ih inside.2 reads₁
      obtain ⟨first, rfl, derives⟩ := (expWrittenAs inside.1).mp here
      exact ⟨first ++ own, List.map_append.symm, first, own, rfl, derives, reads₂⟩

theorem exp_part_closed {A : Nonterminal} (inside : InExp A = true) {output : List GrammarSymbol}
    (listed : output ∈ alternatives A) (reads : Reads DefToken.token DefWrittenAs output tokens) :
    DefWrittenAs A tokens := by
  obtain ⟨own, rfl, reads₁⟩ := reads_exp (exp_symbols inside output listed) reads
  exact (expWrittenAs inside).mpr ⟨own, rfl, derives_of output listed reads₁⟩

theorem linesOf_append {first second : List Statement} {lines lines' : List (List DefToken)}
    (of : LinesOf first lines) (of' : LinesOf second lines') : LinesOf (first ++ second) (lines ++ lines') := by
  induction of with
  | nil => exact of'
  | blank _ ih => exact .blank ih
  | line written _ ih => exact .line written ih

theorem otherinput_more {statements : List Statement} {front rest : List DefToken} {lines : List (List DefToken)}
    (here : DefWrittenAs .otherinput front) (of : LinesOf statements lines) (same : rest = Lines.written .eol lines) :
    DefWrittenAs .otherinput (front ++ rest) := by
  obtain ⟨badToken, before, lines', of', rfl⟩ := here
  refine ⟨badToken, _, _, linesOf_append of' of, ?_⟩
  rw [same, Lines.written_append, List.append_assoc]

theorem otherinput_closed {output : List GrammarSymbol} (listed : output ∈ alternatives .otherinput)
    (reads : Reads DefToken.token DefWrittenAs output tokens) : DefWrittenAs .otherinput tokens := by
  have line : ∀ {own : List DefToken} {statement : Statement}, statement.Written own →
      LinesOf [statement] [own] ∧ own ++ [.eol] = Lines.written .eol [own] := by
    intro own statement written
    refine ⟨.line written .nil, ?_⟩
    rw [Lines.written_cons]
    rfl
  simp only [alternatives, List.mem_cons, List.not_mem_nil, or_false] at listed
  rcases listed with rfl | rfl | rfl | rfl | rfl | rfl | rfl
  case inl | inr.inl =>
    obtain ⟨own, _, rfl, ⟨statement, written⟩, reads₁⟩ := defReads_n reads
    obtain ⟨_, _, rfl, rfl, none⟩ := defReads_t reads₁
    cases none
    exact ⟨false, _, _, (line written).1, (line written).2⟩
  case inr.inr.inl | inr.inr.inr.inl =>
    obtain ⟨front, _, rfl, here, reads₁⟩ := defReads_n reads
    obtain ⟨own, _, rfl, ⟨statement, written⟩, reads₂⟩ := defReads_n reads₁
    obtain ⟨_, _, rfl, rfl, none⟩ := defReads_t reads₂
    cases none
    exact otherinput_more here (line written).1 (line written).2
  case inr.inr.inr.inr.inl =>
    obtain ⟨front, _, rfl, here, reads₁⟩ := defReads_n reads
    obtain ⟨_, _, rfl, rfl, none⟩ := defReads_t reads₁
    cases none
    exact otherinput_more here (.blank .nil) rfl
  case inr.inr.inr.inr.inr.inl =>
    obtain ⟨_, _, rfl, rfl, none⟩ := defReads_t reads
    cases none
    exact ⟨false, [], [[]], .blank .nil, rfl⟩
  case inr.inr.inr.inr.inr.inr =>
    obtain ⟨own, _, rfl, here, none⟩ := defReads_n reads
    cases here
    cases none
    exact ⟨true, [], [], .nil, rfl⟩

theorem input_closed {output : List GrammarSymbol} (listed : output ∈ alternatives .input)
    (reads : Reads DefToken.token DefWrittenAs output tokens) : DefWrittenAs .input tokens := by
  simp only [alternatives, List.mem_cons, List.not_mem_nil, or_false] at listed
  rcases listed with rfl | rfl | rfl
  · obtain ⟨own, _, rfl, ⟨tag, rfl⟩, none⟩ := defReads_n reads
    cases none
    exact ⟨⟨tag, false, []⟩, 0, [], .nil, rfl⟩
  · obtain ⟨_, _, rfl, rfl, reads₁⟩ := defReads_t reads
    obtain ⟨own, _, rfl, ⟨file, blanks, lines, of, rfl⟩, none⟩ := defReads_n reads₁
    cases none
    refine ⟨file, blanks + 1, lines, of, ?_⟩
    rw [List.append_nil, List.replicate_succ, List.cons_append]
  · obtain ⟨own, _, rfl, ⟨tag, rfl⟩, reads₁⟩ := defReads_n reads
    obtain ⟨own', _, rfl, ⟨badToken, statements, lines, of, rfl⟩, none⟩ := defReads_n reads₁
    cases none
    refine ⟨⟨tag, badToken, statements⟩, 0, lines, of, ?_⟩
    rw [List.append_nil]
    rfl

theorem tag_closed {output : List GrammarSymbol} (listed : output ∈ alternatives .tag)
    (reads : Reads DefToken.token DefWrittenAs output tokens) : DefWrittenAs .tag tokens := by
  simp only [alternatives, List.mem_cons, List.not_mem_nil, or_false] at listed
  rcases listed with rfl | rfl | rfl | rfl | rfl
  · cases reads
    exact ⟨none, rfl⟩
  all_goals
    obtain ⟨_, _, rfl, rfl, reads₁⟩ := defReads_t reads
    obtain ⟨_, _, rfl, kind, none⟩ := defReads_t reads₁
    cases none
  · cases kind
    exact ⟨some .tag, rfl⟩
  · obtain ⟨_, rfl, value, rfl⟩ := kind
    exact ⟨some (.tagValue value), rfl⟩
  · cases kind
    exact ⟨some .multi, rfl⟩
  · obtain ⟨_, rfl, value, rfl⟩ := kind
    exact ⟨some (.multiValue value), rfl⟩

theorem type_closed {output : List GrammarSymbol} (listed : output ∈ alternatives .type)
    (reads : Reads DefToken.token DefWrittenAs output tokens) : DefWrittenAs .type tokens := by
  simp only [alternatives, List.mem_cons, List.not_mem_nil, or_false] at listed
  rcases listed with rfl | rfl | rfl
  all_goals
    obtain ⟨_, _, rfl, rfl, reads₁⟩ := defReads_t reads
    obtain ⟨_, _, rfl, ⟨vtype, rfl⟩, reads₂⟩ := defReads_t reads₁
  · obtain ⟨_, _, rfl, ⟨_, rfl, rfl⟩, reads₃⟩ := defReads_t reads₂
    obtain ⟨_, _, rfl, ⟨second, rfl⟩, none⟩ := defReads_t reads₃
    cases none
    exact ⟨.types vtype second, rfl⟩
  · obtain ⟨_, _, rfl, ⟨_, rfl, rfl⟩, reads₃⟩ := defReads_t reads₂
    obtain ⟨_, _, rfl, ⟨_, rfl, help, rfl⟩, none⟩ := defReads_t reads₃
    cases none
    exact ⟨.typeHelp vtype help, rfl⟩
  · cases reads₂
    exact ⟨.type vtype, rfl⟩

/-- The nonterminals of the causes that are a field and a STRING. -/
theorem text_closed (field : TextField) {kind : Token}
    (reads : Reads DefToken.token DefWrittenAs [t kind, t .string] tokens)
    (own : ∀ token, OfDefKind kind token → token = field.token) : ∃ statement : Statement, statement.Written tokens := by
  obtain ⟨first, _, rfl, here, reads₁⟩ := defReads_t reads
  obtain ⟨_, _, rfl, ⟨_, rfl, string, rfl⟩, none⟩ := defReads_t reads₁
  cases none
  rw [own first here]
  exact ⟨.text field string, rfl⟩

theorem clause_closed (clause : Action → Cause) {kind : Token} {first : DefToken}
    (reads : Reads DefToken.token DefWrittenAs [t kind, n .action] tokens)
    (own : ∀ token rest, OfDefKind kind token → tokens = token :: rest → token = first)
    (written : ∀ tree own, ActionText tree own → (clause tree).Written (first :: own.map .exp)) :
    ∃ statement : Statement, statement.Written tokens := by
  obtain ⟨token, _, rfl, here, reads₁⟩ := defReads_t reads
  obtain ⟨_, _, rfl, ⟨tree, rfl, derives⟩, none⟩ := defReads_n reads₁
  cases none
  obtain ⟨action, parsed⟩ := action_derives_iff.mp derives
  rw [own token _ here rfl, List.append_nil]
  exact ⟨.cause (clause action), written action tree (parseAction_eq_some_iff.mp parsed)⟩

theorem cause_closed {output : List GrammarSymbol} (listed : output ∈ alternatives .cause)
    (reads : Reads DefToken.token DefWrittenAs output tokens) : DefWrittenAs .cause tokens := by
  have passed : ∀ {A : Nonterminal}, Reads DefToken.token DefWrittenAs [n A] tokens → DefWrittenAs A tokens := by
    intro A reads
    obtain ⟨own, _, rfl, here, none⟩ := defReads_n reads
    cases none
    rw [List.append_nil]
    exact here
  simp only [alternatives, List.mem_cons, List.not_mem_nil, or_false] at listed
  rcases listed with rfl | rfl | rfl | rfl | rfl | rfl | rfl | rfl | rfl | rfl | rfl
  case inr.inr.inr.inr.inr.inr.inr.inr.inr.inl =>
    obtain ⟨_, _, rfl, ⟨actType, rfl⟩, -⟩ := defReads_t reads
    apply clause_closed (.action actType) reads
    · intro token rest _ same
      exact (List.cons.inj same).1.symm
    · exact fun tree own text => ⟨own, text, rfl⟩
  all_goals exact passed reads

theorem syntaxCause_closed {output : List GrammarSymbol} (listed : output ∈ alternatives .syntaxCause)
    (reads : Reads DefToken.token DefWrittenAs output tokens) : DefWrittenAs .syntaxCause tokens := by
  simp only [alternatives, List.mem_cons, List.not_mem_nil, or_false] at listed
  rcases listed with rfl | rfl | rfl
  · exact clause_closed .syntaxCause reads (fun _ _ here _ => here) fun tree own text => ⟨own, text, rfl⟩
  · obtain ⟨_, _, rfl, rfl, reads₁⟩ := defReads_t reads
    obtain ⟨_, _, rfl, ⟨own, rfl, derives⟩, none⟩ := defReads_n reads₁
    cases none
    obtain ⟨exp, parsed⟩ := assignExp_derives_iff.mp derives
    obtain ⟨tree, rfl, respects, made⟩ := parseAssignExp_eq_some_iff.mp parsed
    rw [List.append_nil]
    exact ⟨.cause (.sub exp), tree, respects, made, rfl⟩
  · exact clause_closed .commit reads (fun _ _ here _ => here) fun tree own text => ⟨own, text, rfl⟩

theorem default_closed {output : List GrammarSymbol} (listed : output ∈ alternatives .defaultCause)
    (reads : Reads DefToken.token DefWrittenAs output tokens) : DefWrittenAs .defaultCause tokens := by
  simp only [alternatives, List.mem_cons, List.not_mem_nil, or_false] at listed
  rcases listed with rfl | rfl
  all_goals
    obtain ⟨_, _, rfl, rfl, reads₁⟩ := defReads_t reads
    obtain ⟨_, _, rfl, ⟨_, rfl, text, rfl⟩, none⟩ := defReads_t reads₁
    cases none
  · exact ⟨.defaultValue text, rfl⟩
  · exact ⟨.defaultString text, rfl⟩

theorem defWritten_of_derived {A : Nonterminal} (derives : DefDerives A tokens) : DefWrittenAs A tokens := by
  apply derived_induction (F := DefWrittenAs) _ derives
  intro rule known own reads
  have listed := mem_rules.mp known
  rcases rule with ⟨A, output⟩
  cases A
  case input => exact input_closed listed reads
  case otherinput => exact otherinput_closed listed reads
  case tag => exact tag_closed listed reads
  case type => exact type_closed listed reads
  case cause => exact cause_closed listed reads
  case syntaxCause => exact syntaxCause_closed listed reads
  case defaultCause => exact default_closed listed reads
  case action0 | action | exp | assignExp | val | val0 => exact exp_part_closed rfl listed reads
  all_goals
    simp only [alternatives, List.mem_cons, List.not_mem_nil, or_false] at listed
    subst listed
  case dummyStmt => exact text_closed .dummy reads fun _ here => here
  case helpCause => exact text_closed .help reads fun _ here => here
  case enumerationStmt => exact text_closed .enumeration reads fun _ here => here
  case chelpStmt => exact text_closed .chelp reads fun _ here => here
  case allowedStmt => exact text_closed .allowed reads fun _ here => here
  case vhelpStmt => exact text_closed .vhelp reads fun _ here => here
  case priorityStmt =>
    obtain ⟨_, _, rfl, rfl, reads₁⟩ := defReads_t reads
    obtain ⟨_, _, rfl, ⟨_, rfl, value, rfl⟩, none⟩ := defReads_t reads₁
    cases none
    exact ⟨.priority value, rfl⟩
  case secretStmt =>
    obtain ⟨_, _, rfl, rfl, none⟩ := defReads_t reads
    cases none
    exact ⟨.secret, rfl⟩
  case syntaxError =>
    obtain ⟨_, _, rfl, rfl, none⟩ := defReads_t reads
    cases none
    rfl

theorem defDerives_of {A : Nonterminal} (output : List GrammarSymbol) (listed : output ∈ alternatives A)
    (reads : Reads DefToken.token DefDerives output tokens) : DefDerives A tokens := by
  have known : (⟨A, output⟩ : ContextFreeRule Token cliParse.NT) ∈ cliParse.rules := mem_rules.mpr listed
  exact derived_of_reads known reads

theorem defDerives_exp {A : Nonterminal} {own : List ExpToken} (derives : Derives A own) :
    DefDerives A (own.map .exp) := by
  rw [DefDerives, List.map_map]
  exact derives

theorem text_derives {A : Nonterminal} (field : TextField) (string : StringToken)
    (listed : [t field.token.token, t .string] ∈ alternatives A) :
    DefDerives A [field.token, .exp (.string string)] :=
  defDerives_of _ listed ⟨_, _, rfl, rfl, _, _, rfl, rfl, rfl⟩

theorem clause_derives {A : Nonterminal} {first : DefToken} {tree : Action} {own : List ExpToken}
    (text : ActionText tree own) (listed : [t first.token, n .action] ∈ alternatives A) :
    DefDerives A (first :: own.map .exp) := by
  have derives : Derives .action own := action_derives_iff.mpr ⟨tree, parseAction_eq_some_iff.mpr text⟩
  exact defDerives_of _ listed ⟨_, _, rfl, rfl, _, _, (List.append_nil _).symm, defDerives_exp derives, rfl⟩

theorem statement_derives {statement : Statement} (written : statement.Written tokens) :
    DefDerives .type tokens ∨ DefDerives .cause tokens := by
  have cause : ∀ A, [n A] ∈ alternatives .cause → DefDerives A tokens →
      DefDerives .type tokens ∨ DefDerives .cause tokens := by
    intro A listed derives
    exact .inr (defDerives_of [n A] listed ⟨_, _, (List.append_nil _).symm, derives, rfl⟩)
  cases statement with
  | types first second =>
    subst written
    left
    apply defDerives_of [t .type, t .typeDef, t .comma, t .typeDef] (by decide)
    exact ⟨_, _, rfl, rfl, _, _, rfl, rfl, _, _, rfl, rfl, _, _, rfl, rfl, rfl⟩
  | typeHelp vtype help =>
    subst written
    left
    apply defDerives_of [t .type, t .typeDef, t .semi, t .string] (by decide)
    exact ⟨_, _, rfl, rfl, _, _, rfl, rfl, _, _, rfl, rfl, _, _, rfl, rfl, rfl⟩
  | type vtype =>
    subst written
    left
    exact defDerives_of [t .type, t .typeDef] (by decide) ⟨_, _, rfl, rfl, _, _, rfl, rfl, rfl⟩
  | text field string =>
    subst written
    cases field with
    | help => exact cause .helpCause (by decide) (text_derives .help string (by decide))
    | enumeration => exact cause .enumerationStmt (by decide) (text_derives .enumeration string (by decide))
    | chelp => exact cause .chelpStmt (by decide) (text_derives .chelp string (by decide))
    | allowed => exact cause .allowedStmt (by decide) (text_derives .allowed string (by decide))
    | vhelp => exact cause .vhelpStmt (by decide) (text_derives .vhelp string (by decide))
    | dummy => exact cause .dummyStmt (by decide) (text_derives .dummy string (by decide))
  | defaultValue value =>
    subst written
    apply cause .defaultCause (by decide)
    exact defDerives_of [t .default, t .value] (by decide) ⟨_, _, rfl, rfl, _, _, rfl, rfl, rfl⟩
  | defaultString string =>
    subst written
    apply cause .defaultCause (by decide)
    exact defDerives_of [t .default, t .string] (by decide) ⟨_, _, rfl, rfl, _, _, rfl, rfl, rfl⟩
  | priority value =>
    subst written
    apply cause .priorityStmt (by decide)
    exact defDerives_of [t .priority, t .value] (by decide) ⟨_, _, rfl, rfl, _, _, rfl, rfl, rfl⟩
  | secret =>
    subst written
    apply cause .secretStmt (by decide)
    exact defDerives_of [t .secret] (by decide) ⟨_, _, rfl, rfl, rfl⟩
  | cause clause =>
    cases clause with
    | action actType tree =>
      obtain ⟨own, text, rfl⟩ := written
      exact .inr (clause_derives text (show [t .action, n .action] ∈ alternatives .cause by decide))
    | syntaxCause tree =>
      obtain ⟨own, text, rfl⟩ := written
      exact cause .syntaxCause (by decide) (clause_derives text (by decide))
    | commit tree =>
      obtain ⟨own, text, rfl⟩ := written
      exact cause .syntaxCause (by decide) (clause_derives text (by decide))
    | sub exp =>
      obtain ⟨tree, respects, made, rfl⟩ := written
      apply cause .syntaxCause (by decide)
      apply defDerives_of [t .sub, n .assignExp] (by decide)
      exact ⟨_, _, rfl, rfl, _, _, (List.append_nil _).symm, defDerives_exp (assignExp_derives made), rfl⟩

/-- A line goes behind what there is, or is the first. -/
theorem line_derives {statement : Statement} (written : statement.Written tokens) :
    DefDerives .otherinput (tokens ++ [.eol]) ∧
      ∀ {front}, DefDerives .otherinput front → DefDerives .otherinput (front ++ (tokens ++ [.eol])) := by
  rcases statement_derives written with derives | derives
  · refine ⟨defDerives_of [n .type, t .eol] (by decide) ⟨_, _, rfl, derives, _, _, rfl, rfl, rfl⟩, ?_⟩
    intro front before
    apply defDerives_of [n .otherinput, n .type, t .eol] (by decide)
    exact ⟨_, _, rfl, before, _, _, rfl, derives, _, _, rfl, rfl, rfl⟩
  · refine ⟨defDerives_of [n .cause, t .eol] (by decide) ⟨_, _, rfl, derives, _, _, rfl, rfl, rfl⟩, ?_⟩
    intro front before
    apply defDerives_of [n .otherinput, n .cause, t .eol] (by decide)
    exact ⟨_, _, rfl, before, _, _, rfl, derives, _, _, rfl, rfl, rfl⟩

theorem lines_derive {statements : List Statement} {lines : List (List DefToken)} (of : LinesOf statements lines)
    {front : List DefToken} (before : DefDerives .otherinput front) :
    DefDerives .otherinput (front ++ Lines.written .eol lines) := by
  have moved : ∀ (front own : List DefToken) (lines : List (List DefToken)),
      front ++ Lines.written .eol (own :: lines) = front ++ (own ++ [.eol]) ++ Lines.written .eol lines := by
    intro front own lines
    rw [Lines.written_cons, List.append_assoc, List.append_assoc]
    rfl
  induction of generalizing front with
  | nil =>
    rw [Lines.written, List.flatMap_nil, List.append_nil]
    exact before
  | blank _ ih =>
    rw [moved]
    exact ih (defDerives_of [n .otherinput, t .eol] (by decide) ⟨_, _, rfl, before, _, _, rfl, rfl, rfl⟩)
  | line written _ ih =>
    rw [moved]
    exact ih ((line_derives written).2 before)

theorem otherinput_derives {badToken : Bool} {statements : List Statement} {lines : List (List DefToken)}
    (of : LinesOf statements lines) (some : badToken = true ∨ lines ≠ []) :
    DefDerives .otherinput ((if badToken then [.syntaxError] else []) ++ Lines.written .eol lines) := by
  cases badToken with
  | true =>
    apply lines_derive of
    have bad : DefDerives .syntaxError [.syntaxError] :=
      defDerives_of [t .syntaxError] (by decide) ⟨_, _, rfl, rfl, rfl⟩
    exact defDerives_of [n .syntaxError] (by decide) ⟨_, _, (List.append_nil _).symm, bad, rfl⟩
  | false =>
    cases of with
    | nil =>
      rcases some with bad | some
      · cases bad
      · exact absurd rfl some
    | blank of =>
      have first : DefDerives .otherinput [.eol] := defDerives_of [t .eol] (by decide) ⟨_, _, rfl, rfl, rfl⟩
      exact lines_derive of first
    | line written of =>
      have rest := lines_derive of (line_derives written).1
      rw [List.append_assoc] at rest
      rw [Lines.written_cons]
      exact rest

theorem tag_derives (tag : Option TagStatement) : DefDerives .tag (tagTokens tag) := by
  cases tag with
  | none => exact defDerives_of [] (by decide) rfl
  | some statement =>
    cases statement with
    | tag => exact defDerives_of [t .tag, t .eol] (by decide) ⟨_, _, rfl, rfl, _, _, rfl, rfl, rfl⟩
    | tagValue value => exact defDerives_of [t .tag, t .value] (by decide) ⟨_, _, rfl, rfl, _, _, rfl, rfl, rfl⟩
    | multi => exact defDerives_of [t .multi, t .eol] (by decide) ⟨_, _, rfl, rfl, _, _, rfl, rfl, rfl⟩
    | multiValue value => exact defDerives_of [t .multi, t .value] (by decide) ⟨_, _, rfl, rfl, _, _, rfl, rfl, rfl⟩

theorem template_derives {file : TemplateFile} (written : file.Written tokens) : DefDerives .input tokens := by
  obtain ⟨blanks, lines, of, rfl⟩ := written
  induction blanks with
  | zero =>
    rw [List.replicate_zero, List.nil_append]
    by_cases some : file.badToken = true ∨ lines ≠ []
    · apply defDerives_of [n .tag, n .otherinput] (by decide)
      exact ⟨_, _, rfl, tag_derives file.tag, _, _, (List.append_nil _).symm, otherinput_derives of some, rfl⟩
    · rw [not_or, not_not] at some
      rw [if_neg some.1, some.2, Lines.written, List.flatMap_nil, List.append_nil]
      exact defDerives_of [n .tag] (by decide) ⟨_, _, rfl, tag_derives file.tag, rfl⟩
  | succ blanks ih =>
    rw [List.replicate_succ, List.cons_append]
    exact defDerives_of [t .eol, n .input] (by decide) ⟨_, _, rfl, rfl, _, _, (List.append_nil _).symm, ih, rfl⟩

end Derived

theorem derives_iff_read {tokens : List DefToken} :
    tokens.map DefToken.token ∈ cliParse.language ↔ ∃ file, readTemplate tokens = some file := by
  constructor
  · intro derives
    have derives : DefDerives .input tokens := derives
    obtain ⟨file, written⟩ := defWritten_of_derived derives
    exact ⟨file, readTemplate_eq_some_iff.mpr written⟩
  · rintro ⟨file, read⟩
    exact template_derives (readTemplate_eq_some_iff.mp read)

/-- The grammar of templates is that of the parser, and what a template says does not depend on how it is derived:
    its lines say one statement each, the clauses as the precedences have it. -/
theorem readTemplate_iff (tokens : List DefToken) :
    (tokens.map DefToken.token ∈ cliParse.language ↔ ∃ file, readTemplate tokens = some file) ∧
      ∀ file, readTemplate tokens = some file ↔ file.Written tokens :=
  ⟨derives_iff_read, fun _ => readTemplate_eq_some_iff⟩

end VyattaCfg.Cliexec
