import VyattaCfg.Cliexec.ExpGrammar
import VyattaCfg.Cliexec.Script
import VyattaCfg.Library.Lines

namespace VyattaCfg.Cliexec

open Grammar Precedence VyattaCfg.Client

deriving instance DecidableEq for StringToken, VarToken, ValueToken, ExpToken

section Tokens

/-- The tokens of a template, with the values that they carry. -/
inductive DefToken where
  | exp (token : ExpToken)
  | typeDef (vtype : VtwType)
  | action (actType : VtwActType)
  | eol | multi | tag | type | help | default | priority | secret | enumeration | chelp | allowed | vhelp
  | syntaxField | sub | commit | check | dummy | syntaxError
  deriving DecidableEq

def DefToken.token : DefToken → Token
  | .exp token => token.token
  | .typeDef _ => .typeDef
  | .action _ => .action
  | .eol => .eol
  | .multi => .multi
  | .tag => .tag
  | .type => .type
  | .help => .help
  | .default => .default
  | .priority => .priority
  | .secret => .secret
  | .enumeration => .enumeration
  | .chelp => .chelp
  | .allowed => .allowed
  | .vhelp => .vhelp
  | .syntaxField => .syntaxField
  | .sub => .sub
  | .commit => .commit
  | .check => .check
  | .dummy => .dummy
  | .syntaxError => .syntaxError

end Tokens

section Statements

inductive TagStatement where
  | tag
  | tagValue (value : ValueToken)
  | multi
  | multiValue (value : ValueToken)

/-- The causes that are a field and a STRING. -/
inductive TextField where
  | help | enumeration | chelp | allowed | vhelp | dummy

/-- A line of `otherinput`. -/
inductive Statement where
  | types (first second : VtwType)
  | typeHelp (vtype : VtwType) (help : StringToken)
  | type (vtype : VtwType)
  | text (field : TextField) (text : StringToken)
  | defaultValue (value : ValueToken)
  | defaultString (text : StringToken)
  | priority (value : ValueToken)
  | secret
  | cause (cause : Cause)

structure TemplateFile where
  tag : Option TagStatement
  -- The `syntax_error` that `otherinput` can start with, which only prints.
  badToken : Bool
  statements : List Statement

/-- What `process_cli_script` reads of it. -/
def TemplateFile.template (file : TemplateFile) : Template where
  causes := file.statements.filterMap fun statement =>
    match statement with
    | .cause cause => some cause
    | _ => none
  defTypeHelp := (file.statements.filterMap fun statement =>
    match statement with
    | .typeHelp _ help => some help.text
    | _ => none).getLast?

end Statements

section Reading

def DefToken.inExp : DefToken → Option ExpToken
  | .exp token => some token
  | _ => none

def readType : List DefToken → Option Statement
  | [.typeDef first, .exp .comma, .typeDef second] => some (.types first second)
  | [.typeDef vtype, .exp .semi, .exp (.string help)] => some (.typeHelp vtype help)
  | [.typeDef vtype] => some (.type vtype)
  | _ => none

def readDefault : List DefToken → Option Statement
  | [.exp (.value value)] => some (.defaultValue value)
  | [.exp (.string text)] => some (.defaultString text)
  | _ => none

def readPriority : List DefToken → Option Statement
  | [.exp (.value value)] => some (.priority value)
  | _ => none

def readText (field : TextField) : List DefToken → Option Statement
  | [.exp (.string text)] => some (.text field text)
  | _ => none

def readClause (clause : Action → Cause) (tokens : List DefToken) : Option Statement := do
  some (.cause (clause (← parseAction (← tokens.mapM DefToken.inExp))))

def readSub (tokens : List DefToken) : Option Statement := do
  some (.cause (.sub (← parseAssignExp (← tokens.mapM DefToken.inExp))))

def readStatement : List DefToken → Option Statement
  | .type :: rest => readType rest
  | .default :: rest => readDefault rest
  | .priority :: rest => readPriority rest
  | .secret :: rest => if rest = [] then some .secret else none
  | .help :: rest => readText .help rest
  | .enumeration :: rest => readText .enumeration rest
  | .chelp :: rest => readText .chelp rest
  | .allowed :: rest => readText .allowed rest
  | .vhelp :: rest => readText .vhelp rest
  | .dummy :: rest => readText .dummy rest
  | .action type :: rest => readClause (.action type) rest
  | .syntaxField :: rest => readClause .syntaxCause rest
  | .commit :: rest => readClause .commit rest
  | .sub :: rest => readSub rest
  | _ => none

/-- Empty lines say nothing. -/
def readLines : List (List DefToken) → Option (List Statement)
  | [] => some []
  | [] :: lines => readLines lines
  | line :: lines => do some ((← readStatement line) :: (← readLines lines))

def readTag : List DefToken → Option TagStatement × List DefToken
  | .tag :: .eol :: rest => (some .tag, rest)
  | .tag :: .exp (.value value) :: rest => (some (.tagValue value), rest)
  | .multi :: .eol :: rest => (some .multi, rest)
  | .multi :: .exp (.value value) :: rest => (some (.multiValue value), rest)
  | rest => (none, rest)

def readBad : List DefToken → Bool × List DefToken
  | .syntaxError :: rest => (true, rest)
  | rest => (false, rest)

def readTemplate (tokens : List DefToken) : Option TemplateFile :=
  let tagged := readTag (tokens.dropWhile (· = .eol))
  let body := readBad tagged.2
  do some ⟨tagged.1, body.1, ← readLines (← Lines.cut .eol body.2)⟩

end Reading

section Texts

def TextField.token : TextField → DefToken
  | .help => .help
  | .enumeration => .enumeration
  | .chelp => .chelp
  | .allowed => .allowed
  | .vhelp => .vhelp
  | .dummy => .dummy

/-- The expression tokens of a clause. -/
def Cause.Written : Cause → List DefToken → Prop
  | .action type tree, tokens => ∃ own, ActionText tree own ∧ tokens = .action type :: own.map .exp
  | .syntaxCause tree, tokens => ∃ own, ActionText tree own ∧ tokens = .syntaxField :: own.map .exp
  | .commit tree, tokens => ∃ own, ActionText tree own ∧ tokens = .commit :: own.map .exp
  | .sub exp, tokens => ∃ tree, tree.Respects expTable ∧ assignOf tree = some exp ∧
      tokens = .sub :: (expTokens tree).map .exp

def Statement.Written : Statement → List DefToken → Prop
  | .types first second, tokens => tokens = [.type, .typeDef first, .exp .comma, .typeDef second]
  | .typeHelp vtype help, tokens => tokens = [.type, .typeDef vtype, .exp .semi, .exp (.string help)]
  | .type vtype, tokens => tokens = [.type, .typeDef vtype]
  | .text field string, tokens => tokens = [field.token, .exp (.string string)]
  | .defaultValue value, tokens => tokens = [.default, .exp (.value value)]
  | .defaultString string, tokens => tokens = [.default, .exp (.string string)]
  | .priority value, tokens => tokens = [.priority, .exp (.value value)]
  | .secret, tokens => tokens = [.secret]
  | .cause clause, tokens => clause.Written tokens

inductive LinesOf : List Statement → List (List DefToken) → Prop
  | nil : LinesOf [] []
  | blank {statements : List Statement} {lines : List (List DefToken)} :
    LinesOf statements lines → LinesOf statements ([] :: lines)
  | line {statement : Statement} {statements : List Statement} {own : List DefToken} {lines : List (List DefToken)} :
    statement.Written own → LinesOf statements lines → LinesOf (statement :: statements) (own :: lines)

def tagTokens : Option TagStatement → List DefToken
  | none => []
  | some .tag => [.tag, .eol]
  | some (.tagValue value) => [.tag, .exp (.value value)]
  | some .multi => [.multi, .eol]
  | some (.multiValue value) => [.multi, .exp (.value value)]

/-- What the tokens of a template look like. -/
def TemplateFile.Written (file : TemplateFile) (tokens : List DefToken) : Prop :=
  ∃ blanks lines, LinesOf file.statements lines ∧
    tokens = List.replicate blanks .eol ++ (tagTokens file.tag ++
      ((if file.badToken then [.syntaxError] else []) ++ Lines.written .eol lines))

end Texts

section Read

theorem inExp_eq_some_iff {tokens : List DefToken} {own : List ExpToken} :
    tokens.mapM DefToken.inExp = some own ↔ tokens = own.map .exp := by
  induction tokens generalizing own with
  | nil =>
    rw [List.mapM_nil, List.nil_eq, List.map_eq_nil_iff]
    constructor
    · intro same
      cases same
      rfl
    · rintro rfl
      rfl
  | cons token tokens ih =>
    rw [List.mapM_cons]
    cases token with
    | exp first =>
      rw [DefToken.inExp, Option.bind_eq_bind, Option.bind_some, Option.bind_eq_bind, Option.bind_eq_some_iff]
      constructor
      · rintro ⟨rest, found, same⟩
        cases same
        rw [ih.mp found, List.map_cons]
      · intro same
        cases own with
        | nil => cases same
        | cons other rest =>
          obtain ⟨head, tail⟩ := List.cons.inj same
          cases head
          exact ⟨rest, ih.mpr tail, rfl⟩
    | _ =>
      apply iff_of_false nofun
      intro same
      cases own <;> cases same

theorem readClause_eq_some_iff {clause : Action → Cause} {tokens : List DefToken} {statement : Statement} :
    readClause clause tokens = some statement ↔
      ∃ own tree, ActionText tree own ∧ tokens = own.map .exp ∧ statement = .cause (clause tree) := by
  rw [readClause, Option.bind_eq_bind, Option.bind_eq_some_iff]
  constructor
  · rintro ⟨own, inside, rest⟩
    obtain ⟨tree, parsed, same⟩ := Option.bind_eq_some_iff.mp rest
    exact ⟨own, tree, parseAction_eq_some_iff.mp parsed, inExp_eq_some_iff.mp inside, (Option.some.inj same).symm⟩
  · rintro ⟨own, tree, text, rfl, rfl⟩
    exact ⟨own, inExp_eq_some_iff.mpr rfl, Option.bind_eq_some_iff.mpr ⟨tree, parseAction_eq_some_iff.mpr text, rfl⟩⟩

theorem readSub_eq_some_iff {tokens : List DefToken} {statement : Statement} :
    readSub tokens = some statement ↔
      ∃ tree exp, Tree.Respects expTable tree ∧ assignOf tree = some exp ∧ tokens = (expTokens tree).map .exp ∧
        statement = .cause (.sub exp) := by
  rw [readSub, Option.bind_eq_bind, Option.bind_eq_some_iff]
  constructor
  · rintro ⟨own, inside, rest⟩
    obtain ⟨exp, parsed, same⟩ := Option.bind_eq_some_iff.mp rest
    obtain ⟨tree, rfl, respects, made⟩ := parseAssignExp_eq_some_iff.mp parsed
    exact ⟨tree, exp, respects, made, inExp_eq_some_iff.mp inside, (Option.some.inj same).symm⟩
  · rintro ⟨tree, exp, respects, made, rfl, rfl⟩
    refine ⟨_, inExp_eq_some_iff.mpr rfl, Option.bind_eq_some_iff.mpr ⟨exp, ?_, rfl⟩⟩
    exact parseAssignExp_eq_some_iff.mpr ⟨tree, rfl, respects, made⟩

theorem readText_written {field : TextField} {rest : List DefToken} {statement : Statement}
    (read : readText field rest = some statement) : statement.Written (field.token :: rest) := by
  unfold readText at read
  split at read <;> cases read
  rfl

theorem readStatement_written {tokens : List DefToken} {statement : Statement}
    (read : readStatement tokens = some statement) : statement.Written tokens := by
  unfold readStatement at read
  split at read
  · unfold readType at read
    split at read <;> cases read <;> rfl
  · unfold readDefault at read
    split at read <;> cases read <;> rfl
  · unfold readPriority at read
    split at read <;> cases read
    rfl
  · rename_i rest
    obtain ⟨rfl, same⟩ := Option.ite_none_right_eq_some.mp read
    cases same
    rfl
  · exact readText_written read
  · exact readText_written read
  · exact readText_written read
  · exact readText_written read
  · exact readText_written read
  · exact readText_written read
  · obtain ⟨own, tree, text, rfl, rfl⟩ := readClause_eq_some_iff.mp read
    exact ⟨own, text, rfl⟩
  · obtain ⟨own, tree, text, rfl, rfl⟩ := readClause_eq_some_iff.mp read
    exact ⟨own, text, rfl⟩
  · obtain ⟨own, tree, text, rfl, rfl⟩ := readClause_eq_some_iff.mp read
    exact ⟨own, text, rfl⟩
  · obtain ⟨tree, exp, respects, made, rfl, rfl⟩ := readSub_eq_some_iff.mp read
    exact ⟨tree, respects, made, rfl⟩
  · cases read

theorem written_readStatement {tokens : List DefToken} {statement : Statement} (written : statement.Written tokens) :
    readStatement tokens = some statement := by
  cases statement with
  | text field string =>
    subst written
    cases field <;> rfl
  | cause cause =>
    cases cause with
    | action actType tree =>
      obtain ⟨own, text, rfl⟩ := written
      exact readClause_eq_some_iff.mpr ⟨own, tree, text, rfl, rfl⟩
    | syntaxCause tree =>
      obtain ⟨own, text, rfl⟩ := written
      exact readClause_eq_some_iff.mpr ⟨own, tree, text, rfl, rfl⟩
    | commit tree =>
      obtain ⟨own, text, rfl⟩ := written
      exact readClause_eq_some_iff.mpr ⟨own, tree, text, rfl, rfl⟩
    | sub exp =>
      obtain ⟨tree, respects, made, rfl⟩ := written
      exact readSub_eq_some_iff.mpr ⟨tree, exp, respects, made, rfl, rfl⟩
  | _ =>
    subst written
    rfl

/-- What a line can start with. -/
def DefToken.opensStatement : DefToken → Bool
  | .type | .default | .priority | .secret | .help | .enumeration | .chelp | .allowed | .vhelp | .dummy | .action _
  | .syntaxField | .commit | .sub => true
  | _ => false

theorem written_opens {tokens : List DefToken} {statement : Statement} (written : statement.Written tokens) :
    ∃ first rest, tokens = first :: rest ∧ first.opensStatement = true ∧ .eol ∉ rest := by
  have eolFree : ∀ own : List ExpToken, DefToken.eol ∉ own.map .exp := by
    intro own member
    obtain ⟨token, -, same⟩ := List.mem_map.mp member
    cases same
  cases statement with
  | text field string =>
    subst written
    refine ⟨_, _, rfl, ?_, by simp⟩
    cases field <;> rfl
  | cause cause =>
    cases cause with
    | action | syntaxCause | commit =>
      obtain ⟨own, -, rfl⟩ := written
      exact ⟨_, _, rfl, rfl, eolFree own⟩
    | sub exp =>
      obtain ⟨tree, -, -, rfl⟩ := written
      exact ⟨_, _, rfl, rfl, eolFree _⟩
  | _ =>
    subst written
    exact ⟨_, _, rfl, rfl, by simp⟩

theorem readLines_eq_some_iff {lines : List (List DefToken)} {statements : List Statement} :
    readLines lines = some statements ↔ LinesOf statements lines := by
  constructor
  · intro read
    fun_induction readLines lines generalizing statements with
    | case1 =>
      cases read
      exact .nil
    | case2 lines ih => exact .blank (ih read)
    | case3 line lines filled ih =>
      obtain ⟨statement, first, rest⟩ := Option.bind_eq_some_iff.mp read
      obtain ⟨others, later, same⟩ := Option.bind_eq_some_iff.mp rest
      cases same
      exact .line (readStatement_written first) (ih later)
  · intro lines
    induction lines with
    | nil => rfl
    | blank _ ih => exact ih
    | line written _ ih =>
      obtain ⟨first, rest, rfl, -, -⟩ := written_opens written
      rw [readLines, written_readStatement written, ih]
      · rfl
      · exact nofun

theorem linesOf_free {statements : List Statement} {lines : List (List DefToken)} (of : LinesOf statements lines) :
    ∀ line ∈ lines, DefToken.eol ∉ line := by
  induction of with
  | nil => exact List.forall_mem_nil _
  | blank _ ih => exact List.forall_mem_cons.mpr ⟨List.not_mem_nil, ih⟩
  | line written _ ih =>
    obtain ⟨first, rest, rfl, opens, free⟩ := written_opens written
    refine List.forall_mem_cons.mpr ⟨?_, ih⟩
    rw [List.mem_cons, not_or]
    refine ⟨?_, free⟩
    rintro rfl
    cases opens

theorem readTag_eq {tokens : List DefToken} : tokens = tagTokens (readTag tokens).1 ++ (readTag tokens).2 := by
  unfold readTag
  split <;> rfl

theorem readBad_eq {tokens : List DefToken} :
    tokens = (if (readBad tokens).1 then [.syntaxError] else []) ++ (readBad tokens).2 := by
  unfold readBad
  split <;> rfl

theorem readBad_lines {statements : List Statement} {lines : List (List DefToken)} (of : LinesOf statements lines) :
    readBad (Lines.written .eol lines) = (false, Lines.written .eol lines) := by
  cases of with
  | nil => rfl
  | blank _ => rfl
  | line written _ =>
    obtain ⟨first, rest, rfl, opens, -⟩ := written_opens written
    rw [Lines.written_cons, List.cons_append]
    cases first <;> first | rfl | cases opens

/-- Without a tag, the empty lines of the beginning go with the line breaks before it. -/
theorem linesOf_dropWhile {statements : List Statement} {lines : List (List DefToken)} (of : LinesOf statements lines) :
    ∃ lines', (Lines.written .eol lines).dropWhile (· = DefToken.eol) = Lines.written .eol lines' ∧
      LinesOf statements lines' ∧ readTag (Lines.written .eol lines') = (none, Lines.written .eol lines') := by
  induction of with
  | nil => exact ⟨[], rfl, .nil, rfl⟩
  | blank _ ih =>
    rw [Lines.written_cons, List.nil_append, List.dropWhile_cons_of_pos (by simp)]
    exact ih
  | line written of _ =>
    refine ⟨_, ?_, .line written of, ?_⟩
    · obtain ⟨first, rest, rfl, opens, -⟩ := written_opens written
      have goes : first ≠ .eol := by
        rintro rfl
        cases opens
      rw [Lines.written_cons, List.cons_append, List.dropWhile_cons_of_neg (by simpa using goes)]
    · obtain ⟨first, rest, rfl, opens, -⟩ := written_opens written
      rw [Lines.written_cons, List.cons_append]
      cases first <;> first | rfl | cases opens

theorem readTemplate_of {tokens start rest : List DefToken} {file : TemplateFile} {lines : List (List DefToken)}
    (front : tokens.dropWhile (· = .eol) = start) (tagged : readTag start = (file.tag, rest))
    (bad : readBad rest = (file.badToken, Lines.written .eol lines)) (of : LinesOf file.statements lines) :
    readTemplate tokens = some file := by
  simp only [readTemplate, front, tagged, bad, Lines.cut_eq_some_iff.mpr ⟨rfl, linesOf_free of⟩, Option.bind_eq_bind,
    Option.bind_some, readLines_eq_some_iff.mpr of]

theorem readTemplate_eq_some_iff {tokens : List DefToken} {file : TemplateFile} :
    readTemplate tokens = some file ↔ file.Written tokens := by
  constructor
  · intro read
    obtain ⟨lines, cut, rest⟩ := Option.bind_eq_some_iff.mp read
    obtain ⟨statements, found, same⟩ := Option.bind_eq_some_iff.mp rest
    obtain rfl := Option.some.inj same
    obtain ⟨blanks, front⟩ : ∃ blanks, tokens.takeWhile (· = DefToken.eol) = List.replicate blanks .eol := by
      refine ⟨_, List.eq_replicate_of_mem ?_⟩
      intro token member
      have ends := List.mem_takeWhile_imp member
      exact of_decide_eq_true ends
    refine ⟨blanks, lines, readLines_eq_some_iff.mp found, ?_⟩
    simp only
    rw [← (Lines.cut_eq_some_iff.mp cut).1, ← readBad_eq, ← readTag_eq, ← front, List.takeWhile_append_dropWhile]
  · rintro ⟨blanks, lines, of, rfl⟩
    obtain ⟨tag, badToken, statements⟩ := file
    have dropped : ∀ rest : List DefToken, (List.replicate blanks DefToken.eol ++ rest).dropWhile (· = DefToken.eol) =
        rest.dropWhile (· = DefToken.eol) := by
      intro rest
      apply List.dropWhile_append_of_pos
      intro token member
      rw [List.eq_of_mem_replicate member]
      rfl
    have bad : readBad ((if badToken then [.syntaxError] else []) ++ Lines.written .eol lines) =
        (badToken, Lines.written .eol lines) := by
      cases badToken with
      | true => rfl
      | false => exact readBad_lines of
    cases tag with
    | some statement =>
      have tagged : readTag (tagTokens (some statement) ++ ((if badToken then [DefToken.syntaxError] else []) ++
          Lines.written .eol lines)) = (some statement,
            (if badToken then [DefToken.syntaxError] else []) ++ Lines.written .eol lines) := by
        cases statement <;> rfl
      have front : (tagTokens (some statement) ++ ((if badToken then [DefToken.syntaxError] else []) ++
          Lines.written .eol lines)).dropWhile (· = DefToken.eol) = tagTokens (some statement) ++
            ((if badToken then [DefToken.syntaxError] else []) ++ Lines.written .eol lines) := by
        cases statement <;> rfl
      exact readTemplate_of ((dropped _).trans front) tagged bad of
    | none =>
      cases badToken with
      | true => exact readTemplate_of (dropped _) rfl rfl of
      | false =>
        obtain ⟨lines', same, of', tagged⟩ := linesOf_dropWhile of
        exact readTemplate_of ((dropped _).trans same) tagged (readBad_lines of') of'

end Read

end VyattaCfg.Cliexec
