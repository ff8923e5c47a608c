import VyattaCfg.Cliexec.AddressPatterns
import VyattaCfg.Cliexec.CliParse
import VyattaCfg.Library.Flex

namespace VyattaCfg.Cliexec

open ByteString Regex

section Tokens

/-- The tokens of cli_parse.y, without the values that go with some of them. `eof` is the zero that the
    scanner returns at its end, and `syntaxField` is SYNTAX. -/
inductive Token where
  | eof | eol | multi | tag | type | help | default | priority | secret | enumeration | chelp | allowed | vhelp
  | pattern | exec | syntaxField | sub | commit | check | dummy | semi | value | typeDef | var | string | exString
  | syntaxError | action | assign | or | and | not | comma | cond | rp | lp
  deriving DecidableEq

/-- The start conditions of cli_def.l. -/
inductive Condition where
  | initial | action | expression | str
  deriving DecidableEq

structure LexState where
  condition : Condition
  preStrState : Condition
  strDelim : UInt8
  eofSeen : Bool

/-- What an action does: the token that it returns, if it returns, and whether the text is put back. -/
structure Reaction where
  token : Option Token
  state : LexState
  unput : Bool

def regFields : List (String × Token) :=
  [("default", .default), ("tag", .tag), ("type", .type), ("multi", .multi), ("priority", .priority),
    ("secret", .secret)]

def actFields : List (String × Token) :=
  [("help", .help), ("syntax", .syntaxField), ("commit", .commit), ("delete", .action), ("update", .action),
    ("activate", .action), ("create", .action), ("begin", .action), ("end", .action), ("sub", .sub),
    ("enumeration", .enumeration), ("comp_help", .chelp), ("allowed", .allowed), ("val_help", .vhelp)]

def typeNames : List (String × Token) :=
  ["txt", "u32", "ipv4", "ipv4net", "ipv6", "ipv6net", "bool", "macaddr"].map fun name => (name, .typeDef)

def opCondStrs : List (String × Token) :=
  ["in", "==", "!=", "<", ">", "<=", ">="].map fun name => (name, .cond)

def opStrs : List (String × Token) :=
  [("pattern", .pattern), ("exec", .exec), (",", .comma), ("||", .or), ("&&", .and), ("=", .assign), ("!", .not),
    ("(", .lp), (")", .rp), (";", .semi)]

def lookup (table : List (String × Token)) (text : Bytes) : Option Token :=
  (table.find? fun entry => str entry.1 = text).map Prod.snd

/-- `return_act_field` and `return_reg_field`: the name is before the colon, and zero is returned for none. -/
def returnField (table : List (String × Token)) (text : Bytes) : Token :=
  (lookup table (text.takeWhile (· ≠ ch ':'))).getD .eof

def returnStr (strDelim : UInt8) : Token := if strDelim = ch '"' then .string else .exString

end Tokens

section Patterns

def oneOf (names : List String) : Pattern := names.foldr (fun name r => lit (str name) + r) 0

def noneOf (excluded : Bytes) : Pattern :=
  anyOf (((List.range 256).map Nat.toUInt8).filter fun b => b ∉ excluded)

def reDot : Pattern := noneOf (str "\n")

def reBlank : Pattern := anyOf (str " \t")

def reTypeName : Pattern := oneOf ["txt", "u32", "ipv4", "ipv4net", "ipv6", "ipv6net", "bool", "macaddr"]

def reOpCond : Pattern := oneOf ["==", "!=", "<", ">", "<=", ">=", "in"]

def reOpOther : Pattern := oneOf ["pattern", "exec", ",", "||", "&&", "=", "!", "(", ")", ";"]

def reRegField : Pattern := oneOf ["default", "tag", "type", "multi", "priority", "secret"]

def reActField : Pattern :=
  oneOf ["help", "syntax", "commit", "delete", "update", "activate", "create", "begin", "end", "sub", "enumeration",
    "comp_help", "allowed", "val_help"]

/-- A line break and the line behind it, if that starts a field or a comment. -/
def reNextField : Pattern :=
  lit (str "\n") * ((reRegField + reActField) * lit (str ":") + lit (str "#")) * reDot.star

end Patterns

section Rules

def pass (_ : Bytes) (state : LexState) : Reaction := ⟨none, state, false⟩

def returns (token : Token) (_ : Bytes) (state : LexState) : Reaction := ⟨some token, state, false⟩

/-- The actions that look the text up in a table and go on if it is not there. -/
def returnsFrom (table : List (String × Token)) (text : Bytes) (state : LexState) : Reaction :=
  ⟨lookup table text, state, false⟩

def beginStr (before : Condition) (text : Bytes) (state : LexState) : Reaction :=
  ⟨none, { state with condition := .str, preStrState := before, strDelim := text.headD 0 }, false⟩

def quoteInStr (text : Bytes) (state : LexState) : Reaction :=
  if state.strDelim = text.headD 0 then
    ⟨some (returnStr state.strDelim), { state with condition := state.preStrState }, false⟩
  else
    ⟨none, state, false⟩

def beginField (condition : Condition) (text : Bytes) (state : LexState) : Reaction :=
  ⟨some (returnField actFields text), { state with condition := condition }, false⟩

/-- The rules that end an action or an expression before a field. -/
def nextField (token : Option Token) (_ : Bytes) (state : LexState) : Reaction :=
  ⟨token, { state with condition := .initial }, true⟩

def ruleIn (conditions : List Condition) (pattern : Pattern) (action : Bytes → LexState → Reaction) :
    List Condition × Flex.Rule UInt8 (LexState → Reaction) := (conditions, ⟨false, pattern, action⟩)

/-- The rules of cli_def.l with their start conditions. Those without are for INITIAL, since the others are
    exclusive. -/
def defRules : List (List Condition × Flex.Rule UInt8 (LexState → Reaction)) := [
  ruleIn [.initial] (lit (str "#") * (noneOf (str "\n")).star * lit (str "\n")) (returns .eol),
  ruleIn [.initial] (lit (str "\n")) (returns .eol),
  ruleIn [.initial] (reRegField * lit (str ":") * reBlank.star)
    fun text state => ⟨some (returnField regFields text), state, false⟩,
  ruleIn [.initial] (anyOf (str "`\"")) (beginStr .initial),
  ruleIn [.expression] (anyOf (str "`\"")) (beginStr .expression),
  ruleIn [.str] (anyOf (str "\"`")) quoteInStr,
  ruleIn [.str] (lit (str "\\\n")) pass,
  ruleIn [.str] (lit (str "\\") * reDot) pass,
  ruleIn [.str] (noneOf (str "\"`\\") * (noneOf (str "\"`\\")).star) pass,
  ruleIn [.initial] (reActField * lit (str ":") * reBlank.star * lit (str "expression:") * reBlank.star)
    (beginField .expression),
  ruleIn [.initial] (reActField * lit (str ":") * reBlank.star) (beginField .action),
  ruleIn [.expression] reNextField (nextField none),
  ruleIn [.expression] (lit (str "\n")) pass,
  ruleIn [.action] reNextField (nextField (some .string)),
  ruleIn [.action] (opt (lit (str "\n")) * reDot.star) pass,
  ruleIn [.initial, .expression] (reBlank * reBlank.star) pass,
  ruleIn [.expression] (lit (str "\\\n")) pass,
  ruleIn [.initial] reTypeName (returnsFrom typeNames),
  ruleIn [.expression] reOpCond (returnsFrom opCondStrs),
  ruleIn [.initial, .expression] reOpOther (returnsFrom opStrs),
  ruleIn [.expression] (lit (str "$VAR(") * (noneOf (str ")") * (noneOf (str ")")).star) * lit (str ")"))
    (returns .var),
  ruleIn [.initial, .expression] (valuePattern .priority) (returns .value),
  ruleIn [.initial, .expression] (valuePattern .int) (returns .value),
  ruleIn [.initial, .expression] (valuePattern .ipv4) (returns .value),
  ruleIn [.initial, .expression] (valuePattern .ipv4net) (returns .value),
  ruleIn [.initial, .expression] (valuePattern .ipv6) (returns .value),
  ruleIn [.initial, .expression] (valuePattern .ipv6net) (returns .value),
  ruleIn [.initial, .expression] (valuePattern .bool) (returns .value),
  ruleIn [.initial, .expression] (valuePattern .macaddr) (returns .value),
  ruleIn [.initial, .action, .expression, .str] reDot (returns .syntaxError)]

def rulesOf (condition : Condition) : List (Flex.Rule UInt8 (LexState → Reaction)) :=
  (defRules.filter fun entry => condition ∈ entry.1).map Prod.snd

/-- The actions for `<<EOF>>`. -/
def atEof (state : LexState) : Reaction :=
  match state.condition with
  | .str => ⟨some (returnStr state.strDelim), { state with condition := .initial }, false⟩
  | .expression => ⟨some .eol, { state with condition := .initial, eofSeen := true }, false⟩
  | .action => ⟨some .string, { state with condition := .initial }, false⟩
  | .initial =>
    if state.eofSeen then ⟨some .eof, { state with eofSeen := false }, false⟩
    else ⟨some .eol, { state with eofSeen := true }, false⟩

end Rules

section Scanner

/-- One action of the scanner. What no rule matches is echoed. -/
def lexOnce (state : LexState) (input : Bytes) : Reaction × Bytes :=
  match input with
  | [] => (atEof state, [])
  | b :: rest =>
    match Flex.choose false (b :: rest) (rulesOf state.condition) with
    | none => (⟨none, state, false⟩, rest)
    | some (n, rule) =>
      let reaction := rule.action ((b :: rest).take n) state
      (reaction, if reaction.unput then b :: rest else (b :: rest).drop n)

def lexFrom : Nat → LexState → Bytes → List Token
  | 0, _, _ => []
  | fuel + 1, state, input =>
    let (reaction, input) := lexOnce state input
    match reaction.token with
    | none => lexFrom fuel reaction.state input
    | some token => if token = .eof then [] else token :: lexFrom fuel reaction.state input

/-- A bound on the actions before the end: text is only put back in favour of INITIAL. -/
def remaining (state : LexState) (input : Bytes) : Nat :=
  2 * input.length + (if state.condition = .initial then 0 else 1) + (if state.eofSeen then 0 else 1)

def lexStart : LexState := ⟨.initial, .initial, 0, false⟩

/-- The tokens that the scanner delivers for a file. -/
def defTokens (content : Bytes) : List Token := lexFrom (remaining lexStart content + 1) lexStart content

/-- Text is only put back in favour of INITIAL, and the end of the file is not an action's business. -/
structure Keeps (conditions : List Condition) (action : Bytes → LexState → Reaction) : Prop where
  eofSeen : ∀ text state, (action text state).state.eofSeen = state.eofSeen
  unput : ∀ text state, state.condition ∈ conditions → (action text state).unput = true →
    state.condition ≠ .initial ∧ (action text state).state.condition = .initial

theorem Keeps.of_taken {conditions : List Condition} {action : Bytes → LexState → Reaction}
    (eofSeen : ∀ text state, (action text state).state.eofSeen = state.eofSeen)
    (taken : ∀ text state, (action text state).unput = false) : Keeps conditions action := by
  refine ⟨eofSeen, ?_⟩
  intro text state _ back
  rw [taken] at back
  cases back

theorem quoteInStr_keeps (conditions : List Condition) : Keeps conditions quoteInStr := by
  apply Keeps.of_taken
  · intro text state
    unfold quoteInStr
    split <;> rfl
  · intro text state
    unfold quoteInStr
    split <;> rfl

theorem nextField_keeps {conditions : List Condition} (exclusive : .initial ∉ conditions) (token : Option Token) :
    Keeps conditions (nextField token) := by
  refine ⟨fun _ _ => rfl, ?_⟩
  intro text state active _
  refine ⟨?_, rfl⟩
  intro initial
  exact exclusive (initial ▸ active)

theorem defRules_keep : ∀ entry ∈ defRules, Keeps entry.1 entry.2.action := by
  simp only [defRules, ruleIn, List.forall_mem_cons]
  and_intros
  all_goals first
    | exact .of_taken (fun _ _ => rfl) (fun _ _ => rfl)
    | exact quoteInStr_keeps _
    | exact nextField_keeps (by decide) _
    | exact fun _ none => nomatch none

variable {state : LexState} {input : Bytes}

theorem remaining_atEof (goes : (atEof state).token ≠ some .eof) :
    remaining (atEof state).state [] < remaining state [] := by
  rcases state with ⟨condition, before, delim, eofSeen⟩
  cases condition
  case initial =>
    cases eofSeen
    · simp [remaining, atEof]
    · exact absurd rfl goes
  all_goals cases eofSeen <;> simp [remaining, atEof]

theorem remaining_lexOnce (goes : (lexOnce state input).1.token ≠ some .eof) :
    remaining (lexOnce state input).1.state (lexOnce state input).2 < remaining state input := by
  cases input with
  | nil => exact remaining_atEof goes
  | cons b rest =>
    cases chosen : Flex.choose false (b :: rest) (rulesOf state.condition) with
    | none =>
      simp only [lexOnce, chosen, remaining, List.length_cons]
      omega
    | some best =>
      obtain ⟨n, rule⟩ := best
      obtain ⟨known, matched⟩ := Flex.choose_matches chosen
      obtain ⟨entry, listed, rfl⟩ := List.mem_map.mp known
      obtain ⟨inside, active⟩ := List.mem_filter.mp listed
      have keeps := defRules_keep entry inside
      have same := keeps.eofSeen ((b :: rest).take n) state
      have some := matched.some
      have fits := matched.inside
      simp only [lexOnce, chosen, remaining, same]
      cases back : (entry.2.action ((b :: rest).take n) state).unput with
      | true =>
        obtain ⟨other, initial⟩ := keeps.unput _ state (of_decide_eq_true active) back
        rw [if_neg other, if_pos initial]
        simp only [if_true]
        omega
      | false =>
        simp only [Bool.false_eq_true, if_false, List.length_drop]
        split <;> split <;> omega

/-- The scanner comes to its end: more actions than remain deliver nothing else. -/
theorem lexFrom_enough {fuel more : Nat} (enough : remaining state input < fuel) (atLeast : fuel ≤ more) :
    lexFrom more state input = lexFrom fuel state input := by
  induction fuel generalizing more state input with
  | zero => omega
  | succ fuel ih =>
    cases more with
    | zero => omega
    | succ more =>
      simp only [lexFrom]
      cases token : (lexOnce state input).1.token with
      | none =>
        have less := remaining_lexOnce (by rw [token]; simp)
        exact ih (by omega) (by omega)
      | some delivered =>
        simp only
        split
        · rfl
        · rename_i goes
          have less : remaining (lexOnce state input).1.state (lexOnce state input).2 < remaining state input := by
            apply remaining_lexOnce
            rw [token]
            intro same
            exact goes (Option.some.inj same)
          rw [ih (by omega) (by omega)]

end Scanner

end VyattaCfg.Cliexec
