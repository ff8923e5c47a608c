import VyattaCfg.Cliexec.TemplateParser
import VyattaCfg.Library.LongestMatch

namespace VyattaCfg.Cliexec

open ByteString Regex VyattaCfg.Client

section Values

/-- The state of the scanner with the text in front of `action_ptr` and of `str_ptr`. `ismulti` is what the coming
    VALUE tokens have in the place that `return_value` does not set. -/
structure DefState where
  lex : LexState
  action : Bytes
  str : Bytes
  ismulti : Nat → Bool

inductive Delivery where
  | goOn
  | deliver (token : DefToken)
  -- The zero that ends the parser's input.
  | eof

structure ValuedReaction where
  delivery : Delivery
  state : DefState
  unput : Bool

def Delivery.token : Delivery → Option Token
  | .goOn => none
  | .deliver token => some token.token
  | .eof => some .eof

def ValuedReaction.reaction (reaction : ValuedReaction) : Reaction :=
  ⟨reaction.delivery.token, reaction.state.lex, reaction.unput⟩

/-- Texts that are copied as C strings. -/
def stringToken (text : Bytes) : StringToken := ⟨cstr text, cstr_nul_free text⟩

def regTokens : List (String × DefToken) :=
  [("default", .default), ("tag", .tag), ("type", .type), ("multi", .multi), ("priority", .priority),
    ("secret", .secret)]

def actTokens : List (String × DefToken) :=
  [("help", .help), ("syntax", .syntaxField), ("commit", .commit), ("delete", .action .deleteAct),
    ("update", .action .updateAct), ("activate", .action .activateAct), ("create", .action .createAct),
    ("begin", .action .beginAct), ("end", .action .endAct), ("sub", .sub), ("enumeration", .enumeration),
    ("comp_help", .chelp), ("allowed", .allowed), ("val_help", .vhelp)]

def typeTokens : List (String × DefToken) :=
  [("txt", .typeDef .text), ("u32", .typeDef .int), ("ipv4", .typeDef .ipv4), ("ipv4net", .typeDef .ipv4net),
    ("ipv6", .typeDef .ipv6), ("ipv6net", .typeDef .ipv6net), ("bool", .typeDef .bool),
    ("macaddr", .typeDef .macaddr)]

def condTokens : List (String × DefToken) :=
  [("in", .exp (.cond .inCond)), ("==", .exp (.cond .eqCond)), ("!=", .exp (.cond .neCond)), ("<", .exp (.cond .ltCond)),
    (">", .exp (.cond .gtCond)), ("<=", .exp (.cond .leCond)), (">=", .exp (.cond .geCond))]

def opTokens : List (String × DefToken) :=
  [("pattern", .exp .pattern), ("exec", .exp .exec), (",", .exp .comma), ("||", .exp .or), ("&&", .exp .and),
    ("=", .exp .assign), ("!", .exp .not), ("(", .exp .lp), (")", .exp .rp), (";", .exp .semi)]

def lookupToken (table : List (String × DefToken)) (text : Bytes) : Option DefToken :=
  (table.find? fun entry => str entry.1 = text).map Prod.snd

/-- `return_act_field` and `return_reg_field`. -/
def fieldDelivery (table : List (String × DefToken)) (text : Bytes) : Delivery :=
  match lookupToken table (text.takeWhile (· ≠ ch ':')) with
  | some token => .deliver token
  | none => .eof

/-- `tbl`, whose index is a signed `char`. -/
def escapeTable (c : UInt8) : Option UInt8 :=
  if c = ch 'n' then some 10
  else if c = ch 't' then some 9
  else if c = ch 'r' then some 13
  else if c = ch 'b' then some 8
  else if c = ch 'f' then some 12
  else if c < 128 then some c
  else none

end Values

section Actions

/-- The actions of cli_def.l, `none` where what one reads is not a value: the element of `tbl` in front of its
    first, and a reference with a NUL in it. -/
abbrev ValuedAction := Bytes → DefState → Option ValuedReaction

def DefState.goesOn (state : DefState) : Option ValuedReaction := some ⟨.goOn, state, false⟩

def DefState.delivers (state : DefState) (token : DefToken) : Option ValuedReaction :=
  some ⟨.deliver token, state, false⟩

def DefState.begins (state : DefState) (condition : Condition) : DefState :=
  { state with lex := { state.lex with condition } }

def skips : ValuedAction := fun _ state => state.goesOn

def delivers (token : DefToken) : ValuedAction := fun _ state => state.delivers token

def deliversFrom (table : List (String × DefToken)) : ValuedAction := fun text state =>
  match lookupToken table text with
  | some token => state.delivers token
  | none => state.goesOn

def regField : ValuedAction := fun text state => some ⟨fieldDelivery regTokens text, state, false⟩

def actField (condition : Condition) : ValuedAction := fun text state =>
  some ⟨fieldDelivery actTokens text, state.begins condition, false⟩

def beginsStr (before : Condition) : ValuedAction := fun text state =>
  { state with lex := { state.lex with condition := .str, preStrState := before, strDelim := text.headD 0 } }.goesOn

def DefState.appendStr (state : DefState) (text : Bytes) : DefState := { state with str := state.str ++ cstr text }

def DefState.appendAction (state : DefState) (text : Bytes) : DefState :=
  { state with action := state.action ++ cstr text }

def DefState.returnStr (state : DefState) (condition : Condition) : ValuedReaction :=
  let text := stringToken state.str
  ⟨.deliver (.exp (if state.lex.strDelim = ch '"' then .string text else .exString text)),
    { state.begins condition with str := [] }, false⟩

def DefState.returnAction (state : DefState) (unput : Bool) : ValuedReaction :=
  ⟨.deliver (.exp (.string (stringToken state.action))), { state.begins .initial with action := [] }, unput⟩

def strQuote : ValuedAction := fun text state =>
  if state.lex.strDelim = text.headD 0 then some (state.returnStr state.lex.preStrState)
  else (state.appendStr [text.headD 0]).goesOn

def strEscape : ValuedAction := fun text state => do
  (state.appendStr [← escapeTable (text.getD 1 0)]).goesOn

def strText : ValuedAction := fun text state => (state.appendStr text).goesOn

def expressionEnds : ValuedAction := fun _ state => some ⟨.goOn, state.begins .initial, true⟩

def actionEnds : ValuedAction := fun _ state => some (state.returnAction true)

def actionLine : ValuedAction := fun text state => (state.appendAction text).goesOn

/-- The text of `\$VAR\([^)]+\)`. -/
def varAction : ValuedAction := fun text state =>
  let path := (text.drop 5).dropLast
  if valid : path ≠ [] ∧ ch ')' ∉ path ∧ 0 ∉ path then
    state.delivers (.exp (.var ⟨path, valid.1, valid.2.1, valid.2.2⟩))
  else none

/-- `return_value`. -/
def valueAction (type : VtwType) : ValuedAction := fun text state =>
  if known : text ∈ (valuePattern type).matches' then
    { state with ismulti := fun n => state.ismulti (n + 1) }.delivers
      (.exp (.value ⟨type, text, state.ismulti 0, known⟩))
  else none

def valuedRule (conditions : List Condition) (pattern : Pattern) (action : ValuedAction) :
    List Condition × Flex.Rule UInt8 (DefState → Option ValuedReaction) := (conditions, ⟨false, pattern, action⟩)

/-- The rules of cli_def.l, with what their actions make of the text. -/
def valuedRules : List (List Condition × Flex.Rule UInt8 (DefState → Option ValuedReaction)) := [
  valuedRule [.initial] (lit (str "#") * (noneOf (str "\n")).star * lit (str "\n")) (delivers .eol),
  valuedRule [.initial] (lit (str "\n")) (delivers .eol),
  valuedRule [.initial] (reRegField * lit (str ":") * reBlank.star) regField,
  valuedRule [.initial] (anyOf (str "`\"")) (beginsStr .initial),
  valuedRule [.expression] (anyOf (str "`\"")) (beginsStr .expression),
  valuedRule [.str] (anyOf (str "\"`")) strQuote,
  valuedRule [.str] (lit (str "\\\n")) skips,
  valuedRule [.str] (lit (str "\\") * reDot) strEscape,
  valuedRule [.str] (noneOf (str "\"`\\") * (noneOf (str "\"`\\")).star) strText,
  valuedRule [.initial] (reActField * lit (str ":") * reBlank.star * lit (str "expression:") * reBlank.star)
    (actField .expression),
  valuedRule [.initial] (reActField * lit (str ":") * reBlank.star) (actField .action),
  valuedRule [.expression] reNextField expressionEnds,
  valuedRule [.expression] (lit (str "\n")) skips,
  valuedRule [.action] reNextField actionEnds,
  valuedRule [.action] (opt (lit (str "\n")) * reDot.star) actionLine,
  valuedRule [.initial, .expression] (reBlank * reBlank.star) skips,
  valuedRule [.expression] (lit (str "\\\n")) skips,
  valuedRule [.initial] reTypeName (deliversFrom typeTokens),
  valuedRule [.expression] reOpCond (deliversFrom condTokens),
  valuedRule [.initial, .expression] reOpOther (deliversFrom opTokens),
  valuedRule [.expression] (lit (str "$VAR(") * (noneOf (str ")") * (noneOf (str ")")).star) * lit (str ")"))
    varAction,
  valuedRule [.initial, .expression] (valuePattern .priority) (valueAction .priority),
  valuedRule [.initial, .expression] (valuePattern .int) (valueAction .int),
  valuedRule [.initial, .expression] (valuePattern .ipv4) (valueAction .ipv4),
  valuedRule [.initial, .expression] (valuePattern .ipv4net) (valueAction .ipv4net),
  valuedRule [.initial, .expression] (valuePattern .ipv6) (valueAction .ipv6),
  valuedRule [.initial, .expression] (valuePattern .ipv6net) (valueAction .ipv6net),
  valuedRule [.initial, .expression] (valuePattern .bool) (valueAction .bool),
  valuedRule [.initial, .expression] (valuePattern .macaddr) (valueAction .macaddr),
  valuedRule [.initial, .action, .expression, .str] reDot (delivers .syntaxError)]

def valuedRulesOf (condition : Condition) : List (Flex.Rule UInt8 (DefState → Option ValuedReaction)) :=
  (valuedRules.filter fun entry => condition ∈ entry.1).map Prod.snd

/-- The actions for `<<EOF>>`. -/
def valuedAtEof (state : DefState) : ValuedReaction :=
  match state.lex.condition with
  | .str => state.returnStr .initial
  | .expression =>
    ⟨.deliver .eol, { state with lex := { state.lex with condition := .initial, eofSeen := true } }, false⟩
  | .action => state.returnAction false
  | .initial =>
    if state.lex.eofSeen then ⟨.eof, { state with lex := { state.lex with eofSeen := false } }, false⟩
    else ⟨.deliver .eol, { state with lex := { state.lex with eofSeen := true } }, false⟩

end Actions

section Scanner

def valuedOnce (state : DefState) (input : Bytes) : Option (ValuedReaction × Bytes) :=
  match input with
  | [] => some (valuedAtEof state, [])
  | b :: rest =>
    match Flex.choose false (b :: rest) (valuedRulesOf state.lex.condition) with
    | none => some (⟨.goOn, state, false⟩, rest)
    | some (n, rule) => do
      let reaction ← rule.action ((b :: rest).take n) state
      some (reaction, if reaction.unput then b :: rest else (b :: rest).drop n)

def valuedFrom : Nat → DefState → Bytes → Option (List DefToken)
  | 0, _, _ => some []
  | fuel + 1, state, input => do
    let (reaction, input) ← valuedOnce state input
    match reaction.delivery with
    | .goOn => valuedFrom fuel reaction.state input
    | .deliver token => some (token :: (← valuedFrom fuel reaction.state input))
    | .eof => some []

def valuedStart (ismulti : Nat → Bool) : DefState := ⟨lexStart, [], [], ismulti⟩

/-- The tokens of a file with their values. -/
def valuedTokens (ismulti : Nat → Bool) (content : Bytes) : Option (List DefToken) :=
  valuedFrom (remaining lexStart content + 1) (valuedStart ismulti) content

end Scanner

section Kinds

/-- The values are all that an action adds. -/
structure Adds (action : ValuedAction) (plain : Bytes → LexState → Reaction) : Prop where
  same : ∀ {text state reaction}, action text state = some reaction → reaction.reaction = plain text state.lex

theorem lookup_token (table : List (String × DefToken)) (text : Bytes) :
    (lookupToken table text).map DefToken.token = lookup (table.map fun entry => (entry.1, entry.2.token)) text := by
  rw [lookupToken, lookup, List.find?_map, Option.map_map, Option.map_map]
  rfl

theorem adds_lookup (table : List (String × DefToken)) :
    Adds (deliversFrom table) (returnsFrom (table.map fun entry => (entry.1, entry.2.token))) := by
  constructor
  intro text state reaction acted
  rw [returnsFrom, ← lookup_token]
  unfold deliversFrom at acted
  split at acted <;> rename_i found <;> cases acted <;> rw [found] <;> rfl

theorem adds_delivers (token : DefToken) : Adds (delivers token) (returns token.token) := by
  constructor
  intro text state reaction acted
  cases acted
  rfl

theorem adds_skips : Adds skips pass := by
  constructor
  intro text state reaction acted
  cases acted
  rfl

theorem fieldDelivery_token (table : List (String × DefToken)) (text : Bytes) :
    (fieldDelivery table text).token =
      some (returnField (table.map fun entry => (entry.1, entry.2.token)) text) := by
  rw [returnField, ← lookup_token, fieldDelivery]
  cases lookupToken table (text.takeWhile (· ≠ ch ':')) <;> rfl

theorem adds_regField : Adds regField fun text state => ⟨some (returnField regFields text), state, false⟩ := by
  constructor
  intro text state reaction acted
  cases acted
  rw [ValuedReaction.reaction, fieldDelivery_token]
  rfl

theorem adds_actField (condition : Condition) : Adds (actField condition) (beginField condition) := by
  constructor
  intro text state reaction acted
  cases acted
  rw [ValuedReaction.reaction, fieldDelivery_token]
  rfl

theorem adds_beginsStr (before : Condition) : Adds (beginsStr before) (beginStr before) := by
  constructor
  intro text state reaction acted
  cases acted
  rfl

theorem returnStr_token (state : DefState) (condition : Condition) :
    (state.returnStr condition).reaction =
      ⟨some (returnStr state.lex.strDelim), { state.lex with condition }, false⟩ := by
  unfold ValuedReaction.reaction DefState.returnStr returnStr
  split <;> rfl

theorem adds_strQuote : Adds strQuote quoteInStr := by
  constructor
  intro text state reaction acted
  unfold strQuote at acted
  unfold quoteInStr
  split at acted <;> rename_i quote <;> cases acted
  · rw [returnStr_token, if_pos quote]
  · rw [if_neg quote]
    rfl

theorem adds_strEscape : Adds strEscape pass := by
  constructor
  intro text state reaction acted
  obtain ⟨c, -, same⟩ := Option.bind_eq_some_iff.mp acted
  cases same
  rfl

theorem adds_varAction : Adds varAction (returns .var) := by
  constructor
  intro text state reaction acted
  unfold varAction at acted
  simp only at acted
  split at acted <;> cases acted
  rfl

theorem adds_valueAction (type : VtwType) : Adds (valueAction type) (returns .value) := by
  constructor
  intro text state reaction acted
  unfold valueAction at acted
  split at acted <;> cases acted
  rfl

theorem adds_plain {action : ValuedAction} {plain : Bytes → LexState → Reaction}
    (total : ∀ text state, ∃ reaction, action text state = some reaction ∧ reaction.reaction = plain text state.lex) :
    Adds action plain := by
  constructor
  intro text state reaction acted
  obtain ⟨made, same, kept⟩ := total text state
  rw [← Option.some.inj (same.symm.trans acted)]
  exact kept

def SameRule (valued : List Condition × Flex.Rule UInt8 (DefState → Option ValuedReaction))
    (plain : List Condition × Flex.Rule UInt8 (LexState → Reaction)) : Prop :=
  valued.1 = plain.1 ∧ valued.2.bol = plain.2.bol ∧ valued.2.pattern = plain.2.pattern ∧
    Adds valued.2.action plain.2.action

theorem valuedRules_same : List.Forall₂ SameRule valuedRules defRules := by
  have rule : ∀ {conditions : List Condition} {pattern : Pattern} {action : ValuedAction}
      {plain : Bytes → LexState → Reaction}, Adds action plain →
        SameRule (valuedRule conditions pattern action) (ruleIn conditions pattern plain) :=
    fun adds => ⟨rfl, rfl, rfl, adds⟩
  unfold valuedRules defRules
  exact
    .cons (rule (adds_delivers .eol)) <|
    .cons (rule (adds_delivers .eol)) <|
    .cons (rule adds_regField) <|
    .cons (rule (adds_beginsStr .initial)) <|
    .cons (rule (adds_beginsStr .expression)) <|
    .cons (rule adds_strQuote) <|
    .cons (rule adds_skips) <|
    .cons (rule adds_strEscape) <|
    .cons (rule (adds_plain fun _ _ => ⟨_, rfl, rfl⟩)) <|
    .cons (rule (adds_actField .expression)) <|
    .cons (rule (adds_actField .action)) <|
    .cons (rule (adds_plain fun _ _ => ⟨_, rfl, rfl⟩)) <|
    .cons (rule adds_skips) <|
    .cons (rule (adds_plain fun _ _ => ⟨_, rfl, rfl⟩)) <|
    .cons (rule (adds_plain fun _ _ => ⟨_, rfl, rfl⟩)) <|
    .cons (rule adds_skips) <|
    .cons (rule adds_skips) <|
    .cons (rule (adds_lookup typeTokens)) <|
    .cons (rule (adds_lookup condTokens)) <|
    .cons (rule (adds_lookup opTokens)) <|
    .cons (rule adds_varAction) <|
    .cons (rule (adds_valueAction .priority)) <|
    .cons (rule (adds_valueAction .int)) <|
    .cons (rule (adds_valueAction .ipv4)) <|
    .cons (rule (adds_valueAction .ipv4net)) <|
    .cons (rule (adds_valueAction .ipv6)) <|
    .cons (rule (adds_valueAction .ipv6net)) <|
    .cons (rule (adds_valueAction .bool)) <|
    .cons (rule (adds_valueAction .macaddr)) <|
    .cons (rule (adds_delivers .syntaxError)) .nil

theorem valuedRulesOf_same (condition : Condition) : List.Forall₂ (fun valued plain => valued.bol = plain.bol ∧
    valued.pattern = plain.pattern ∧ Adds valued.action plain.action) (valuedRulesOf condition) (rulesOf condition) := by
  have selected := List.rel_filter (p := fun entry => decide (condition ∈ entry.1))
    (q := fun entry => decide (condition ∈ entry.1)) (R := SameRule) (by
      intro valued plain same
      simp only [same.1]) valuedRules_same
  rw [valuedRulesOf, rulesOf, List.forall₂_map_left_iff, List.forall₂_map_right_iff]
  exact selected.imp fun _ _ same => same.2

theorem valuedOnce_reaction {state : DefState} {input rest : Bytes} {reaction : ValuedReaction}
    (once : valuedOnce state input = some (reaction, rest)) : lexOnce state.lex input = (reaction.reaction, rest) := by
  cases input with
  | nil =>
    cases once
    obtain ⟨⟨condition, preStrState, strDelim, eofSeen⟩, action, text, ismulti⟩ := state
    cases condition with
    | str => exact congrArg (·, []) (returnStr_token ⟨⟨.str, preStrState, strDelim, eofSeen⟩, action, text, ismulti⟩
        .initial).symm
    | expression => rfl
    | action => rfl
    | initial => cases eofSeen <;> rfl
  | cons b input =>
    have chosen := Flex.choose_rel false (b :: input) (fun _ _ same => ⟨same.1, same.2.1⟩)
      (valuedRulesOf_same state.lex.condition)
    rw [valuedOnce] at once
    rw [lexOnce]
    generalize Flex.choose false (b :: input) (valuedRulesOf state.lex.condition) = valued at chosen once
    generalize Flex.choose false (b :: input) (rulesOf state.lex.condition) = plainly at chosen
    cases chosen with
    | none =>
      cases once
      rfl
    | @some best best' related =>
      obtain ⟨n, rule⟩ := best
      obtain ⟨m, plain⟩ := best'
      obtain ⟨rfl, -, -, adds⟩ := related
      obtain ⟨reaction, acted, same⟩ := Option.bind_eq_some_iff.mp once
      obtain ⟨rfl, rfl⟩ := Prod.mk.inj (Option.some.inj same)
      simp only
      rw [← adds.same acted]
      rfl

theorem token_ne_eof (token : DefToken) : token.token ≠ .eof := by
  cases token with
  | exp token => cases token <;> exact nofun
  | _ => exact nofun

theorem valuedFrom_tokens {fuel : Nat} {state : DefState} {input : Bytes} {tokens : List DefToken}
    (scanned : valuedFrom fuel state input = some tokens) :
    lexFrom fuel state.lex input = tokens.map DefToken.token := by
  induction fuel generalizing state input tokens with
  | zero =>
    cases scanned
    rfl
  | succ fuel ih =>
    obtain ⟨⟨reaction, rest⟩, once, scanned⟩ := Option.bind_eq_some_iff.mp scanned
    rw [lexFrom, valuedOnce_reaction once]
    cases delivery : reaction.delivery with
    | goOn =>
      simp only [delivery] at scanned
      simp only [ValuedReaction.reaction, delivery, Delivery.token]
      exact ih scanned
    | deliver token =>
      simp only [delivery] at scanned
      obtain ⟨later, more, same⟩ := Option.bind_eq_some_iff.mp scanned
      cases same
      simp only [ValuedReaction.reaction, delivery, Delivery.token]
      rw [if_neg (token_ne_eof token), ih more]
      rfl
    | eof =>
      simp only [delivery] at scanned
      cases scanned
      simp only [ValuedReaction.reaction, delivery, Delivery.token, if_true]
      rfl

/-- The tokens with their values are those of `defTokens`. -/
theorem valuedTokens_tokens {ismulti : Nat → Bool} {content : Bytes} {tokens : List DefToken}
    (scanned : valuedTokens ismulti content = some tokens) : defTokens content = tokens.map DefToken.token :=
  valuedFrom_tokens scanned

end Kinds

section Defined

/-- What the actions read as values: no NUL, and no backslash in front of a byte that is negative as a `char`. -/
structure Readable (content : Bytes) : Prop where
  free : 0 ∉ content
  ascii : ∀ c, [ch '\\', c] <:+: content → c < 128

theorem Readable.within {content part : Bytes} (readable : Readable content) (inside : part <:+: content) :
    Readable part where
  free member := readable.free (inside.subset member)
  ascii c escaped := readable.ascii c (escaped.trans inside)

/-- The action makes something of every text of its rule. -/
structure Total (pattern : Pattern) (action : ValuedAction) : Prop where
  some : ∀ {text : Bytes}, text ∈ pattern.matches' → Readable text → ∀ state, ∃ reaction, action text state = some reaction

theorem total_strQuote (pattern : Pattern) : Total pattern strQuote := by
  constructor
  intro text _ _ state
  unfold strQuote
  split <;> exact ⟨_, rfl⟩

theorem total_deliversFrom (table : List (String × DefToken)) (pattern : Pattern) :
    Total pattern (deliversFrom table) := by
  constructor
  intro text _ _ state
  unfold deliversFrom
  split <;> exact ⟨_, rfl⟩

theorem escapeTable_ascii {c : UInt8} (ascii : c < 128) : ∃ d, escapeTable c = some d := by
  unfold escapeTable
  split_ifs <;> exact ⟨_, rfl⟩

theorem total_strEscape : Total (lit (str "\\") * reDot) strEscape := by
  constructor
  intro text word readable state
  obtain ⟨slash, first, dot, second, rfl⟩ := mem_mul.mp word
  obtain ⟨c, -, rfl⟩ := mem_anyOf.mp second
  rw [mem_lit.mp first] at readable ⊢
  obtain ⟨d, found⟩ := escapeTable_ascii (readable.ascii c (List.infix_refl _))
  refine ⟨⟨.goOn, state.appendStr [d], false⟩, ?_⟩
  show (escapeTable c).bind _ = _
  rw [found]
  rfl

theorem total_valueAction (type : VtwType) : Total (valuePattern type) (valueAction type) := by
  constructor
  intro text word _ state
  rw [valueAction, dif_pos word]
  exact ⟨_, rfl⟩

theorem total_varAction :
    Total (lit (str "$VAR(") * (noneOf (str ")") * (noneOf (str ")")).star) * lit (str ")")) varAction := by
  constructor
  intro text word readable state
  obtain ⟨front, opened, last, closed, rfl⟩ := mem_mul.mp word
  obtain ⟨marker, first, path, inside, rfl⟩ := mem_mul.mp opened
  rw [mem_lit.mp first, mem_lit.mp closed] at readable ⊢
  have same : ((str "$VAR(" ++ path ++ str ")").drop 5).dropLast = path := by
    rw [List.append_assoc]
    exact List.dropLast_concat
  have filled : path ≠ [] ∧ ch ')' ∉ path ∧ 0 ∉ path := by
    obtain ⟨start, one, rest, more, rfl⟩ := mem_mul.mp inside
    obtain ⟨c, other, rfl⟩ := mem_anyOf.mp one
    refine ⟨nofun, ?_, ?_⟩
    · intro member
      rcases List.mem_cons.mp member with rfl | member
      · exact absurd other (by decide)
      · exact absurd (mem_star_anyOf more _ member) (by decide)
    · intro member
      exact readable.free (List.mem_append_left _ (List.mem_append_right _ member))
  unfold varAction
  simp only [same, dif_pos filled]
  exact ⟨_, rfl⟩

theorem total_plain {pattern : Pattern} {action : ValuedAction}
    (total : ∀ text state, ∃ reaction, action text state = some reaction) : Total pattern action :=
  ⟨fun _ _ state => total _ state⟩

theorem valuedRules_total : ∀ entry ∈ valuedRules, Total entry.2.pattern entry.2.action := by
  unfold valuedRules
  simp only [List.forall_mem_cons]
  exact ⟨total_plain fun _ _ => ⟨_, rfl⟩, total_plain fun _ _ => ⟨_, rfl⟩, total_plain fun _ _ => ⟨_, rfl⟩,
    total_plain fun _ _ => ⟨_, rfl⟩, total_plain fun _ _ => ⟨_, rfl⟩, total_strQuote _, total_plain fun _ _ => ⟨_, rfl⟩,
    total_strEscape, total_plain fun _ _ => ⟨_, rfl⟩, total_plain fun _ _ => ⟨_, rfl⟩,
    total_plain fun _ _ => ⟨_, rfl⟩, total_plain fun _ _ => ⟨_, rfl⟩, total_plain fun _ _ => ⟨_, rfl⟩,
    total_plain fun _ _ => ⟨_, rfl⟩, total_plain fun _ _ => ⟨_, rfl⟩, total_plain fun _ _ => ⟨_, rfl⟩,
    total_plain fun _ _ => ⟨_, rfl⟩, total_deliversFrom _ _, total_deliversFrom _ _, total_deliversFrom _ _,
    total_varAction, total_valueAction .priority, total_valueAction .int, total_valueAction .ipv4,
    total_valueAction .ipv4net, total_valueAction .ipv6, total_valueAction .ipv6net, total_valueAction .bool,
    total_valueAction .macaddr, total_plain fun _ _ => ⟨_, rfl⟩, List.forall_mem_nil _⟩

theorem valuedOnce_total {input : Bytes} (readable : Readable input) (state : DefState) :
    ∃ reaction rest, valuedOnce state input = some (reaction, rest) ∧ rest <:+ input := by
  cases input with
  | nil => exact ⟨_, _, rfl, List.suffix_refl _⟩
  | cons b input =>
    rw [valuedOnce]
    cases chosen : Flex.choose false (b :: input) (valuedRulesOf state.lex.condition) with
    | none => exact ⟨_, _, rfl, List.suffix_cons b input⟩
    | some best =>
      obtain ⟨n, rule⟩ := best
      obtain ⟨member, matched⟩ := Flex.choose_matches chosen
      obtain ⟨entry, known, rfl⟩ := List.mem_map.mp member
      have total := valuedRules_total entry (List.mem_of_mem_filter known)
      obtain ⟨reaction, acted⟩ := total.some matched.mem (readable.within (List.take_prefix n _).isInfix) state
      refine ⟨reaction, _, by simp only [acted]; rfl, ?_⟩
      split
      · exact List.suffix_refl _
      · exact List.drop_suffix n _

theorem valuedFrom_total {input : Bytes} (readable : Readable input) (fuel : Nat) (state : DefState) :
    ∃ tokens, valuedFrom fuel state input = some tokens := by
  induction fuel generalizing state input with
  | zero => exact ⟨[], rfl⟩
  | succ fuel ih =>
    obtain ⟨reaction, rest, once, inside⟩ := valuedOnce_total readable state
    obtain ⟨tokens, later⟩ := ih (readable.within inside.isInfix) reaction.state
    rw [valuedFrom, once]
    simp only [Option.bind_eq_bind, Option.bind_some]
    cases reaction.delivery with
    | goOn => exact ⟨tokens, later⟩
    | deliver token => exact ⟨token :: tokens, by simp only [later, Option.bind_some]⟩
    | eof => exact ⟨[], rfl⟩

end Defined

end VyattaCfg.Cliexec
