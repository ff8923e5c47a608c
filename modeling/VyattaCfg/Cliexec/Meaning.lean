import VyattaCfg.Cliexec.TemplateTrees
import VyattaCfg.Library.ShortCircuit

namespace VyattaCfg.Cliexec

open ByteString VyattaCfg.Client Outcome ShortCircuit

section Clauses

/-- What `sub` may say, `exp` says as well. -/
def AssignExp.exp : AssignExp → Exp
  | .assign var val => .assign var val
  | .and left right => .and left.exp right.exp
  | .or left right => .or left.exp right.exp
  | .help exp text => .help exp.exp text

def Action.tree : Action → Exp
  | .exec command => .exec command
  | .execHelp command text => .help (.exec command) text
  | .exp tree => tree

def Clause.exp : Clause → Exp
  | .action tree _ => tree.tree
  | .sub exp => exp.exp

def Clause.aux : Clause → Bool
  | .action _ aux => aux
  | .sub _ => false

theorem assignExp_tree (exp : AssignExp) : exp.build = exp.exp.build := by
  induction exp with
  | assign var val => rfl
  | and left right ihLeft ihRight | or left right ihLeft ihRight =>
    rw [AssignExp.build, AssignExp.exp, Exp.build, ihLeft, ihRight]
  | help exp text ih => rw [AssignExp.build, AssignExp.exp, Exp.build, ih]

theorem clause_tree (clause : Clause) : clause.build = clause.exp.build >>= fun node => .ok (node, clause.aux) := by
  cases clause with
  | action action aux => cases action <;> rfl
  | sub exp =>
    show (exp.build >>= fun node => .ok (node, false)) = _
    rw [assignExp_tree]
    rfl

end Clauses

section Meaning

variable {σ : Type} (w : World σ) (g : Globals) (rightPart : σ → Nat) (prependMsg : Option Bytes) (format : Bool)

def Val0.literal : Val0 → ValStruct
  | .item first => first.build.val
  | .comma first second => addVal first.literal second.build.val

/-- `@` is the value that is checked; `@@` names values of the store. -/
def VarToken.operand (token : VarToken) (state : σ) : Except Abort (Except Int ValStruct × σ) :=
  if token.path.head? = some (ch '@') ∧ token.path[1]? ≠ some (ch '@') then .ok (.ok g.validateValue, state)
  else
    let (got, state) := refLookup w g state token.path
    .ok (refOperand got, state)

def Val.operand : Val → σ → Except Abort (Except Int ValStruct × σ)
  | .var token => token.operand w g
  | .val0 values => fun state => .ok (.ok values.literal, state)
  | .exString token => evalBQuoteOp w g token.text

def condMeaning (cond : VtwCond) (left right : ValStruct) : Test Abort σ := fun state => do
  .ok (← compareOperands (rightPart state) left right cond, state)

/-- Whether every value of the operand matches. -/
def patternMeaning (regex : StringToken) (operand : ValStruct) : Test Abort σ := fun state =>
  match w.regcomp regex.text with
  | none => .error .badRegex
  | some regexec =>
    if operand.vals = [] then
      match operand.val with
      | none => .error .nullPointer
      | some val => .ok (regexec val, state)
    else .ok (operand.vals.all fun value => regexec value.1, state)

/-- Only a single value is assigned, and only where there is one. -/
def assignMeaning (var : VarToken) (operand : ValStruct) : Test Abort σ := fun state =>
  if operand.vals ≠ [] then .ok (false, state) else .ok (true, changeVarValue w g var.path operand.val state)

def execMeaning (command : StringToken) : Test Abort σ := fun state => do
  let expansion ← expandString w g command.text state
  if expansion.status ≠ 0 then .ok (false, expansion.state)
  else
    let (ret, state) := w.systemOut expansion.state expansion.exeString
    .ok (ret = 0, state)

/-- A text that cannot be expanded is not told. -/
def helpMeaning (help : StringToken) (state : σ) : Except Abort σ := do
  let expansion ← expandString w g help.text state
  if expansion.status = 0 then
    .ok (w.outputUser expansion.state (helpText prependMsg format expansion.exeString))
  else .ok expansion.state

def Exp.meaning : Exp → Test Abort σ
  | .and left right => both left.meaning right.meaning
  | .or left right => either left.meaning right.meaning
  | .cond left op right =>
    given (left.operand w g) fun left => given (right.operand w g) fun right => condMeaning rightPart op left right
  | .pattern var regex => given (var.operand w g) (patternMeaning w regex)
  | .exec command => execMeaning w g command
  | .not exp => negated exp.meaning
  | .help exp text => told exp.meaning (helpMeaning w g prependMsg format text)
  | .assign var val => given (val.operand w g) (assignMeaning w g var)

/-- A clause of `commit` says yes outside of a commit. -/
def Clause.meaning (clause : Clause) : Test Abort σ :=
  if g.inCommit ∨ clause.aux = false then clause.exp.meaning w g rightPart prependMsg format else answer true

end Meaning

section Built

variable {σ : Type} {w : World σ} {g : Globals} {rightPart : σ → Nat} {prependMsg : Option Bytes} {format : Bool}

theorem val0_literal (values : Val0) : values.build = .ok ⟨values.literal, true⟩ := by
  induction values with
  | item item => cases item <;> rfl
  | comma first second ih =>
    have free : second.build.freeMe := by cases second <;> rfl
    have single : second.build.val.vals = [] := by cases second <;> rfl
    rw [Val0.build, ih]
    exact addValOwned_ok rfl free single

theorem varToken_path (token : VarToken) : (token.text.drop varRefMarker.length).takeWhile (· ≠ ch ')') = token.path := by
  have behind : token.text.drop varRefMarker.length = token.path ++ str ")" := List.drop_left
  have free : ∀ c ∈ token.path, decide (c ≠ ch ')') = true := by
    intro c inside
    apply decide_eq_true
    intro paren
    rw [paren] at inside
    exact token.closed inside
  rw [behind, List.takeWhile_append_of_pos free]
  exact List.append_nil _

theorem varToken_operand (token : VarToken) : evalVa w g (.makeVarNode token.text) = token.operand w g := by
  funext state
  have marked : varRefMarker <+: token.text := List.prefix_append _ _
  have behind : token.text.drop varRefMarker.length = token.path ++ str ")" := List.drop_left
  have paren : ch ')' ∈ token.path ++ str ")" := List.mem_append_right _ (List.mem_singleton.mpr rfl)
  have self : ((token.path ++ str ")").head? = some (ch '@') ∧ (token.path ++ str ")")[1]? ≠ some (ch '@')) ↔
      (token.path.head? = some (ch '@') ∧ token.path[1]? ≠ some (ch '@')) := by
    obtain ⟨c, rest, path⟩ := List.exists_cons_of_ne_nil token.filled
    rw [path]
    cases rest with
    | nil => simp [str, ch]
    | cons d rest => rfl
  have path := varToken_path token
  show evalVarOp w g token.text state = _
  rw [behind] at path
  rw [evalVarOp, if_neg (not_not.mpr marked), VarToken.operand]
  simp only [behind, self, path, paren, not_true, if_false]

theorem val_operand {val : Val} {node : VtwNode} (built : val.build = .ok node) :
    evalVa w g node = val.operand w g := by
  cases val with
  | var token =>
    rw [← Except.ok.inj built]
    exact varToken_operand token
  | val0 values =>
    rw [Val.build, val0_literal] at built
    rw [← Except.ok.inj built]
    rfl
  | exString token =>
    rw [← Except.ok.inj built]
    rfl

/-- What is done with an operand does not ask whether it is owned. -/
theorem given_owned (node : VtwNode) (test : ValStruct → Test Abort σ) :
    given (evalVaOwned w g node) (fun operand => test operand.val) = given (evalVa w g node) test := by
  funext state
  rw [given, given, ← evalVaOwned_val]
  cases evalVaOwned w g node state with
  | error abort => rfl
  | ok result =>
    rcases result with ⟨operand, after⟩
    cases operand <;> rfl

theorem checkCond_meaning (cond : VtwCond) (left right : VtwNode) :
    checkCond w g rightPart cond left right =
      given (evalVa w g left) fun left => given (evalVa w g right) fun right => condMeaning rightPart cond left right := by
  have inner (lval : Owned) : given (evalVaOwned w g right) (fun rval => condMeaning rightPart cond lval.val rval.val) =
      given (evalVa w g right) fun rval => condMeaning rightPart cond lval.val rval :=
    given_owned right (condMeaning rightPart cond lval.val)
  rw [← given_owned]
  funext state
  apply given_eq (fun _ _ => rfl)
  intro lval middle
  rw [← inner]
  exact given_eq (fun _ _ => rfl) (fun _ _ => rfl) middle

theorem checkAssign_meaning (var : VarToken) (right : VtwNode) :
    checkAssign w g (.makeVarNode var.text) right = given (evalVa w g right) (assignMeaning w g var) := by
  have marked : varRefMarker <+: var.text := List.prefix_append _ _
  rw [← given_owned]
  funext state
  apply given_eq (fun _ _ => rfl)
  intro operand after
  rw [assignMeaning, ← varToken_path]
  by_cases multi : operand.val.vals ≠ []
  · rw [if_pos multi]
    exact if_pos multi
  · rw [if_neg multi]
    refine (if_neg multi).trans ?_
    exact if_neg (t := .ok (false, after)) (not_not.mpr marked)

theorem checkPattern_meaning (left : VtwNode) (regex : StringToken) :
    checkPattern w g left (.makeStrNode regex.text) = given (evalVa w g left) (patternMeaning w regex) := by
  rw [← given_owned]
  funext state
  apply given_eq (fun _ _ => rfl)
  intro operand after
  rfl

theorem exp_meaning {exp : Exp} {node : VtwNode} (built : exp.build = .ok node) :
    checkSyn w g rightPart prependMsg format node = exp.meaning w g rightPart prependMsg format := by
  induction exp generalizing node with
  | and left right ihLeft ihRight =>
    obtain ⟨first, builtLeft, rest⟩ := bind_ok.mp built
    obtain ⟨second, builtRight, same⟩ := bind_ok.mp rest
    cases same
    rw [Exp.meaning, ← ihLeft builtLeft, ← ihRight builtRight]
    rfl
  | or left right ihLeft ihRight =>
    obtain ⟨first, builtLeft, rest⟩ := bind_ok.mp built
    obtain ⟨second, builtRight, same⟩ := bind_ok.mp rest
    cases same
    rw [Exp.meaning, ← ihLeft builtLeft, ← ihRight builtRight]
    rfl
  | cond left op right =>
    obtain ⟨first, builtLeft, rest⟩ := bind_ok.mp built
    obtain ⟨second, builtRight, same⟩ := bind_ok.mp rest
    cases same
    rw [Exp.meaning, ← val_operand builtLeft, ← val_operand builtRight]
    exact checkCond_meaning op first second
  | pattern var regex =>
    cases built
    rw [Exp.meaning, ← varToken_operand]
    exact checkPattern_meaning _ regex
  | exec command =>
    cases built
    rfl
  | not exp ih =>
    obtain ⟨node, builtExp, same⟩ := bind_ok.mp built
    cases same
    rw [Exp.meaning, ← ih builtExp]
    rfl
  | help exp text ih =>
    obtain ⟨node, builtExp, same⟩ := bind_ok.mp built
    cases same
    rw [Exp.meaning, ← ih builtExp]
    rfl
  | assign var val =>
    obtain ⟨node, builtVal, same⟩ := bind_ok.mp built
    cases same
    rw [Exp.meaning, ← val_operand builtVal]
    exact checkAssign_meaning var node

end Built

section Lists

/-- The list of nodes with their flags. -/
def chain : List (VtwNode × Bool) → VtwNode
  | [] => .null
  | (node, aux) :: rest => listNode node aux (chain rest)

theorem append_chain (nodes : List (VtwNode × Bool)) (node : VtwNode) (aux : Bool) :
    append (chain nodes) node aux = chain (nodes ++ [(node, aux)]) := by
  induction nodes with
  | nil => rfl
  | cons first nodes ih =>
    show listNode first.1 first.2 (append (chain nodes) node aux) = _
    rw [ih]
    rfl

theorem buildList_chain {clauses : List Clause} {built : List (VtwNode × Bool)}
    (each : clauses.mapM Clause.build = .ok built) (nodes : List (VtwNode × Bool)) :
    buildList (chain nodes) clauses = .ok (chain (nodes ++ built)) := by
  induction clauses generalizing nodes built with
  | nil =>
    rw [List.mapM_nil] at each
    cases each
    rw [List.append_nil]
    rfl
  | cons clause clauses ih =>
    rw [List.mapM_cons] at each
    obtain ⟨node, builtClause, rest⟩ := bind_ok.mp each
    obtain ⟨others, builtRest, same⟩ := bind_ok.mp rest
    cases same
    rw [buildList, builtClause]
    show buildList (append (chain nodes) node.1 node.2) clauses = _
    rw [append_chain, ih builtRest, List.append_assoc]
    rfl

variable {σ : Type} {w : World σ} {g : Globals} {rightPart : σ → Nat} {prependMsg : Option Bytes} {format : Bool}

theorem listNode_meaning {node next : VtwNode} {aux : Bool} {first rest : Test Abort σ}
    (meaning : checkSyn w g rightPart prependMsg format node = first)
    (following : next = .null ∧ rest = answer true ∨
      next.isNull = false ∧ checkSyn w g rightPart prependMsg format next = rest) :
    checkSyn w g rightPart prependMsg format (listNode node aux next) =
      both (if g.inCommit ∨ aux = false then first else answer true) rest := by
  -- what the list goes on with behind the answer of the node
  have goesOn : ∀ result : Bool × σ, (if ¬ result.1 ∨ next.isNull then .ok result
      else checkSyn w g rightPart prependMsg format next result.2) =
        (if result.1 then rest result.2 else .ok (false, result.2)) := by
    intro result
    rcases result with ⟨ret, after⟩
    rcases following with ⟨rfl, rfl⟩ | ⟨more, rfl⟩
    · cases ret <;> rfl
    · cases ret <;> simp [more]
  funext state
  simp only [listNode, checkSyn]
  split
  · rw [meaning]
    exact congrArg (first state >>= ·) (funext goesOn)
  · exact goesOn (true, state)

theorem chain_meaning {clauses : List Clause} {built : List (VtwNode × Bool)} (nonempty : clauses ≠ [])
    (each : clauses.mapM Clause.build = .ok built) :
    checkSyn w g rightPart prependMsg format (chain built) =
      inOrder (clauses.map (Clause.meaning w g rightPart prependMsg format)) := by
  induction clauses generalizing built with
  | nil => exact absurd rfl nonempty
  | cons clause clauses ih =>
    rw [List.mapM_cons] at each
    obtain ⟨⟨node, aux⟩, builtClause, rest⟩ := bind_ok.mp each
    obtain ⟨others, builtRest, same⟩ := bind_ok.mp rest
    cases same
    rw [clause_tree] at builtClause
    obtain ⟨tree, builtTree, same⟩ := bind_ok.mp builtClause
    cases same
    apply listNode_meaning (exp_meaning builtTree)
    cases clauses with
    | nil =>
      cases builtRest
      exact .inl ⟨rfl, rfl⟩
    | cons second clauses =>
      right
      refine ⟨?_, ih (List.cons_ne_nil _ _) builtRest⟩
      rw [List.mapM_cons] at builtRest
      obtain ⟨next, -, rest⟩ := bind_ok.mp builtRest
      obtain ⟨others, -, same⟩ := bind_ok.mp rest
      cases same
      rfl

theorem clauses_built (clauses : List Clause) : ∃ built, clauses.mapM Clause.build = .ok built := by
  induction clauses with
  | nil => exact ⟨[], rfl⟩
  | cons clause clauses ih =>
    obtain ⟨node, aux, builtClause, -⟩ := clause_build clause
    obtain ⟨built, builtRest⟩ := ih
    refine ⟨(node, aux) :: built, ?_⟩
    rw [List.mapM_cons, builtClause, builtRest]
    rfl

end Lists

/-- Running what the parser makes of clauses is the type check and then what the clauses say, in their
    order and up to the first that says no. -/
theorem executeList_clauses (clause : Clause) (clauses : List Clause) :
    ∃ list, buildList .null (clause :: clauses) = .ok list ∧
      ∀ (σ : Type) (w : World σ) (g : Globals) (rightPart : σ → Nat) (prependMsg : Option Bytes) (format : Bool)
        (lib : AddressLib) (defn : VtwDef),
          executeList w g rightPart prependMsg format lib defn list =
            given (char2val w g lib defn g.atString) fun valp =>
              inOrder ((clause :: clauses).map
                (Clause.meaning w { g with validateValue := valp } rightPart prependMsg format)) := by
  obtain ⟨built, each⟩ := clauses_built (clause :: clauses)
  refine ⟨chain built, buildList_chain each [], ?_⟩
  intro σ w g rightPart prependMsg format lib defn
  funext state
  apply given_eq (fun _ _ => rfl)
  intro valp after
  exact congrFun (chain_meaning (List.cons_ne_nil _ _) each) after

end VyattaCfg.Cliexec
