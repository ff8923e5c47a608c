import VyattaCfg.Cliexec.CheckSyn

namespace VyattaCfg.Cliexec

open ByteString Regex VyattaCfg.Client

section Tokens

structure StringToken where
  text : Bytes
  free : 0 ∉ text

/-- `\$VAR\([^)]+\)`, from behind the `(` to before the `)`. -/
structure VarToken where
  path : Bytes
  filled : path ≠ []
  closed : ch ')' ∉ path
  free : 0 ∉ path

def VarToken.text (token : VarToken) : Bytes := varRefMarker ++ (token.path ++ str ")")

/-- The texts that cli_def.l returns as a VALUE of a type. -/
def valuePattern : VtwType → Pattern
  | .priority => lit (str "PARENT")
  | .int => decDigit * decDigit.star
  | .ipv4 => reIpv4
  | .ipv4net => reIpv4Net
  | .ipv6 => reIpv6
  | .ipv6net => reIpv6Net
  | .bool => lit (str "true") + lit (str "false")
  | .macaddr => reMacaddr
  | .error | .domain | .text => 0

/-- A VALUE token. `return_value` does not set `ismulti`, which shares its place in the union with
    a pointer. -/
structure ValueToken where
  type : VtwType
  text : Bytes
  ismulti : Bool
  known : text ∈ (valuePattern type).matches'

end Tokens

section Grammar

inductive Item where
  | value (token : ValueToken)
  | string (token : StringToken)

/-- `val0`. COMMA is left associative. -/
inductive Val0 where
  | item (item : Item)
  | comma (first : Val0) (second : Item)

inductive Val where
  | var (token : VarToken)
  | val0 (val0 : Val0)
  | exString (token : StringToken)

/-- `exp`. What is in parentheses is the same node. -/
inductive Exp where
  | and (left right : Exp)
  | or (left right : Exp)
  | cond (left : Val) (cond : VtwCond) (right : Val)
  | pattern (var : VarToken) (pattern : StringToken)
  | exec (command : StringToken)
  | not (exp : Exp)
  | help (exp : Exp) (help : StringToken)
  | assign (var : VarToken) (val : Val)

/-- `assign_exp`. -/
inductive AssignExp where
  | assign (var : VarToken) (val : Val)
  | and (left right : AssignExp)
  | or (left right : AssignExp)
  | help (exp : AssignExp) (help : StringToken)

/-- `action`, with its `action0`. -/
inductive Action where
  | exec (command : StringToken)
  | execHelp (command help : StringToken)
  | exp (exp : Exp)

/-- What is appended to a list: by `syntax`, `commit` and the other actions, or by `sub`. -/
inductive Clause where
  | action (action : Action) (aux : Bool)
  | sub (exp : AssignExp)

end Grammar

section Actions

def Item.build : Item → Owned
  | .value token => ⟨⟨token.type, token.ismulti, some token.text, []⟩, true⟩
  | .string token => ⟨str2val token.text, true⟩

def Val0.build : Val0 → Except Abort Owned
  | .item first => .ok first.build
  | .comma first second => do addValOwned (← first.build) second.build

def makeValNodeOwned (val : Owned) : Except Abort VtwNode :=
  if val.freeMe then .ok (.makeValNode val.val) else .error .assertion

def Val.build : Val → Except Abort VtwNode
  | .var token => .ok (.makeVarNode token.text)
  | .val0 values => do makeValNodeOwned (← values.build)
  | .exString token => .ok (.makeStrNode0 token.text .bQuoteOp)

/-- The node of a comparison, whose condition is in the field of the flag. -/
def makeCondNode (left : VtwNode) (cond : VtwCond) (right : VtwNode) : VtwNode :=
  .node ⟨.condOp, none, false, cond, .zero⟩ left right

def makeAssignNode (var : VarToken) (val : VtwNode) : VtwNode := .makeNode .assignOp (.makeVarNode var.text) val

def makeHelpNode (node : VtwNode) (help : StringToken) : VtwNode :=
  .makeNode .helpOp node (.makeStrNode help.text)

def makeExecNode (command : StringToken) : VtwNode := .makeNode .execOp (.makeStrNode command.text) .null

def Exp.build : Exp → Except Abort VtwNode
  | .and left right => do .ok (.makeNode .andOp (← left.build) (← right.build))
  | .or left right => do .ok (.makeNode .orOp (← left.build) (← right.build))
  | .cond left op right => do .ok (makeCondNode (← left.build) op (← right.build))
  | .pattern var regex => .ok (.makeNode .patternOp (.makeVarNode var.text) (.makeStrNode regex.text))
  | .exec command => .ok (makeExecNode command)
  | .not exp => do .ok (.makeNode .notOp (← exp.build) .null)
  | .help exp text => do .ok (makeHelpNode (← exp.build) text)
  | .assign var val => do .ok (makeAssignNode var (← val.build))

def AssignExp.build : AssignExp → Except Abort VtwNode
  | .assign var val => do .ok (makeAssignNode var (← val.build))
  | .and left right => do .ok (.makeNode .andOp (← left.build) (← right.build))
  | .or left right => do .ok (.makeNode .orOp (← left.build) (← right.build))
  | .help exp text => do .ok (makeHelpNode (← exp.build) text)

def Action.build : Action → Except Abort VtwNode
  | .exec command => .ok (makeExecNode command)
  | .execHelp command text => .ok (makeHelpNode (makeExecNode command) text)
  | .exp tree => tree.build

def listNode (node : VtwNode) (aux : Bool) (next : VtwNode) : VtwNode :=
  .node ⟨.listOp, none, aux, .eqCond, .zero⟩ node next

/-- The head of a list whose tail is the last node on the way to the right. -/
def append (list node : VtwNode) (aux : Bool) : VtwNode :=
  match list with
  | .null => listNode node aux .null
  | .node data left right => .node data left (append right node aux)

def Clause.build : Clause → Except Abort (VtwNode × Bool)
  | .action tree aux => do .ok (← tree.build, aux)
  | .sub exp => do .ok (← exp.build, false)

def buildList (list : VtwNode) : List Clause → Except Abort VtwNode
  | [] => .ok list
  | clause :: clauses => do
    let (node, aux) ← clause.build
    buildList (append list node aux) clauses

end Actions

section Asserted

theorem addValOwned_ok {first second : Owned} (freeFirst : first.freeMe) (freeSecond : second.freeMe)
    (single : second.val.vals = []) :
    addValOwned first second = .ok ⟨addVal first.val second.val, true⟩ := by
  rw [addValOwned, if_pos ⟨freeFirst, freeSecond, single⟩, freeFirst]

/-- The loop of `eval_va` does not meet the assertions of `add_val`. -/
theorem splitOwned_eq (ismulti : Bool) (value : VarRefValue) :
    splitOwned ismulti value = .ok ⟨splitValue ismulti value, true⟩ := by
  have added : ∀ (rest : List Bytes) (res : ValStruct),
      rest.foldlM (fun res pch => addValOwned res ⟨{ str2val pch with valType := value.type }, true⟩) ⟨res, true⟩ =
        (.ok ⟨rest.foldl (fun res pch => addVal res { str2val pch with valType := value.type }) res, true⟩ :
          Except Abort Owned) := by
    intro rest
    induction rest with
    | nil => exact fun _ => rfl
    | cons pch rest ih =>
      intro res
      rw [List.foldlM_cons, addValOwned_ok rfl rfl rfl, List.foldl_cons, ← ih]
      rfl
  unfold splitOwned splitValue
  by_cases text : value.type = .text
  · simp only [if_pos text]
    cases strtok value.val with
    | nil => rfl
    | cons pch rest => exact added _ _
  · simp only [if_neg text]

theorem refOwned_val (got : Option VarRefResult) :
    ∃ operand, refOwned got = .ok operand ∧ operand.map Owned.val = refOperand got := by
  rcases got with none | ⟨value, ismulti⟩
  · exact ⟨_, rfl, rfl⟩
  · cases value with
    | none => cases ismulti <;> exact ⟨_, rfl, rfl⟩
    | some value =>
      refine ⟨.ok ⟨splitValue ismulti value, true⟩, ?_, rfl⟩
      simp only [refOwned, splitOwned_eq]
      rfl

variable {σ : Type} (w : World σ) (g : Globals)

/-- With its assertions `eval_va` has the result that it has without. -/
theorem evalVaOwned_val (node : VtwNode) (state : σ) :
    (evalVaOwned w g node state).map (fun result => (result.1.map Owned.val, result.2)) = evalVa w g node state := by
  rcases node with _ | ⟨⟨oper, string, aux, cond, val⟩, left, right⟩
  · rfl
  · cases oper with
    | varOp =>
      cases string with
      | none => rfl
      | some string =>
        simp only [evalVaOwned, evalVa, evalVarOp]
        split
        · rfl
        · split
          · rfl
          · split
            · rfl
            · obtain ⟨operand, owned, same⟩ := refOwned_val (refLookup w g state
                ((string.drop varRefMarker.length).takeWhile (· ≠ ch ')'))).1
              rw [← same]
              simp only [owned]
              rfl
    | bQuoteOp =>
      cases string with
      | none => rfl
      | some string =>
        show ((evalBQuoteOp w g string state).bind _).map _ = evalBQuoteOp w g string state
        cases evalBQuoteOp w g string state with
        | error abort => rfl
        | ok result =>
          rcases result with ⟨operand, state⟩
          cases operand <;> rfl
    | _ => cases string <;> rfl

theorem val0_build (val0 : Val0) : ∃ val, val0.build = .ok ⟨val, true⟩ := by
  induction val0 with
  | item item => cases item <;> exact ⟨_, rfl⟩
  | comma first second ih =>
    obtain ⟨val, built⟩ := ih
    have free : second.build.freeMe := by cases second <;> rfl
    have single : second.build.val.vals = [] := by cases second <;> rfl
    refine ⟨addVal val second.build.val, ?_⟩
    rw [Val0.build, built]
    exact addValOwned_ok rfl free single

end Asserted

end VyattaCfg.Cliexec
