import VyattaCfg.Cliexec.CliParse

namespace VyattaCfg.Cliexec

open ByteString VyattaCfg.Client

section Trees

inductive Operand : VtwNode → Prop where
  | var (token : VarToken) : Operand (.makeVarNode token.text)
  | val (val : ValStruct) : Operand (.makeValNode val)
  | exString (token : StringToken) : Operand (.makeStrNode0 token.text .bQuoteOp)

/-- A node of an expression: the operators that stand under each one. -/
inductive Check : VtwNode → Prop where
  | and {left right : VtwNode} : Check left → Check right → Check (.makeNode .andOp left right)
  | or {left right : VtwNode} : Check left → Check right → Check (.makeNode .orOp left right)
  | not {left : VtwNode} : Check left → Check (.makeNode .notOp left .null)
  | help {left : VtwNode} (text : StringToken) : Check left → Check (makeHelpNode left text)
  | exec (command : StringToken) : Check (makeExecNode command)
  | pattern (var : VarToken) (regex : StringToken) :
    Check (.makeNode .patternOp (.makeVarNode var.text) (.makeStrNode regex.text))
  | cond {left right : VtwNode} (cond : VtwCond) : Operand left → Operand right → Check (makeCondNode left cond right)
  | assign {right : VtwNode} (var : VarToken) : Operand right → Check (makeAssignNode var right)

inductive ActionList : VtwNode → Prop where
  | last {node : VtwNode} (aux : Bool) : Check node → ActionList (listNode node aux .null)
  | more {node next : VtwNode} (aux : Bool) : Check node → ActionList next → ActionList (listNode node aux next)

end Trees

section Built

theorem val_build (val : Val) : ∃ node, val.build = .ok node ∧ Operand node := by
  cases val with
  | var token => exact ⟨_, rfl, .var token⟩
  | exString token => exact ⟨_, rfl, .exString token⟩
  | val0 values =>
    obtain ⟨val, built⟩ := val0_build values
    refine ⟨.makeValNode val, ?_, .val val⟩
    rw [Val.build, built]
    rfl

theorem exp_build (exp : Exp) : ∃ node, exp.build = .ok node ∧ Check node := by
  induction exp with
  | and left right ihLeft ihRight =>
    obtain ⟨left, builtLeft, checkLeft⟩ := ihLeft
    obtain ⟨right, builtRight, checkRight⟩ := ihRight
    refine ⟨_, ?_, .and checkLeft checkRight⟩
    rw [Exp.build, builtLeft, builtRight]
    rfl
  | or left right ihLeft ihRight =>
    obtain ⟨left, builtLeft, checkLeft⟩ := ihLeft
    obtain ⟨right, builtRight, checkRight⟩ := ihRight
    refine ⟨_, ?_, .or checkLeft checkRight⟩
    rw [Exp.build, builtLeft, builtRight]
    rfl
  | cond left op right =>
    obtain ⟨left, builtLeft, operandLeft⟩ := val_build left
    obtain ⟨right, builtRight, operandRight⟩ := val_build right
    refine ⟨_, ?_, .cond op operandLeft operandRight⟩
    rw [Exp.build, builtLeft, builtRight]
    rfl
  | pattern var regex => exact ⟨_, rfl, .pattern var regex⟩
  | exec command => exact ⟨_, rfl, .exec command⟩
  | not exp ih =>
    obtain ⟨node, built, check⟩ := ih
    refine ⟨_, ?_, .not check⟩
    rw [Exp.build, built]
    rfl
  | help exp text ih =>
    obtain ⟨node, built, check⟩ := ih
    refine ⟨_, ?_, .help text check⟩
    rw [Exp.build, built]
    rfl
  | assign var val =>
    obtain ⟨node, built, operand⟩ := val_build val
    refine ⟨_, ?_, .assign var operand⟩
    rw [Exp.build, built]
    rfl

theorem assignExp_build (exp : AssignExp) : ∃ node, exp.build = .ok node ∧ Check node := by
  induction exp with
  | assign var val =>
    obtain ⟨node, built, operand⟩ := val_build val
    refine ⟨_, ?_, .assign var operand⟩
    rw [AssignExp.build, built]
    rfl
  | and left right ihLeft ihRight =>
    obtain ⟨left, builtLeft, checkLeft⟩ := ihLeft
    obtain ⟨right, builtRight, checkRight⟩ := ihRight
    refine ⟨_, ?_, .and checkLeft checkRight⟩
    rw [AssignExp.build, builtLeft, builtRight]
    rfl
  | or left right ihLeft ihRight =>
    obtain ⟨left, builtLeft, checkLeft⟩ := ihLeft
    obtain ⟨right, builtRight, checkRight⟩ := ihRight
    refine ⟨_, ?_, .or checkLeft checkRight⟩
    rw [AssignExp.build, builtLeft, builtRight]
    rfl
  | help exp text ih =>
    obtain ⟨node, built, check⟩ := ih
    refine ⟨_, ?_, .help text check⟩
    rw [AssignExp.build, built]
    rfl

theorem clause_build (clause : Clause) : ∃ node aux, clause.build = .ok (node, aux) ∧ Check node := by
  cases clause with
  | action tree aux =>
    have built : ∃ node, tree.build = .ok node ∧ Check node := by
      cases tree with
      | exec command => exact ⟨_, rfl, .exec command⟩
      | execHelp command text => exact ⟨_, rfl, .help text (.exec command)⟩
      | exp tree => exact exp_build tree
    obtain ⟨node, built, check⟩ := built
    refine ⟨node, aux, ?_, check⟩
    rw [Clause.build, built]
    rfl
  | sub exp =>
    obtain ⟨node, built, check⟩ := assignExp_build exp
    refine ⟨node, false, ?_, check⟩
    rw [Clause.build, built]
    rfl

theorem ActionList.append {list node : VtwNode} (actions : ActionList list) (check : Check node) (aux : Bool) :
    ActionList (append list node aux) := by
  induction actions with
  | last first checkFirst => exact .more first checkFirst (.last aux check)
  | more first checkFirst _ ih => exact .more first checkFirst ih

theorem buildList_actions {list : VtwNode} (actions : ActionList list) (clauses : List Clause) :
    ∃ built, buildList list clauses = .ok built ∧ ActionList built := by
  induction clauses generalizing list with
  | nil => exact ⟨list, rfl, actions⟩
  | cons clause clauses ih =>
    obtain ⟨node, aux, built, check⟩ := clause_build clause
    rw [buildList, built]
    exact ih (actions.append check aux)

theorem buildList_nonempty (clause : Clause) (clauses : List Clause) :
    ∃ built, buildList .null (clause :: clauses) = .ok built ∧ ActionList built := by
  obtain ⟨node, aux, built, check⟩ := clause_build clause
  rw [buildList, built]
  exact buildList_actions (.last aux check) clauses

end Built

end VyattaCfg.Cliexec
