import VyattaCfg.Cliexec.ExpandString

namespace VyattaCfg.Cliexec

open ByteString VyattaCfg.Client

inductive VtwOper where
  | listOp
  | helpOp
  | execOp
  | patternOp
  | orOp
  | andOp
  | notOp
  | condOp
  | valOp
  | varOp
  | bQuoteOp
  | assignOp
  deriving DecidableEq, Repr

/-- The data of a `vtw_node` besides its two children. `aux` is the flag of a list element, and
    `cond` the condition that a comparison keeps in the same field. -/
structure VtwData where
  oper : VtwOper
  string : Option Bytes
  aux : Bool
  cond : VtwCond
  val : ValStruct

inductive VtwNode where
  | null
  | node (data : VtwData) (left right : VtwNode)

namespace VtwNode

def isNull : VtwNode → Bool
  | null => true
  | node _ _ _ => false

def makeNode (oper : VtwOper) (left right : VtwNode) : VtwNode :=
  .node ⟨oper, none, false, .eqCond, .zero⟩ left right

def makeStrNode0 (s : Bytes) (op : VtwOper) : VtwNode := .node ⟨op, some s, false, .eqCond, .zero⟩ .null .null

def makeStrNode (s : Bytes) : VtwNode := makeStrNode0 s .valOp

def makeVarNode (s : Bytes) : VtwNode := makeStrNode0 s .varOp

def makeValNode (val : ValStruct) : VtwNode := .node ⟨.valOp, none, false, .eqCond, val⟩ .null .null

end VtwNode

def refOperand : Option VarRefResult → Except Int ValStruct
  | none => .ok .zero
  | some got =>
    match got.value with
    | some value => .ok (splitValue got.ismulti value)
    | none => if got.ismulti then .ok ⟨.text, true, some [], []⟩ else .error (-1)

section Evaluate

variable {σ : Type} (w : World σ) (g : Globals)

def evalVarOp (string : Bytes) (state : σ) : Except Abort (Except Int ValStruct × σ) :=
  if ¬ varRefMarker <+: string then .error .assertion
  else
    let pathp := string.drop varRefMarker.length
    if pathp.head? = some (ch '@') ∧ pathp[1]? ≠ some (ch '@') then .ok (.ok g.validateValue, state)
    else if ch ')' ∉ pathp then .ok (.error vtwErrBadPath, state)
    else
      let (got, state) := refLookup w g state (pathp.takeWhile (· ≠ ch ')'))
      .ok (refOperand got, state)

/-- The operand is left as the caller has zeroed it where the string cannot be expanded: the
    status is then `FALSE`, which is 0. -/
def evalBQuoteOp (string : Bytes) (state : σ) : Except Abort (Except Int ValStruct × σ) := do
  let expansion ← expandString w g string state
  if expansion.status ≠ 0 then .ok (.ok .zero, expansion.state)
  else
    match w.popen expansion.state expansion.exeString with
    | (none, state) => .ok (.error (-1), state)
    | (some out, state) => .ok (.ok ⟨.text, false, some (cstr out), []⟩, state)

def evalVa (node : VtwNode) (state : σ) : Except Abort (Except Int ValStruct × σ) :=
  match node with
  | .null => .error .nullPointer
  | .node data _ _ =>
    match data.oper, data.string with
    | .varOp, some string => evalVarOp w g string state
    | .bQuoteOp, some string => evalBQuoteOp w g string state
    | .varOp, none | .bQuoteOp, none => .error .nullPointer
    | .valOp, _ => .ok (.ok data.val, state)
    | _, _ => .ok (.ok .zero, state)

end Evaluate

section Store

variable (uri : UriParser) (h : Handle) (cfgPath : CfgPath)

def storeWorld : World Unit where
  cstoreGetVarRef _ ref fromActive := ((cstoreGetVarRef uri h cfgPath ref fromActive).result, ())
  cstoreSetVarRef _ ref value :=
    (((cstoreSetVarRef uri h cfgPath ref value false).map Called.result).getD false, ())
  popen _ _ := (none, ())
  systemOut _ _ := (0, ())
  outputUser _ _ := ()
  regcomp _ := none

/-- With configd behind the store, a variable node has the operand of its path. -/
theorem evalVarOp_store (g : Globals) (connected : g.connected) (pathp : Bytes) :
    evalVarOp (storeWorld uri h cfgPath) g (varRefMarker ++ pathp) () =
      .ok (evalVar uri (some h) cfgPath g.validateValue g.inDeleteAction pathp, ()) := by
  have marked : varRefMarker <+: varRefMarker ++ pathp := List.prefix_append _ _
  unfold evalVarOp evalVar
  rw [if_neg (not_not.mpr marked)]
  simp only [List.drop_left, refLookup, connected, if_true, storeWorld]
  split
  · rfl
  · split
    · rfl
    · rfl

end Store

end VyattaCfg.Cliexec
