import VyattaCfg.Cliexec.Char2val
import VyattaCfg.Cliexec.Node

namespace VyattaCfg.Cliexec

open ByteString VyattaCfg.Client

section Owned

structure Owned where
  val : ValStruct
  freeMe : Bool

/-- `add_val` with its assertions. -/
def addValOwned (first second : Owned) : Except Abort Owned :=
  if first.freeMe ∧ second.freeMe ∧ second.val.vals = [] then .ok ⟨addVal first.val second.val, first.freeMe⟩
  else .error .assertion

def splitOwned (ismulti : Bool) (value : VarRefValue) : Except Abort Owned :=
  let res : ValStruct := ⟨value.type, ismulti, some value.val, []⟩
  if value.type = .text then
    match strtok value.val with
    | [] => .ok ⟨res, true⟩
    | pch :: rest =>
      rest.foldlM (fun res pch => addValOwned res ⟨{ str2val pch with valType := value.type }, true⟩)
        ⟨{ res with val := some pch }, true⟩
  else .ok ⟨res, true⟩

def refOwned : Option VarRefResult → Except Abort (Except Int Owned)
  | none => .ok (.ok ⟨.zero, false⟩)
  | some got =>
    match got.value with
    | some value => do .ok (.ok (← splitOwned got.ismulti value))
    | none => .ok (if got.ismulti then .ok ⟨⟨.text, true, some [], []⟩, true⟩ else .error (-1))

end Owned

section Evaluate

variable {σ : Type} (w : World σ) (g : Globals)

/-- `eval_va` with the `free_me` of its result. -/
def evalVaOwned (node : VtwNode) (state : σ) : Except Abort (Except Int Owned × σ) :=
  match node with
  | .null => .error .nullPointer
  | .node data _ _ =>
    match data.oper, data.string with
    | .varOp, some string =>
      if ¬ varRefMarker <+: string then .error .assertion
      else
        let pathp := string.drop varRefMarker.length
        if pathp.head? = some (ch '@') ∧ pathp[1]? ≠ some (ch '@') then .ok (.ok ⟨g.validateValue, false⟩, state)
        else if ch ')' ∉ pathp then .ok (.error vtwErrBadPath, state)
        else do
          let (got, state) := refLookup w g state (pathp.takeWhile (· ≠ ch ')'))
          .ok (← refOwned got, state)
    | .bQuoteOp, some string => do
      let (operand, state) ← evalBQuoteOp w g string state
      .ok (operand.map fun val => ⟨val, val.val.isSome⟩, state)
    | .varOp, none | .bQuoteOp, none => .error .nullPointer
    | .valOp, _ => .ok (.ok ⟨data.val, false⟩, state)
    | _, _ => .ok (.ok ⟨.zero, false⟩, state)

def nodeString (node : VtwNode) : Except Abort Bytes :=
  match node with
  | .node data _ _ => data.string.elim (.error .nullPointer) .ok
  | .null => .error .nullPointer

def changeVarValue (varReference : Bytes) (value : Option Bytes) (state : σ) : σ :=
  match value with
  | none => state
  | some value => if g.connected then (w.cstoreSetVarRef state varReference value).2 else state

/-- The text of a failed check: with the string as it is where that has a location. -/
def helpText (prependMsg : Option Bytes) (format : Bool) (exeString : Bytes) : Bytes :=
  if str "_errloc_:[" <:+: exeString then
    (if format then exeString else exeString.drop (str "_errloc_:").length) ++ str "\n\n"
  else
    match prependMsg with
    | some prependMsg =>
      (if format then str "_errloc_:[" else str "[") ++ prependMsg ++ str "]\n" ++ exeString ++ str "\n\n"
    | none => exeString ++ str "\n"

variable (rightPart : σ → Nat) (prependMsg : Option Bytes) (format : Bool)

def checkHelp (right : VtwNode) (state : σ) : Except Abort σ := do
  let expansion ← expandString w g (← nodeString right) state
  if expansion.status = 0 then
    .ok (w.outputUser expansion.state (helpText prependMsg format expansion.exeString))
  else .ok expansion.state

def checkAssign (left right : VtwNode) (state : σ) : Except Abort (Bool × σ) := do
  let (operand, state) ← evalVaOwned w g right state
  match operand with
  | .error _ => .ok (false, state)
  | .ok right =>
    if right.val.vals ≠ [] then .ok (false, state)
    else
      let string ← nodeString left
      if ¬ varRefMarker <+: string then .ok (false, state)
      else
        let varReference := (string.drop varRefMarker.length).takeWhile (· ≠ ch ')')
        .ok (true, changeVarValue w g varReference right.val.val state)

/-- `in_validate_val` is never set. -/
def checkExec (left : VtwNode) (state : σ) : Except Abort (Bool × σ) := do
  let expansion ← expandString w g (← nodeString left) state
  if expansion.status ≠ 0 then .ok (false, expansion.state)
  else
    let (ret, state) := w.systemOut expansion.state expansion.exeString
    .ok (ret = 0, state)

def checkPattern (left right : VtwNode) (state : σ) : Except Abort (Bool × σ) := do
  let (operand, state) ← evalVaOwned w g left state
  match operand with
  | .error _ => .ok (false, state)
  | .ok left =>
    match w.regcomp (← nodeString right) with
    | none => .error .badRegex
    | some regexec =>
      if left.val.vals = [] then
        match left.val.val with
        | none => .error .nullPointer
        | some val => .ok (regexec val, state)
      else .ok (left.val.vals.all fun value => regexec value.1, state)

def checkCond (cond : VtwCond) (left right : VtwNode) (state : σ) : Except Abort (Bool × σ) := do
  let (operand, state) ← evalVaOwned w g left state
  match operand with
  | .error _ => .ok (false, state)
  | .ok left =>
    let (operand, state) ← evalVaOwned w g right state
    match operand with
    | .error _ => .ok (false, state)
    | .ok right => .ok (← compareOperands (rightPart state) left.val right.val cond, state)

/-- `check_syn_func`. What `sscanf` may leave unread in `val_cmp` is part of the state. -/
def checkSyn : VtwNode → σ → Except Abort (Bool × σ)
  | .null, _ => .error .nullPointer
  | .node data left right, state =>
    match data.oper with
    | .listOp => do
      let (ret, state) ← if g.inCommit ∨ data.aux = false then checkSyn left state else .ok (true, state)
      if ¬ ret ∨ right.isNull then .ok (ret, state) else checkSyn right state
    | .helpOp => do
      let (ret, state) ← checkSyn left state
      if ret then .ok (true, state) else .ok (false, ← checkHelp w g prependMsg format right state)
    | .assignOp => checkAssign w g left right state
    | .execOp => checkExec w g left state
    | .patternOp => checkPattern w g left right state
    | .orOp => do
      let (ret, state) ← checkSyn left state
      if ret then .ok (true, state) else checkSyn right state
    | .andOp => do
      let (ret, state) ← checkSyn left state
      if ret then checkSyn right state else .ok (false, state)
    | .notOp => do
      let (ret, state) ← checkSyn left state
      .ok (!ret, state)
    | .condOp => checkCond w g rightPart data.cond left right state
    | .valOp | .varOp | .bQuoteOp => .error .badOp

def executeList (lib : AddressLib) (defn : VtwDef) (cur : VtwNode) (state : σ) : Except Abort (Bool × σ) := do
  let (checked, state) ← char2val w g lib defn g.atString state
  match checked with
  | .error _ => .ok (false, state)
  | .ok valp => checkSyn w { g with validateValue := valp } rightPart prependMsg format cur state

end Evaluate

end VyattaCfg.Cliexec
