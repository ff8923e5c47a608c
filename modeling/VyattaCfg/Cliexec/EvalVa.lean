import VyattaCfg.Cliexec.CstoreC

namespace VyattaCfg.Cliexec

open ByteString VyattaCfg.Client

/-- `valstruct`. `cnt` is the length of `vals`, each with its `val_types` entry; the value is
    in `val` when there are none. -/
structure ValStruct where
  valType : VtwType
  ismulti : Bool
  val : Option Bytes
  vals : List (Bytes × VtwType)

namespace ValStruct

def zero : ValStruct := ⟨.error, false, none, []⟩

/-- The operands that the loops of `val_cmp` go through. -/
def values (res : ValStruct) : List Bytes :=
  if res.vals = [] then [res.val.getD []] else res.vals.map Prod.fst

end ValStruct

def str2val (cp : Bytes) : ValStruct := { ValStruct.zero with valType := .text, val := some cp }

def addVal (first second : ValStruct) : ValStruct :=
  if first.vals = [] then
    { first with
      val := none
      vals := [(first.val.getD [], first.valType), (second.val.getD [], second.valType)] }
  else { first with vals := first.vals ++ [(second.val.getD [], second.valType)] }

def strtok (s : Bytes) : List Bytes := Words.tokens space s

/-- What `eval_va` makes of the string that `cstore_get_var_ref` returns. -/
def splitValue (ismulti : Bool) (value : VarRefValue) : ValStruct :=
  let res : ValStruct := ⟨value.type, ismulti, some value.val, []⟩
  if value.type = .text then
    match strtok value.val with
    | [] => res
    | pch :: rest =>
      rest.foldl (fun res pch => addVal res { str2val pch with valType := value.type })
        { res with val := some pch }
  else res

def vtwErrBadPath : Int := -2

/-- The `VAR_OP` case of `eval_va`, from behind the `$VAR(` of the node's string: the operand
    or a status. -/
def evalVar (uri : UriParser) (handle : Option Handle) (cfgPath : CfgPath) (validateValue : ValStruct)
    (inDeleteAction : Bool) (pathp : Bytes) : Except Int ValStruct :=
  if pathp.head? = some (ch '@') ∧ pathp[1]? ≠ some (ch '@') then .ok validateValue
  else if ch ')' ∉ pathp then .error vtwErrBadPath
  else
    match handle with
    | none => .ok .zero
    | some h =>
      let got := (cstoreGetVarRef uri h cfgPath (pathp.takeWhile (· ≠ ch ')')) inDeleteAction).result
      match got.value with
      | some value => .ok (splitValue got.ismulti value)
      | none => if got.ismulti then .ok ⟨.text, true, some [], []⟩ else .error (-1)

/-- `check_comp` of a text operand with one text literal under `EQ_COND`, where `val_cmp` is
    `strcmp` over the values of the operand and returns at the first that differs. -/
def equalsText (left : ValStruct) (literal : Bytes) : Bool :=
  left.valType = .text && left.values.all (fun lval => lval = literal)

end VyattaCfg.Cliexec
