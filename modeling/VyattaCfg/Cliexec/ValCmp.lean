import VyattaCfg.Cliexec.EvalVa
import VyattaCfg.Cliexec.ScanIpv6
import VyattaCfg.Library.Scanf

namespace VyattaCfg.Cliexec

open ByteString VyattaCfg.Client

inductive VtwCond where
  | eqCond
  | neCond
  | ltCond
  | leCond
  | gtCond
  | geCond
  | inCond
  deriving DecidableEq, Repr

namespace VtwCond

def cond1 : VtwCond → Int
  | .eqCond => 0
  | .neCond => -1
  | .ltCond => -1
  | .leCond => 0
  | .gtCond => 1
  | .geCond => 0
  | .inCond => 0

def cond2 : VtwCond → Int
  | .eqCond => 0
  | .neCond => 1
  | .ltCond => -1
  | .leCond => -1
  | .gtCond => 1
  | .geCond => 1
  | .inCond => 0

def holds (cond : VtwCond) (res : Int) : Bool := res = cond.cond1 ∨ res = cond.cond2

end VtwCond

/-- The ways in which the process ends in the middle of an evaluation. -/
inductive Abort where
  /-- `bye` of "Unknown value in switch". -/
  | unknownValue
  /-- `bye` of "VAL op", "VAR op" and "unknown op". -/
  | badOp
  | assertion
  | nullPointer
  /-- A read or write beyond an array or a string. -/
  | overrun
  /-- `bye` of "Can not compile regex". -/
  | badRegex
  /-- `bye` of "Empty path". -/
  | emptyPath
  deriving DecidableEq, Repr

section Formats

def condFormats : VtwType → Bytes
  | .int => str "%u"
  | .ipv4 => str "%u.%u.%u.%u"
  | .ipv4net => str "%u.%u.%u.%u/%u"
  | .ipv6 => str "%x:%x:%x:%x:%x:%x:%x:%x"
  | .ipv6net => str "%x:%x:%x:%x:%x:%x:%x:%x/%u"
  | .macaddr => str "%x:%x:%x:%x:%x:%x"
  | _ => []

def condFormatLens : VtwType → Nat
  | .int => 1
  | .ipv4 => 4
  | .ipv4net => 5
  | .ipv6 => 16
  | .ipv6net => 17
  | .macaddr => 6
  | _ => 0

def sscanf (val format : Bytes) : List Nat := Scanf.scan (Scanf.directives format) val

/-- The zeroed array after `sscanf`. -/
def readParts (read : List Nat) : List Nat := read ++ List.replicate (9 - read.length) 0

end Formats

def strcmp : Bytes → Bytes → Int
  | [], [] => 0
  | [], _ :: _ => -1
  | _ :: _, [] => 1
  | a :: s, b :: t => if a = b then strcmp s t else if a < b then -1 else 1

/-- The multistep compare. Without a step the result stays what it was. -/
def compareSteps : List (Nat × Nat) → Int → Int
  | [], res => res
  | (l, r) :: steps, _ => if r < l then 1 else if l < r then -1 else compareSteps steps 0

def compareParts (left right : List Nat) (partsNum : Nat) (res : Int) : Int :=
  compareSteps ((left.zip right).take partsNum) res

def cmpIpv6 (lval rval : Bytes) (partsNum : Nat) (res : Int) : Except Abort Int :=
  match scanIpv6 lval noParts, scanIpv6 rval noParts with
  | some left, some right => .ok (compareParts left right partsNum res)
  | _, _ => .error .overrun

def cmpScanned (valType : VtwType) (lval rval : Bytes) (res : Int) : Int :=
  let left := sscanf lval (condFormats valType)
  let right := sscanf rval (condFormats valType)
  if right = [] then if left ≠ [] then 1 else res
  else if left = [] then -1
  else compareParts (readParts left) (readParts right) (condFormatLens valType) res

/-- The switch of `val_cmp`, from the result of the round before. -/
def cmpValues (valType : VtwType) (lval rval : Option Bytes) (res : Int) : Except Abort Int :=
  match valType, lval, rval with
  | .ipv6, some l, some r => cmpIpv6 l r 8 res
  | .ipv6net, some l, some r => cmpIpv6 l r 9 res
  | .ipv4, some l, some r | .ipv4net, some l, some r | .macaddr, some l, some r | .int, some l, some r =>
    .ok (cmpScanned valType l r res)
  | .text, some l, some r | .bool, some l, some r => .ok (strcmp l r)
  | .error, _, _ | .domain, _, _ | .priority, _, _ => .error .unknownValue
  | _, _, _ => .error .nullPointer

/-- An element of the right operand, with its `val_types` entry if there is one. -/
structure RightValue where
  val : Option Bytes
  type : Option VtwType

def ValStruct.lefts (left : ValStruct) : List (Option Bytes) :=
  if left.vals = [] then [left.val] else left.vals.map fun pair => some pair.1

def ValStruct.rights (right : ValStruct) : List RightValue :=
  if right.vals = [] then [⟨right.val, none⟩] else right.vals.map fun pair => ⟨some pair.1, some pair.2⟩

def RightValue.skipped (valType : VtwType) (right : RightValue) : Bool :=
  right.type.any fun t => t ≠ .error ∧ t ≠ valType

/-- `ret` and `res`, which outlive the rounds of both loops. -/
structure Comparison where
  ret : Bool
  res : Int

inductive Turn where
  | returns (ret : Bool)
  | goesOn (state : Comparison)

section Loops

variable (valType : VtwType) (cond : VtwCond)

def rightLoop (lval : Option Bytes) : List RightValue → Comparison → Except Abort Turn
  | [], state => .ok (.goesOn state)
  | right :: rights, state =>
    if right.skipped valType then rightLoop lval rights state
    else do
      let res := (← cmpValues valType lval right.val state.res).sign
      let ret := cond.holds res
      if ret ∧ cond = .inCond then .ok (.goesOn ⟨ret, res⟩)
      else if ¬ ret ∧ cond ≠ .inCond then .ok (.returns ret)
      else rightLoop lval rights ⟨ret, res⟩

def leftLoop (rights : List RightValue) : List (Option Bytes) → Comparison → Except Abort Bool
  | [], state => .ok state.ret
  | lval :: lefts, state => do
    match ← rightLoop valType cond lval rights state with
    | .returns ret => .ok ret
    | .goesOn state => leftLoop rights lefts state

end Loops

/-- The comparison of a multi value array against an int. `rightPart` is what the variable
    holds before `sscanf`. -/
def cmpCount (rightPart cnt : Nat) (rval : Bytes) (cond : VtwCond) : Bool :=
  let rightPart := (sscanf rval (str "%u")).headD rightPart
  cond.holds (if rightPart < cnt then 1 else if cnt < rightPart then -1 else 0)

def valCmp (rightPart : Nat) (left right : ValStruct) (cond : VtwCond) : Except Abort Bool :=
  -- the test inside both loops does not depend on where they are
  if left.ismulti ∧ cond ≠ .inCond ∧ right.vals = [] ∧ right.valType = .int then
    match right.val with
    | none => .error .nullPointer
    | some rval => .ok (cmpCount rightPart left.vals.length rval cond)
  else leftLoop left.valType cond right.rights left.lefts ⟨false, 0⟩

/-- `check_comp`, once both operands have their values. -/
def compareOperands (rightPart : Nat) (left right : ValStruct) (cond : VtwCond) : Except Abort Bool :=
  if left.valType ≠ right.valType ∧ left.ismulti = false then .ok false
  else valCmp rightPart left right cond

def checkComp (rightPart : Nat) (left right : Except Int ValStruct) (cond : VtwCond) : Except Abort Bool :=
  match left, right with
  | .ok left, .ok right => compareOperands rightPart left right cond
  | _, _ => .ok false

section Single

theorem leftLoop_single {valType : VtwType} {cond : VtwCond} {lval rval : Option Bytes} {res : Int}
    (round : cmpValues valType lval rval 0 = .ok res) :
    leftLoop valType cond [⟨rval, none⟩] [lval] ⟨false, 0⟩ = .ok (cond.holds res.sign) := by
  have compared : rightLoop valType cond lval [⟨rval, none⟩] ⟨false, 0⟩ = .ok (.returns (cond.holds res.sign)) ∨
      rightLoop valType cond lval [⟨rval, none⟩] ⟨false, 0⟩ = .ok (.goesOn ⟨cond.holds res.sign, res.sign⟩) := by
    have unskipped : ¬ (RightValue.skipped valType ⟨rval, none⟩ = true) := nofun
    rw [rightLoop, if_neg unskipped, round]
    show (if _ then _ else _) = _ ∨ (if _ then _ else _) = _
    split
    · exact .inr rfl
    · split
      · exact .inl rfl
      · exact .inr rfl
  rcases compared with returned | fell
  · rw [leftLoop, returned]
    rfl
  · rw [leftLoop, fell]
    rfl

end Single

section Text

theorem strcmp_eq_zero {s t : Bytes} : strcmp s t = 0 ↔ s = t := by
  fun_induction strcmp s t with
  | case1 => simp
  | case2 => simp
  | case3 => simp
  | case4 a s t ih => simp [ih]
  | case5 a s b t differs less => simp [differs]
  | case6 a s b t differs more => simp [differs]

end Text

end VyattaCfg.Cliexec
