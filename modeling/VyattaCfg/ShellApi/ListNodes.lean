import VyattaCfg.Client.Configd
import VyattaCfg.Library.ShellWords

namespace VyattaCfg.ShellApi

open ByteString VyattaCfg.Client Shell

/-- What an operation prints before it exits: successfully, or with `EXIT_FAILURE`. -/
abbrev Printed := Except Bytes Bytes

/-- `printf("'%s'", str)` for the first element, `printf(" '%s'", str)` for each other one. -/
def printVector : List Bytes → Bytes
  | [] => []
  | first :: rest =>
    rest.foldl (fun out node => out ++ str " '" ++ node ++ str "'") (str "'" ++ first ++ str "'")

section Operations

variable (configd : Configd) (args : Bytes)

def listNodesIn (db : Db) : Printed :=
  match configd.nodeGet db args with
  | none => .error []
  | some v => .ok (printVector v)

def listNodes : Printed := listNodesIn configd args .candidate

def listActiveNodes : Printed := listNodesIn configd args .running

def listEffectiveNodes : Printed := listNodesIn configd args .effective

def returnActiveValue : Printed := listNodesIn configd args .running

def returnEffectiveValue : Printed := listNodesIn configd args .effective

def returnValues : Printed := listNodesIn configd args .candidate

def returnActiveValues : Printed := listNodesIn configd args .running

def returnEffectiveValues : Printed := listNodesIn configd args .effective

def getTmplAllowed : Printed :=
  match configd.tmplGetAllowed args with
  | .given v => .ok (printVector v)
  | .refused (some text) => .error (text ++ str "\n")
  | .refused none | .died => .error []

end Operations

/-- The operations whose output is evaluated into an array. -/
inductive ListOp where
  | listNodes
  | listActiveNodes
  | listEffectiveNodes
  | returnActiveValue
  | returnEffectiveValue
  | returnValues
  | returnActiveValues
  | returnEffectiveValues
  | getTmplAllowed
  deriving DecidableEq, Repr

namespace ListOp

def print (configd : Configd) (args : Bytes) : ListOp → Printed
  | .listNodes => ShellApi.listNodes configd args
  | .listActiveNodes => ShellApi.listActiveNodes configd args
  | .listEffectiveNodes => ShellApi.listEffectiveNodes configd args
  | .returnActiveValue => ShellApi.returnActiveValue configd args
  | .returnEffectiveValue => ShellApi.returnEffectiveValue configd args
  | .returnValues => ShellApi.returnValues configd args
  | .returnActiveValues => ShellApi.returnActiveValues configd args
  | .returnEffectiveValues => ShellApi.returnEffectiveValues configd args
  | .getTmplAllowed => ShellApi.getTmplAllowed configd args

/-- The vector that the operation gets from configd. -/
def nodes (configd : Configd) (args : Bytes) : ListOp → Option (List Bytes)
  | .listNodes | .returnValues => configd.nodeGet .candidate args
  | .listActiveNodes | .returnActiveValue | .returnActiveValues => configd.nodeGet .running args
  | .listEffectiveNodes | .returnEffectiveValue | .returnEffectiveValues => configd.nodeGet .effective args
  | .getTmplAllowed =>
    match configd.tmplGetAllowed args with
    | .given v => some v
    | _ => none

end ListOp

theorem printVector_eq (v : List Bytes) : printVector v = squotedList v := by
  have loop : ∀ (rest : List Bytes) (out : Bytes),
      rest.foldl (fun out node => out ++ str " '" ++ node ++ str "'") out = out ++ squotedTail rest := by
    intro rest
    induction rest with
    | nil => simp [squotedTail]
    | cons node rest ih =>
      intro out
      have opening : str " '" = [space, squote] := rfl
      have closing : str "'" = [squote] := rfl
      rw [List.foldl_cons, ih, squotedTail_cons, opening, closing]
      simp [squoted]
  cases v with
  | nil => rfl
  | cons first rest =>
    rw [printVector, loop, squotedList]
    rfl

theorem print_eq (op : ListOp) (configd : Configd) (args : Bytes) :
    (op.print configd args).toOption = (op.nodes configd args).map printVector := by
  have listed : ∀ db, (listNodesIn configd args db).toOption = (configd.nodeGet db args).map printVector := by
    intro db
    unfold listNodesIn
    cases configd.nodeGet db args <;> rfl
  cases op with
  | getTmplAllowed =>
    simp only [ListOp.print, ListOp.nodes, getTmplAllowed]
    cases configd.tmplGetAllowed args with
    | given v => rfl
    | refused text => cases text <;> rfl
    | died => rfl
  | _ => exact listed _

theorem printed_array_iff (op : ListOp) (configd : Configd) (args : Bytes) :
    (op.print configd args).toOption.bind evalArray = op.nodes configd args ↔
      ∀ v, op.nodes configd args = some v → ∀ node ∈ v, squote ∉ node := by
  rw [print_eq]
  cases op.nodes configd args with
  | none => simp
  | some v =>
    rw [Option.map_some, Option.bind_some, printVector_eq, evalArray,
      readWords_squotedList_iff arrayBlank (by decide) (by decide)]
    simp

/-- A reboot in a value runs where a script evaluates the list. -/
theorem printed_array_quote : ¬ ∀ (op : ListOp) (configd : Configd) (args : Bytes),
    (∀ v ∈ op.nodes configd args, ∀ node ∈ v, 0 ∉ node) →
      (op.print configd args).toOption.bind evalArray = op.nodes configd args := by
  intro all
  let node := str "'$(reboot)'"
  let configd := Configd.served (fun _ => true) ⟨[], 0⟩ fun _ => ⟨.written, none, some (vectorReply 1 [node])⟩
  have answered : configd.nodeGet .effective (str "/system") = some [node] :=
    served_nodeGet _ _ _ _ _ _ ⟨rfl, rfl⟩ rfl
  have free : ∀ v ∈ ListOp.listEffectiveNodes.nodes configd (str "/system"), ∀ node ∈ v, 0 ∉ node := by
    intro v member
    obtain rfl : [node] = v := Option.some.inj (answered.symm.trans member)
    decide
  have given := all .listEffectiveNodes configd (str "/system") free
  have expanded : evalArray (printVector [node]) = none := by decide +kernel
  rw [print_eq, ListOp.nodes, answered, Option.map_some, Option.bind_some, expanded] at given
  exact absurd given (by simp)

end VyattaCfg.ShellApi
