import VyattaCfg.Library.Envz

namespace VyattaCfg.Client

open ByteString

/-- JSON values as jansson holds them: an integer is a `json_int_t` of 64 bits, the members
    of an object keep their order and have distinct keys. -/
inductive Json where
  | null
  | bool (value : Bool)
  | integer (value : BitVec 64)
  | real
  | string (value : Bytes)
  | array (items : List Json)
  | object (members : List (Bytes × Json))

namespace Json

/-- `json_object_get`; NULL also for a value that is no object. -/
def objectGet : Json → Bytes → Option Json
  | .object members, key => members.lookup key
  | _, _ => none

def stringValue : Json → Option Bytes
  | .string value => some value
  | _ => none

def members : Json → List (Bytes × Json)
  | .object members => members
  | _ => []

def items : Json → List Json
  | .array items => items
  | _ => []

def isNull : Json → Bool
  | .null => true
  | _ => false

end Json

def jobjIsNull : Option Json → Bool
  | none => true
  | some jobj => jobj.isNull

def jobjIsNotNull (jobj : Option Json) : Bool := !jobjIsNull jobj

def containsNonNullEntryFor (jobj : Json) (key : Bytes) : Bool := jobjIsNotNull (jobj.objectGet key)

/-- `jarray_to_vector`: a NULL result stands for an element that is no string. -/
def jarrayToVector (jobj : Json) : Option (List Bytes) := jobj.items.mapM Json.stringValue

/-- One round of the member loops: `only_allow_strings` decides between giving up on a
    value that is no string and leaving it out. -/
def addMember (onlyAllowStrings : Bool) (envz : Envz.Vector) (member : Bytes × Json) :
    Option Envz.Vector :=
  match member.2.stringValue with
  | some vstr => some (Envz.add envz member.1 vstr)
  | none => if onlyAllowStrings then none else some envz

def jobjToMap (jobj : Json) (onlyAllowStrings : Bool) : Option Envz.Vector :=
  jobj.members.foldlM (addMember onlyAllowStrings) []

def jarrayToMap (jobj : Json) : Option Envz.Vector :=
  jobj.items.foldlM (fun envz jmap => jmap.members.foldlM (addMember true) envz) []

/-- The string members of a list, which the member loops add in order. -/
def stringMembers (members : List (Bytes × Json)) : List (Bytes × Bytes) :=
  members.filterMap fun member => member.2.stringValue.map fun vstr => (member.1, vstr)

theorem foldlM_addMember_false (members : List (Bytes × Json)) (envz : Envz.Vector) :
    members.foldlM (addMember false) envz = some (Envz.addAll envz (stringMembers members)) := by
  induction members generalizing envz with
  | nil => rfl
  | cons member members ih =>
    rw [List.foldlM_cons, addMember, stringMembers, List.filterMap_cons]
    cases member.2.stringValue with
    | none => exact ih envz
    | some vstr => exact ih (Envz.add envz member.1 vstr)

theorem foldlM_addMember_true {members : List (Bytes × Json)} {envz m : Envz.Vector} :
    members.foldlM (addMember true) envz = some m ↔
      (∀ member ∈ members, member.2.stringValue ≠ none) ∧ m = Envz.addAll envz (stringMembers members) := by
  induction members generalizing envz with
  | nil => simp [stringMembers, Envz.addAll, eq_comm]
  | cons member members ih =>
    rw [List.foldlM_cons, addMember, stringMembers, List.filterMap_cons, List.forall_mem_cons]
    cases value : member.2.stringValue with
    | none => simp
    | some vstr =>
      simp only [Option.bind_eq_bind, Option.bind_some, Option.map_some, ne_eq, reduceCtorEq, not_false_eq_true,
        true_and]
      exact ih

theorem foldlM_members (items : List Json) (envz : Envz.Vector) :
    items.foldlM (fun envz jmap => jmap.members.foldlM (addMember true) envz) envz =
      (items.flatMap Json.members).foldlM (addMember true) envz := by
  induction items generalizing envz with
  | nil => rfl
  | cons jmap items ih =>
    rw [List.foldlM_cons, List.flatMap_cons, List.foldlM_append]
    cases jmap.members.foldlM (addMember true) envz with
    | none => rfl
    | some next => exact ih next

end VyattaCfg.Client
