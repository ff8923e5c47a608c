import VyattaCfg.Client.Configd

namespace VyattaCfg.Client

open ByteString

inductive VtwType where
  | error
  | int
  | ipv4
  | ipv4net
  | ipv6
  | ipv6net
  | macaddr
  | domain
  | text
  | bool
  | priority
  deriving DecidableEq, Repr

def typeMap : List (Bytes × VtwType) :=
  [(str "u32", .int), (str "ipv4", .ipv4), (str "ipv4net", .ipv4net), (str "ipv6", .ipv6),
    (str "ipv6net", .ipv6net), (str "macaddr", .macaddr), (str "domain", .domain), (str "txt", .text),
    (str "bool", .bool), (str "priority", .priority)]

def mapType (typeStr : Option Bytes) : VtwType := (typeStr.bind fun s => List.lookup s typeMap).getD .error

structure Ctemplate where
  type : VtwType
  type2 : VtwType
  isValue : Bool
  isMulti : Bool
  isTag : Bool
  allowed : Answer (List Bytes)
  compHelp : Option Bytes

namespace Ctemplate

/-- `Ctemplate::get` on a template of this path; `none` is the return value false. -/
def get (configd : Configd) (path : Bytes) : Option Ctemplate := do
  let m ← configd.tmplGet path
  some {
    type := mapType (Envz.get m (str "type"))
    type2 := mapType (Envz.get m (str "type2"))
    isValue := Envz.get m (str "is_value") = some (str "1")
    isMulti := Envz.get m (str "multi") = some (str "1")
    isTag := Envz.get m (str "tag") = some (str "1")
    allowed := configd.tmplGetAllowed path
    compHelp := Envz.get m (str "comp_help") }

variable (t : Ctemplate)

def isTypeless : Bool := t.type = .error

def isTagNode : Bool := t.isTag && !t.isValue

def isTagValue : Bool := t.isTag && t.isValue

def isLeafValue : Bool := !t.isTag && t.isValue

def isSingleLeafNode : Bool := !t.isValue && !t.isMulti && !t.isTag && !t.isTypeless

def isMultiLeafNode : Bool := !t.isValue && t.isMulti

def getAllowed : Bytes :=
  match t.allowed with
  | .given v => (str " ").intercalate v
  | .refused _ | .died => []

end Ctemplate

end VyattaCfg.Client
