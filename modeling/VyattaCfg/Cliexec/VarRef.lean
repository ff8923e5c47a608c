import VyattaCfg.Client.Ctemplate
import VyattaCfg.Client.Cpath
import VyattaCfg.Library.Words

namespace VyattaCfg.Cliexec

open ByteString VyattaCfg.Client

/-- The fields of a `VarRef` that stay as the constructor sets them. -/
structure VarRef where
  uri : UriParser
  configd : Configd
  active : Bool
  atString : Bytes
  origPathComps : Cpath

/-- An entry of `_paths`. The values are no part of the program: they are those that the last
    component stands for, as configd has them, before they are joined. -/
structure Found where
  path : Cpath
  type : VtwType
  values : List Bytes

def back (path : Cpath) : Bytes := path.getLastD []

/-- What resolving adds to `_paths`, and whether it has set `*ismulti`. -/
structure Resolved where
  paths : List Found
  ismulti : Bool

namespace Resolved

def nothing : Resolved := ⟨[], false⟩

def path (path : Cpath) (type : VtwType) : Resolved := ⟨[⟨path, type, [back path]⟩], false⟩

def append (first second : Resolved) : Resolved :=
  ⟨first.paths ++ second.paths, first.ismulti || second.ismulti⟩

def multi (resolved : Resolved) : Resolved := { resolved with ismulti := true }

end Resolved

abbrev space : UInt8 := ch ' '

def joinValues (values : List Bytes) : Bytes := Words.join space values

namespace VarRef

variable (v : VarRef)

/-- What `get_values` joins. `none` is its result 0: no answer or no value. -/
def getValues (pcomps : Cpath) : Option (List Bytes) :=
  match v.configd.nodeGet (if v.active then .running else .candidate) (pcomps.toPathString v.uri) with
  | none | some [] => none
  | some values => some (values.map cstr)

def template (path : Cpath) : Option Ctemplate := Ctemplate.get v.configd (path.toPathString v.uri)

def handleLeaf (pcomps : Cpath) (t : Ctemplate) : Resolved :=
  if t.isMulti then
    match v.getValues pcomps with
    | none => Resolved.nothing.multi
    | some values => ⟨[⟨pcomps.push (joinValues values), .text, values⟩], true⟩
  else
    match v.getValues pcomps with
    | none => .path (pcomps.push []) .error
    | some values => .path (pcomps.push (joinValues values)) t.type

def children (pcomps : Cpath) : List Bytes :=
  (v.configd.nodeGet (if v.active then .running else .candidate) (pcomps.toPathString v.uri)).getD []

/-- The loop over the children of a node in the two places that have one. -/
def eachChild (pcomps : Cpath) (descend : Cpath → Resolved) : Resolved :=
  (v.children pcomps).foldl (fun resolved c => resolved.append (descend (pcomps.push c))) Resolved.nothing

/-- Where `..` leads to: a tag value takes its tag node with it. -/
def parent (pcomps : Cpath) : Option Cpath :=
  if pcomps = [] then none
  else
    let up := pcomps.dropLast
    if up = [] then some up
    else do
      let parentDef ← v.template up
      some (if parentDef.isTagValue then up.dropLast else up)

/-- The node whose child a name is: below a tag node that is its value in the original path. -/
def tagged (pcomps : Cpath) (t : Option Ctemplate) : Option Cpath :=
  if t.any Ctemplate.isTagNode then
    match v.origPathComps[pcomps.length]? with
    | some comp => some (pcomps.push comp)
    | none => if pcomps.length = v.origPathComps.length then some (pcomps.push v.atString) else none
  else some pcomps

def processRef : List Bytes → Cpath → VtwType → Resolved
  | [], pcomps, defType => .path pcomps defType
  | crComp :: rcomps, pcomps, _ =>
    let got := v.template pcomps
    if crComp = str "@" then
      match got with
      | none => .nothing
      | some t =>
        if t.isTypeless then processRef rcomps pcomps .error
        else if pcomps.length = v.origPathComps.length ∧ (pcomps.length = 0 ∨ pcomps = v.origPathComps) then
          processRef rcomps (pcomps.push v.atString) t.type
        else if !t.isSingleLeafNode && !t.isMultiLeafNode then
          match v.origPathComps[pcomps.length]? with
          | some comp => processRef rcomps (pcomps.push comp) t.type
          | none => .nothing
        else v.handleLeaf pcomps t
    else if crComp = str "." then processRef rcomps pcomps .error
    else if crComp = str ".." then
      match got, v.parent pcomps with
      | some _, some up => processRef rcomps up .error
      | _, _ => .nothing
    else if crComp = str "@@" then
      match got with
      | none => .nothing
      | some t =>
        -- the block for a typeless node does not end the function
        let first :=
          if t.isTypeless then (v.eachChild pcomps fun child => processRef rcomps child t.type).multi
          else .nothing
        if t.isTypeless && v.children pcomps = [] then first
        else if t.isValue then first
        else if t.isTag then
          first.append (v.eachChild pcomps fun child => processRef rcomps child t.type).multi
        else first.append (v.handleLeaf pcomps t)
    else
      match v.tagged pcomps got with
      | some node => processRef rcomps (node.push crComp) .error
      | none => .nothing

end VarRef

def refComps (ref : Bytes) : List Bytes :=
  let rest := if ref.head? = some slash then ref.tail else ref
  let comps := rest.splitOn slash
  (if comps.getLast? = some [] then comps.dropLast else comps).map cstr

/-- The constructor, with the path that `get_cfg_path` gives it. -/
def VarRef.construct (uri : UriParser) (configd : Configd) (atString cfgPath ref : Bytes) (active : Bool) :
    VarRef × Resolved :=
  let absolute := ref.head? = some slash
  let v : VarRef := ⟨uri, configd, active, atString, if absolute then [] else Cpath.ofString uri cfgPath⟩
  (v, v.processRef (refComps ref) v.origPathComps .error)

/-- The loop of `getValue`: what it will join, what it has seen and the type so far. -/
structure Gathered where
  result : List Bytes
  added : List Bytes
  defType : VtwType

namespace VarRef

variable (v : VarRef)

def missing (found : Found) : Bool :=
  found.type = .error ∧
    v.configd.nodeExists (if v.active then .running else .candidate) (found.path.toPathString v.uri) ≠ 1

def gather (multi : Bool) (g : Gathered) (found : Found) : Gathered :=
  if found.path = [] then g
  else if !multi && back found.path ∈ g.added then g
  else if v.missing found then { g with added := [] :: g.added, result := g.result ++ [[]] }
  else
    { result := g.result ++ [back found.path], added := back found.path :: g.added,
      defType := if found.type ≠ .error then found.type else g.defType }

def gathered (multi : Bool) (paths : List Found) : Gathered := paths.foldl (v.gather multi) ⟨[], [], .error⟩

def getValue (multi : Bool) (paths : List Found) : Option (Bytes × VtwType) :=
  let g := v.gathered multi paths
  if g.result.length = 0 then none
  else some (joinValues g.result, if g.result.length > 1 ∨ g.defType = .error then .text else g.defType)

end VarRef

/-- `getSetPath`. Popping the last component of an empty path is undefined: the outer `none`. -/
def getSetPath (paths : List Found) : Option (Option Cpath) :=
  match paths with
  | [⟨[], _, _⟩] => none
  | [⟨path, _, _⟩] => some (some path.dropLast)
  | _ => some none

end VyattaCfg.Cliexec
