import VyattaCfg.Cliexec.VarRef

namespace VyattaCfg.Cliexec

open ByteString VyattaCfg.Client

/-- The global `cfg_path`: 4096 bytes, the last of which stays NUL. -/
structure CfgPath where
  text : Bytes
  free : 0 ∉ text
  fits : text.length ≤ 4095

/-- `set_cfg_path`: `strncpy` of at most 4095 bytes. -/
def setCfgPath (s : Bytes) : CfgPath where
  text := (cstr s).take 4095
  free member := cstr_nul_free s (List.mem_of_mem_take member)
  fits := List.length_take_le 4095 (cstr s)

def setAll (before : CfgPath) (written : List Bytes) : CfgPath := written.foldl (fun _ s => setCfgPath s) before

/-- A function that overwrites `cfg_path`: the strings that it passes to `set_cfg_path`, in
    order, and its result. -/
structure Called (α : Type) where
  written : List Bytes
  result : α

structure Handle where
  configd : Configd
  atString : Bytes

structure VarRefValue where
  type : VtwType
  val : Bytes

/-- The value, if the function returns non-zero, and `*ismulti`. -/
structure VarRefResult where
  value : Option VarRefValue
  ismulti : Bool

section Calls

variable (uri : UriParser) (h : Handle)

/-- The path without the value at its end. -/
def workingPath (cfgPath : CfgPath) (tmpl : Ctemplate) : Bytes :=
  let cpath := Cpath.ofString uri cfgPath.text
  Cpath.toPathString uri (if tmpl.isValue then cpath.dropLast else cpath)

def cstoreGetVarRef (cfgPath : CfgPath) (refStr : Bytes) (fromActive : Bool) : Called VarRefResult :=
  match Ctemplate.get h.configd cfgPath.text with
  | none => ⟨[], none, false⟩
  | some tmpl =>
    let working := workingPath uri cfgPath tmpl
    let (vref, resolved) := VarRef.construct uri h.configd h.atString (setCfgPath working).text refStr fromActive
    ⟨[working, Cpath.toPathString uri (Cpath.ofString uri cfgPath.text)],
      (vref.getValue resolved.ismulti resolved.paths).map fun (value, type) => ⟨type, cstr value⟩,
      resolved.ismulti⟩

def nodeTypeLeaf : Int := 0

/-- There is no result where the process dies: in `puts` of a NULL text, or with a component
    popped off an empty path. -/
def cstoreSetVarRef (cfgPath : CfgPath) (refStr value : Bytes) (toActive : Bool) : Option (Called Bool) :=
  if toActive then some ⟨[], false⟩
  else
    let origCfgPath := Cpath.ofString uri cfgPath.text
    let working := Cpath.toPathString uri origCfgPath.dropLast
    let written := [working, Cpath.toPathString uri origCfgPath]
    let (_, resolved) := VarRef.construct uri h.configd h.atString (setCfgPath working).text refStr toActive
    match getSetPath resolved.paths with
    | none => none
    | some none => some ⟨written, false⟩
    | some (some cpath) =>
      if h.configd.nodeGetType (Cpath.toPathString uri cpath) ≠ nodeTypeLeaf then some ⟨written, false⟩
      else
        match h.configd.set (Cpath.toPathString uri (cpath.push value)) with
        | .given _ => some ⟨written, true⟩
        | .refused (some _) => some ⟨written, false⟩
        | .refused none | .died => none

end Calls

end VyattaCfg.Cliexec
