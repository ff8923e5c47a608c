import VyattaCfg.Client.Cpath
import VyattaCfg.Client.Ctemplate
import VyattaCfg.Client.StdMap
import VyattaCfg.Library.Argz
import Mathlib.Data.List.DropRight

namespace VyattaCfg.Client

open ByteString

def shellEscapeSquotes (s : Bytes) : Bytes := s.flatMap fun c => if c = ch '\'' then str "'\\''" else [c]

def isspace (c : UInt8) : Bool := c ∈ str " \t\n\r" ++ [11, 12]

def trimmed (s : Bytes) : Bytes := (s.dropWhile isspace).rdropWhile isspace

def quotedWords (words : List Bytes) : Bytes := words.flatMap fun w => str "'" ++ w ++ str "' "

def environmentString (compVals : List Bytes) (compString : Bytes) (lastCompVal : Bool) (compHelp : Bytes)
    (helpPairs : List (Bytes × Bytes)) : Bytes :=
  str "_cli_shell_api_comp_values=(" ++ quotedWords (compVals.map shellEscapeSquotes) ++ compString ++ str "); " ++
  str "_cli_shell_api_last_comp_val=" ++ (if lastCompVal then str "true; " else str "false; ") ++
  str "_cli_shell_api_comp_help='" ++ compHelp ++ str "'; " ++
  str "_cli_shell_api_hitems=(" ++
    quotedWords (helpPairs.map fun pair => trimmed (shellEscapeSquotes pair.1)) ++ str "); " ++
  str "_cli_shell_api_hstrs=(" ++
    quotedWords (helpPairs.map fun pair => trimmed (shellEscapeSquotes pair.2)) ++ str "); "

def existsOnly (cmd : Bytes) : Bool :=
  cmd == str "delete" || cmd == str "show" || cmd == str "comment" || cmd == str "activate" ||
    cmd == str "deactivate"

section Completion

variable (uri : UriParser) (configd : Configd)

def completedTemplate (cmd : Bytes) (pcomps : Cpath) : Option (Option Ctemplate) :=
  if pcomps.length > 0 then do
    let path := pcomps.toPathString uri
    let t ← Ctemplate.get configd path
    if existsOnly cmd && configd.nodeExists .candidate path ≠ 1 then none
    else if t.isLeafValue then none
    else some (some t)
  else some none

/-- `getCompletionEnv` once it has the command, the components between and the last one. -/
def completionEnv (cmd : Bytes) (pcomps : Cpath) (lastComp : Bytes) : Option Bytes := do
  let t ← completedTemplate uri configd cmd pcomps
  let m ← configd.getHelp (!existsOnly cmd) (pcomps.toPathString uri)
  let cmap := mapToStdMap m
  match t.filter fun t => !(t.isTypeless || t.isValue) with
  | none =>
    let helpPairs := cmap.toList.filter fun pair => lastComp.isPrefixOf pair.1
    if helpPairs.isEmpty then none
    else some (environmentString (helpPairs.map Prod.fst) [] false [] helpPairs)
  | some t =>
    some (environmentString (cmap.toList.map Prod.fst) (if existsOnly cmd then [] else t.getAllowed) true
      (shellEscapeSquotes (t.compHelp.getD [])) cmap.toList)

/-- With a command and nothing after it the last component is a `std::string` of NULL. -/
def getCompletionEnv (path : Bytes) : Except Fault (Option Bytes) :=
  match Argz.createSep path slash with
  | [] => .ok none
  | [_] => .error .nullString
  | cmd :: comp :: comps =>
    let pcomps := (comp :: comps).dropLast.foldl (fun (path : Cpath) comp => path.push (urlUnescape uri comp)) []
    .ok (completionEnv uri configd cmd pcomps ((comp :: comps).getLast (List.cons_ne_nil comp comps)))

/-- No completion is found: the path has no template, is not in the candidate although the
    command needs it, or ends in a leaf value; there is no help; or under a typeless node, a tag
    value or the root no name continues the last component. -/
def NoCompletion (cmd : Bytes) (pcomps : Cpath) (lastComp : Bytes) : Prop :=
  let path := pcomps.toPathString uri
  let t := Ctemplate.get configd path
  (pcomps ≠ [] ∧ (t = none ∨ (existsOnly cmd ∧ configd.nodeExists .candidate path ≠ 1) ∨
    t.any Ctemplate.isLeafValue)) ∨
  match configd.getHelp (!existsOnly cmd) path with
  | none => True
  | some m =>
    (pcomps = [] ∨ t.any Ctemplate.isTypeless ∨ t.any Ctemplate.isValue) ∧
      ∀ pair ∈ (mapToStdMap m).toList, ¬ lastComp <+: pair.1

variable {uri configd}

theorem completedTemplate_root (cmd : Bytes) : completedTemplate uri configd cmd [] = some none := rfl

theorem completedTemplate_inside (uri : UriParser) (configd : Configd) {pcomps : Cpath} (inside : pcomps ≠ [])
    (cmd : Bytes) :
    completedTemplate uri configd cmd pcomps =
      (Ctemplate.get configd (pcomps.toPathString uri)).bind fun t =>
        if existsOnly cmd && configd.nodeExists .candidate (pcomps.toPathString uri) ≠ 1 then none
        else if t.isLeafValue then none else some (some t) := by
  have filled : pcomps.length > 0 := List.length_pos_of_ne_nil inside
  rw [completedTemplate, if_pos filled]
  rfl

theorem completionEnv_of_template {cmd : Bytes} {pcomps : Cpath} {t : Option Ctemplate}
    (found : completedTemplate uri configd cmd pcomps = some t) (lastComp : Bytes) :
    completionEnv uri configd cmd pcomps lastComp = none ↔
      ∀ m, configd.getHelp (!existsOnly cmd) (pcomps.toPathString uri) = some m →
        (t.filter fun t => !(t.isTypeless || t.isValue)) = none ∧
          ∀ pair ∈ (mapToStdMap m).toList, ¬ lastComp <+: pair.1 := by
  unfold completionEnv
  simp only [found, Option.bind_eq_bind, Option.bind_some]
  cases configd.getHelp (!existsOnly cmd) (pcomps.toPathString uri) with
  | none => simp
  | some m =>
    cases t.filter fun t => !(t.isTypeless || t.isValue) with
    | none => simp
    | some t => simp

theorem completionEnv_of_no_template {cmd : Bytes} {pcomps : Cpath}
    (missing : completedTemplate uri configd cmd pcomps = none) (lastComp : Bytes) :
    completionEnv uri configd cmd pcomps lastComp = none := by
  unfold completionEnv
  simp [missing]

theorem completionEnv_eq_none_iff (cmd : Bytes) (pcomps : Cpath) (lastComp : Bytes) :
    completionEnv uri configd cmd pcomps lastComp = none ↔ NoCompletion uri configd cmd pcomps lastComp := by
  by_cases inside : pcomps = []
  · subst inside
    rw [completionEnv_of_template (completedTemplate_root _)]
    cases help : configd.getHelp (!existsOnly cmd) (Cpath.toPathString uri []) <;>
      simp [NoCompletion, help]
  · have split := completedTemplate_inside uri configd inside cmd
    cases got : Ctemplate.get configd (pcomps.toPathString uri) with
    | none =>
      have missing := completionEnv_of_no_template (split.trans (by simp [got])) lastComp
      simp [NoCompletion, inside, got, missing]
    | some t =>
      rw [got, Option.bind_some] at split
      by_cases absent : existsOnly cmd && configd.nodeExists .candidate (pcomps.toPathString uri) ≠ 1
      · have missing := completionEnv_of_no_template (split.trans (if_pos absent)) lastComp
        have refused : existsOnly cmd ∧ configd.nodeExists .candidate (pcomps.toPathString uri) ≠ 1 := by
          simpa using absent
        simp [NoCompletion, inside, refused, missing]
      · rw [if_neg absent] at split
        by_cases leaf : t.isLeafValue
        · have missing := completionEnv_of_no_template (split.trans (if_pos leaf)) lastComp
          simp [NoCompletion, inside, got, leaf, missing]
        · rw [completionEnv_of_template (split.trans (if_neg leaf))]
          have allowed : ¬ (existsOnly cmd ∧ configd.nodeExists .candidate (pcomps.toPathString uri) ≠ 1) := by
            simpa using absent
          have listed : (t.isTypeless = false → t.isValue = true) ↔ t.isTypeless = true ∨ t.isValue = true := by
            cases t.isTypeless <;> simp
          cases help : configd.getHelp (!existsOnly cmd) (pcomps.toPathString uri) with
          | none => simp [NoCompletion, help]
          | some m =>
            simp only [NoCompletion, got, help, allowed, inside, leaf, Option.any_some, false_or, reduceCtorEq,
              Bool.false_eq_true, and_false]
            simp [listed]

end Completion

end VyattaCfg.Client
