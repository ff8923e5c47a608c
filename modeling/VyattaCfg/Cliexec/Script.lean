import VyattaCfg.Cliexec.Meaning
import VyattaCfg.Cliexec.SyntaxErrors

namespace VyattaCfg.Cliexec

open ByteString VyattaCfg.Client Outcome ShortCircuit

deriving instance DecidableEq for VtwActType

section Template

/-- A statement of a template file that appends to a list of actions. -/
inductive Cause where
  | action (type : VtwActType) (tree : Action)
  | syntaxCause (tree : Action)
  | sub (exp : AssignExp)
  | commit (tree : Action)

def Cause.type : Cause → VtwActType
  | .action type _ => type
  | .syntaxCause _ => .syntaxAct
  | .sub _ => .subAct
  | .commit _ => .commitAct

def Cause.clause : Cause → Clause
  | .action _ tree | .syntaxCause tree => .action tree false
  | .sub exp => .sub exp
  | .commit tree => .action tree true

/-- What `parse_def` leaves in `vtw_def` that `process_cli_script` reads. -/
structure Template where
  causes : List Cause
  defTypeHelp : Option Bytes

/-- The clauses of one type, in the order of the file. -/
def Template.clauses (template : Template) (actType : VtwActType) : List Clause :=
  (template.causes.filter (·.type = actType)).map Cause.clause

def Cause.run (actions : VtwActType → VtwNode) (cause : Cause) : Except Abort (VtwActType → VtwNode) := do
  let (node, aux) ← cause.clause.build
  .ok (Function.update actions cause.type (append (actions cause.type) node aux))

/-- The lists of `vtw_def`, which `parse_def` zeroes first. -/
def Template.actions (template : Template) : Except Abort (VtwActType → VtwNode) :=
  template.causes.foldlM Cause.run fun _ => .null

end Template

section Script

/-- What cliexec has from its environment: CONFIGD_EXT, COMMIT_ACTION, CONFIGD_PATH, and whether there is a
    VYATTA_OUTPUT_ERROR_LOCATION. -/
structure Environment where
  actionEnv : Option Bytes
  commitAction : Option Bytes
  cpath : Bytes
  errorLocation : Bool

def isDelete (commitAction : Option Bytes) (action : VtwActType) : Bool :=
  match commitAction with
  | none => action = .deleteAct
  | some name => (name = str "DELETE" ∧ (action = .beginAct ∨ action = .endAct)) ∨ action = .deleteAct

variable (uri : UriParser)

/-- There is always a last component. -/
def extractAtString (cpath : Bytes) : Bytes := (Cpath.ofString uri cpath).getLastD []

def Environment.globals (env : Environment) (actType : VtwActType) : Globals where
  connected := true
  atString := extractAtString uri env.cpath
  inDeleteAction := isDelete env.commitAction actType
  inCommit := true
  validateValue := .zero

def scriptDef (tmpl : Ctemplate) (template : Template) : VtwDef :=
  ⟨tmpl.type, tmpl.type2, template.defTypeHelp, tmpl.isMulti⟩

variable {σ : Type} (configd : Configd) (world : CfgPath → World σ) (rightPart : σ → Nat) (lib : AddressLib)
  (env : Environment)

/-- `process_cli_script` with what `parse_def` makes of the file, and with what it sets before
    `execute_list`. The store is asked with the `cfg_path` that it sets. -/
def processScript (parsed : Option Template) (state : σ) : Except Abort (ScriptEnd × σ) :=
  match parsed with
  | none => .ok (.unparsed, state)
  | some template => do
    let actions ← template.actions
    match Ctemplate.get configd (Cpath.toPathString uri (Cpath.ofString uri env.cpath)) with
    | none => .ok (.noTemplate, state)
    | some tmpl =>
      let actType := getActionType env.actionEnv
      if actType = .topAct then .ok (.noAction, state)
      else do
        let (ret, state) ← executeList (world (setCfgPath env.cpath)) (env.globals uri actType) rightPart none
          env.errorLocation lib (scriptDef tmpl template) (actions actType) state
        .ok (.executed ret, state)

end Script

section Selected

theorem run_chain {causes : List Cause} {actions : VtwActType → VtwNode} {nodes : VtwActType → List (VtwNode × Bool)}
    (before : ∀ actType, actions actType = chain (nodes actType)) :
    ∃ (after : VtwActType → VtwNode) (built : VtwActType → List (VtwNode × Bool)),
      causes.foldlM Cause.run actions = .ok after ∧
      (∀ actType, ((causes.filter (·.type = actType)).map Cause.clause).mapM Clause.build = .ok (built actType)) ∧
        ∀ actType, after actType = chain (nodes actType ++ built actType) := by
  induction causes generalizing actions nodes with
  | nil =>
    refine ⟨actions, fun _ => [], rfl, fun _ => rfl, ?_⟩
    intro actType
    rw [List.append_nil, before]
  | cons cause causes ih =>
    obtain ⟨node, aux, made, -⟩ := clause_build cause.clause
    have appended : ∀ actType, Function.update actions cause.type (append (actions cause.type) node aux) actType =
        chain (Function.update nodes cause.type (nodes cause.type ++ [(node, aux)]) actType) := by
      intro actType
      by_cases same : actType = cause.type
      · rw [same, Function.update_self, Function.update_self, before, append_chain]
      · rw [Function.update_of_ne same, Function.update_of_ne same, before]
    obtain ⟨after, built, ran, each, lists⟩ := ih appended
    refine ⟨after, fun actType => if cause.type = actType then (node, aux) :: built actType else built actType,
      ?_, ?_, ?_⟩
    · rw [List.foldlM_cons, Cause.run, made]
      exact ran
    · intro actType
      show _ = Except.ok (if cause.type = actType then (node, aux) :: built actType else built actType)
      by_cases same : cause.type = actType
      · rw [List.filter_cons_of_pos (by simpa using same), List.map_cons, List.mapM_cons, made, each, if_pos same]
        rfl
      · rw [List.filter_cons_of_neg (by simpa using same), each, if_neg same]
    · intro actType
      show _ = chain (nodes actType ++ if cause.type = actType then (node, aux) :: built actType else built actType)
      rw [lists]
      by_cases same : cause.type = actType
      · rw [if_pos same, ← same, Function.update_self, List.append_assoc]
        rfl
      · rw [if_neg same, Function.update_of_ne (Ne.symm same)]

theorem template_actions (template : Template) :
    ∃ (actions : VtwActType → VtwNode) (built : VtwActType → List (VtwNode × Bool)),
      template.actions = .ok actions ∧
      (∀ actType, (template.clauses actType).mapM Clause.build = .ok (built actType)) ∧
        ∀ actType, actions actType = chain (built actType) :=
  @run_chain template.causes (fun _ => .null) (fun _ => []) fun _ => rfl

variable {σ : Type} {w : World σ} {g : Globals} {rightPart : σ → Nat} {prependMsg : Option Bytes} {format : Bool}
  {lib : AddressLib} {defn : VtwDef}

/-- What `cliexec` runs is in a commit, so that the flags of the clauses do not count. -/
theorem executeList_passes {clauses : List Clause} {built : List (VtwNode × Bool)} (inCommit : g.inCommit)
    (each : clauses.mapM Clause.build = .ok built) (state after : σ) :
    executeList w g rightPart prependMsg format lib defn (chain built) state = .ok (true, after) ↔
      clauses ≠ [] ∧ ∃ valp middle, char2val w g lib defn g.atString state = .ok (.ok valp, middle) ∧
        AllPass (clauses.map fun clause =>
          clause.exp.meaning w { g with validateValue := valp } rightPart prependMsg format) middle after := by
  have meanings (valp : ValStruct) : clauses.map (Clause.meaning w { g with validateValue := valp } rightPart
      prependMsg format) = clauses.map fun clause =>
        clause.exp.meaning w { g with validateValue := valp } rightPart prependMsg format :=
    List.map_congr_left fun clause _ => if_pos (.inl inCommit)
  constructor
  · intro ran
    obtain ⟨⟨checked, middle⟩, ranCheck, rest⟩ := bind_ok.mp ran
    cases checked with
    | error status => cases rest
    | ok valp =>
      have nonempty : clauses ≠ [] := by
        intro none
        rw [none] at each
        cases each
        cases rest
      refine ⟨nonempty, valp, middle, ranCheck, ?_⟩
      rw [← inOrder_true_iff, ← meanings, ← chain_meaning nonempty each]
      exact rest
  · intro both
    obtain ⟨nonempty, valp, middle, ranCheck, passes⟩ := both
    rw [← inOrder_true_iff, ← meanings, ← chain_meaning nonempty each] at passes
    exact bind_ok.mpr ⟨_, ranCheck, passes⟩

end Selected

/-- A script succeeds if and only if configd has a template of the node, the action is named and the file has
    clauses for it, the value is of the type, and every one of these clauses says yes after the one before. -/
theorem processScript_succeeds_iff {σ : Type} (uri : UriParser) (configd : Configd) (world : CfgPath → World σ)
    (rightPart : σ → Nat) (lib : AddressLib) (env : Environment) (parsed : Option Template) (state after : σ) :
    processScript uri configd world rightPart lib env parsed state = .ok (.executed true, after) ↔
      ∃ template tmpl valp middle, parsed = some template ∧
        Ctemplate.get configd (Cpath.toPathString uri (Cpath.ofString uri env.cpath)) = some tmpl ∧
        getActionType env.actionEnv ≠ .topAct ∧ template.clauses (getActionType env.actionEnv) ≠ [] ∧
        char2val (world (setCfgPath env.cpath)) (env.globals uri (getActionType env.actionEnv)) lib
          (scriptDef tmpl template) (extractAtString uri env.cpath) state = .ok (.ok valp, middle) ∧
        AllPass ((template.clauses (getActionType env.actionEnv)).map fun clause =>
          clause.exp.meaning (world (setCfgPath env.cpath))
            { env.globals uri (getActionType env.actionEnv) with validateValue := valp } rightPart none
            env.errorLocation) middle after := by
  constructor
  · intro ran
    cases parsed with
    | none => cases ran
    | some template =>
      obtain ⟨actions, built, made, each, lists⟩ := template_actions template
      rw [processScript, made] at ran
      cases found : Ctemplate.get configd (Cpath.toPathString uri (Cpath.ofString uri env.cpath)) with
      | none =>
        simp only [found] at ran
        cases ran
      | some tmpl =>
        simp only [found] at ran
        by_cases top : getActionType env.actionEnv = .topAct
        · simp only [top] at ran
          cases ran
        · obtain ⟨⟨ret, reached⟩, executed, same⟩ := bind_ok.mp ((if_neg top).symm.trans ran)
          cases same
          rw [lists] at executed
          obtain ⟨nonempty, valp, middle, checked, passes⟩ := (executeList_passes rfl (each _) state _).mp executed
          exact ⟨template, tmpl, valp, middle, rfl, rfl, top, nonempty, checked, passes⟩
  · intro all
    obtain ⟨template, tmpl, valp, middle, rfl, found, named, nonempty, checked, passes⟩ := all
    obtain ⟨actions, built, made, each, lists⟩ := template_actions template
    have executed : executeList (world (setCfgPath env.cpath)) (env.globals uri (getActionType env.actionEnv)) rightPart
        none env.errorLocation lib (scriptDef tmpl template) (actions (getActionType env.actionEnv)) state =
          .ok (true, after) := by
      rw [lists]
      exact (executeList_passes rfl (each _) state after).mpr ⟨nonempty, valp, middle, checked, passes⟩
    rw [processScript, made]
    simp only [found]
    exact (if_neg named).trans (bind_ok.mpr ⟨(true, after), executed, rfl⟩)

end VyattaCfg.Cliexec
