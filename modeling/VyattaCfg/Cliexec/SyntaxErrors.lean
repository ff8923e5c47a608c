import VyattaCfg.Cliexec.TemplateGrammar

namespace VyattaCfg.Cliexec

open ByteString Grammar

section Script

inductive VtwActType where
  | deleteAct | createAct | activateAct | updateAct | syntaxAct | commitAct | beginAct | endAct | subAct | allowedAct
  | topAct

def toLower (b : UInt8) : UInt8 := if ch 'A' ≤ b ∧ b ≤ ch 'Z' then b + 32 else b

def actionNames : List (String × VtwActType) :=
  [("allowed", .allowedAct), ("delete", .deleteAct), ("create", .createAct), ("activate", .activateAct),
    ("update", .updateAct), ("syntax", .syntaxAct), ("commit", .commitAct), ("begin", .beginAct), ("end", .endAct),
    ("sub", .subAct)]

/-- `get_action_type` for what the environment has. `strcasecmp` does not tell cases apart. -/
def getActionType (actionEnv : Option Bytes) : VtwActType :=
  match actionEnv with
  | none => .topAct
  | some name => ((actionNames.find? fun entry => str entry.1 = name.map toLower).map Prod.snd).getD .topAct

/-- `parse_def` for the content of a file that can be opened. `cli_deferror` only prints. -/
def parseDef (parser : Parser cliParse.language) (file : Option Bytes) : Int :=
  match file with
  | none => -5
  | some content => parser.yyparse (defTokens content)

/-- How `process_cli_script` ends: before `execute_list` it returns EXIT_FAILURE. -/
inductive ScriptEnd where
  | unparsed
  | noTemplate
  | noAction
  | executed (ret : Bool)

def processCliScript (parser : Parser cliParse.language) (file : Option Bytes) (template : Bool)
    (actionEnv : Option Bytes) (executeList : VtwActType → Bool) : ScriptEnd :=
  if parseDef parser file ≠ 0 then .unparsed
  else if !template then .noTemplate
  else
    match getActionType actionEnv with
    | .topAct => .noAction
    | actType => .executed (executeList actType)

end Script

section Reported

variable (parser : Parser cliParse.language)

def Refused (content : Bytes) : Prop :=
  parseDef parser (some content) ≠ 0 ∧ ∀ (template : Bool) (actionEnv : Option Bytes) (executeList : VtwActType → Bool),
    processCliScript parser (some content) template actionEnv executeList = .unparsed

theorem refused_iff (content : Bytes) : Refused parser content ↔ parseDef parser (some content) ≠ 0 :=
  ⟨fun refused => refused.1, fun nonzero => ⟨nonzero, fun _ _ _ => if_pos nonzero⟩⟩

/-- A bad token that the file starts with, but for line breaks and the tag, is not reported. -/
theorem syntax_error_refused_iff {content : Bytes} (delivered : .syntaxError ∈ defTokens content) :
    Refused parser content ↔
      ¬ (BadTokenOpens (defTokens content) ∧ ¬ parser.exhausted (defTokens content)) := by
  rw [refused_iff, parseDef, Ne, parser.yyparse_zero_iff, bad_language_iff delivered]

theorem syntax_error_refused_second : Refused (.roomy cliParse.language) (str "\n??") := by
  have scanned : defTokens (str "\n??") = [.eol, .syntaxError, .syntaxError, .eol] := by decide +kernel
  have delivered : .syntaxError ∈ defTokens (str "\n??") := by
    rw [scanned]
    decide
  apply (syntax_error_refused_iff (.roomy cliParse.language) delivered).mpr
  intro accepted
  have once := accepted.1.once
  rw [scanned] at once
  exact absurd once (by decide)

theorem syntax_error_accepted :
    .syntaxError ∈ defTokens (str "?\n") ∧ ¬ Refused (.roomy cliParse.language) (str "?\n") := by
  have scanned : defTokens (str "?\n") = [.syntaxError, .eol, .eol] := by decide +kernel
  have inside : [.syntaxError, .eol, .eol] ∈ cliParse.language :=
    (bad_language_iff List.mem_cons_self).mpr (badTokenOpens_eols 2)
  refine ⟨?_, ?_⟩
  · rw [scanned]
    exact List.mem_cons_self
  · intro refused
    apply refused.1
    rw [parseDef, scanned]
    exact (Parser.roomy cliParse.language).success _ inside not_false

end Reported

end VyattaCfg.Cliexec
