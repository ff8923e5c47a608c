import VyattaCfg.Client.Json

namespace VyattaCfg.Client

open ByteString

/-- `configd_mgmt_error`; a NULL field is `none`. -/
structure MgmtError where
  tag : Option Bytes := none
  type : Option Bytes := none
  severity : Option Bytes := none
  appTag : Option Bytes := none
  path : Option Bytes := none
  message : Option Bytes := none
  info : Option Envz.Vector := none

/-- `configd_error`. `me_list` is NULL exactly when the list has no entry. -/
structure ConfigdError where
  source : Option Bytes := none
  text : Option Bytes := none
  isMgmtError : Bool := false
  mgmtErrs : List MgmtError := []

/-- A C string function is given a NULL pointer and the process dies. -/
inductive Fault where
  | nullString
  deriving DecidableEq, Repr

/-- `set_value`: a NULL value leaves the field as it is. -/
def setValue (value field : Option Bytes) : Option Bytes := value <|> field

def configdMgmtErrorSetFromMaps (me : MgmtError) (fields : Envz.Vector)
    (info : Option Envz.Vector) : MgmtError where
  tag := setValue (Envz.get fields (str "error-tag")) me.tag
  type := setValue (Envz.get fields (str "error-type")) me.type
  severity := setValue (Envz.get fields (str "error-severity")) me.severity
  appTag := setValue (Envz.get fields (str "error-app-tag")) me.appTag
  path := setValue (Envz.get fields (str "error-path")) me.path
  message := setValue (Envz.get fields (str "error-message")) me.message
  info := info <|> me.info

/-- The path loop: a `/` becomes a blank, in last position it ends the string. -/
def spaceSeparated : Bytes → Bytes
  | [] => []
  | [c] => if c = ch '/' then [] else [c]
  | c :: rest => (if c = ch '/' then ch ' ' else c) :: spaceSeparated rest

def configdMgmtErrorPathSpaceSeparated (me : MgmtError) : Option Bytes :=
  match me.path with
  | none | some [] => none
  | some (c :: rest) => some (spaceSeparated (if c = ch '/' then rest else c :: rest))

def snprintf (len : Nat) (output : Bytes) : Bytes := output.take (len - 1)

def configdMgmtErrorFormatForCommitOrVal (me : MgmtError) : Bytes :=
  let path := configdMgmtErrorPathSpaceSeparated me
  let shown := path.getD []
  let message := me.message.getD []
  let len := (str "[%s]\n\n%s\n\n[[%s]] failed.\n").length + message.length + 2 * shown.length + 1
  snprintf len
    (str "[" ++ shown ++ str "]\n\n" ++ message ++ str "\n\n[[" ++ shown ++ str "]] failed.\n")

/-- One round of the loop over the errors: each one goes before what is there already. -/
def prependError (curOutput : Bytes) (me : MgmtError) : Bytes :=
  let errStr := configdMgmtErrorFormatForCommitOrVal me
  snprintf (curOutput.length + errStr.length + 1) (errStr ++ curOutput)

def configdErrorFormatForCommitOrVal (ce : Option ConfigdError) (operation : Option Bytes) :
    Option ConfigdError := do
  let ce ← ce
  if ce.isMgmtError then
    let operation := operation.getD (str "Operation")
    let len := (str "\n%s failed!\n").length + operation.length + 1
    let curOutput := snprintf len (str "\n" ++ operation ++ str " failed!\n")
    if ce.mgmtErrs.isEmpty then ce
    else some { ce with text := some (ce.mgmtErrs.foldl prependError curOutput) }
  else ce

theorem configdErrorFormatForCommitOrVal_text {e : ConfigdError} (operation : Option Bytes)
    (told : e.text ≠ none ∨ e.isMgmtError = true ∧ e.mgmtErrs ≠ []) :
    ∃ e', configdErrorFormatForCommitOrVal (some e) operation = some e' ∧ e'.text ≠ none := by
  rw [configdErrorFormatForCommitOrVal, Option.bind_eq_bind, Option.bind_some]
  by_cases mgmt : e.isMgmtError = true
  · rw [if_pos mgmt]
    by_cases empty : e.mgmtErrs.isEmpty = true
    · rw [if_pos empty]
      have kept : e.text ≠ none := by
        rcases told with told | ⟨-, filled⟩
        · exact told
        · exact absurd (List.isEmpty_iff.mp empty) filled
      exact ⟨e, rfl, kept⟩
    · rw [if_neg empty]
      exact ⟨_, rfl, Option.some_ne_none _⟩
  · rw [if_neg mgmt]
    have kept : e.text ≠ none := by
      rcases told with told | ⟨isMgmt, -⟩
      · exact told
      · exact absurd isMgmt mgmt
    exact ⟨e, rfl, kept⟩

def errorInit (error : Option ConfigdError) (source : Bytes) : Option ConfigdError :=
  error.map fun _ => { source := some source }

theorem errorInit_some (e : ConfigdError) (source : Bytes) :
    errorInit (some e) source = some { source := some source } := rfl

def errorSetf (error : Option ConfigdError) (output : Bytes) : Option ConfigdError :=
  error.map fun e => { e with text := some output }

/-- `merge_messages`: `strlen` of an absent message ends the process. -/
def mergeMessages (mgmtErrs : List MgmtError) : Except Fault Bytes :=
  match mgmtErrs.mapM MgmtError.message with
  | some messages => .ok (messages.flatMap (· ++ str "\n"))
  | none => .error .nullString

def errorSetFromMgmtErrorList (ce : Option ConfigdError) (mgmtErrs : List MgmtError) :
    Except Fault (Option ConfigdError) :=
  match ce with
  | none => .ok none
  | some ce =>
    let owner := { ce with mgmtErrs, isMgmtError := true }
    match mgmtErrs with
    | [] => .ok (some { owner with
        text := setValue (some (str "Unspecified error occurred (no data)\n")) ce.text })
    | [me] => .ok (some { owner with text := setValue me.message ce.text })
    | _ => do
      let messages ← mergeMessages mgmtErrs
      .ok (some { owner with text := setValue (some messages) ce.text })

theorem mergeMessages_error_iff (list : List MgmtError) :
    (∃ fault, mergeMessages list = .error fault) ↔ ∃ me ∈ list, me.message = none := by
  have absent : list.mapM MgmtError.message = none ↔ ∃ me ∈ list, me.message = none := by
    induction list with
    | nil => simp
    | cons me list ih =>
      rw [List.mapM_cons]
      cases here : me.message with
      | none => simp [here]
      | some message =>
        cases rest : list.mapM MgmtError.message <;> simp_all
  rw [← absent, mergeMessages]
  cases list.mapM MgmtError.message with
  | none => simpa using ⟨Fault.nullString⟩
  | some messages => simp

theorem errorSetFromMgmtErrorList_error_iff (e : ConfigdError) (list : List MgmtError) :
    (∃ fault, errorSetFromMgmtErrorList (some e) list = .error fault) ↔
      2 ≤ list.length ∧ ∃ me ∈ list, me.message = none := by
  match list with
  | [] => simp [errorSetFromMgmtErrorList]
  | [me] => simp [errorSetFromMgmtErrorList]
  | first :: second :: rest =>
    rw [← mergeMessages_error_iff]
    cases merged : mergeMessages (first :: second :: rest) <;>
      simp [errorSetFromMgmtErrorList, merged, bind, Except.bind]

theorem errorSetFromMgmtErrorList_isSome {e : ConfigdError} {list : List MgmtError} {error : Option ConfigdError}
    (ended : errorSetFromMgmtErrorList (some e) list = .ok error) : error.isSome = true := by
  match list with
  | [] | [me] =>
    cases ended
    rfl
  | first :: second :: rest =>
    cases merged : mergeMessages (first :: second :: rest) with
    | error fault => simp [errorSetFromMgmtErrorList, merged, bind, Except.bind] at ended
    | ok messages =>
      simp only [errorSetFromMgmtErrorList, merged, bind, Except.bind, Except.ok.injEq] at ended
      rw [← ended]
      rfl

end VyattaCfg.Client
