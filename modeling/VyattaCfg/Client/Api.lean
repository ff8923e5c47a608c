import VyattaCfg.Client.Request
import VyattaCfg.Library.Argz

namespace VyattaCfg.Client

open ByteString

inductive Arg where
  | s (value : Bytes)
  | i (value : BitVec 32)
  | b (value : Bool)
  | flags (members : List (Bytes × Bool))

/-- How a request function ends: which of the four calls it makes and what it does with
    what that one returns. -/
inductive Ending where
  | int
  -- `result != -1 ? !result : -1`.
  | intNegated
  -- `(result == 1) ? strdup("") : NULL`.
  | intIsOne
  | str
  -- `get_str`, then `configd_error_format_for_commit_or_val` for the operation.
  | strFormatted (operation : Bytes)
  | vector
  | map

/-- A request function: the name it gives the error as its source, the method and the
    arguments of its request, and how it ends. -/
structure Rpc where
  source : Bytes
  fn : Bytes
  args : List Arg
  ending : Ending

inductive Ret where
  | int (value : Int)
  | str (value : Option Bytes)
  | vector (value : Option (List Bytes))
  | map (value : Option Envz.Vector)

def Ret.Failed : Ret → Prop
  | .int value => value = -1
  | .str value => value = none
  | .vector value => value = none
  | .map value => value = none

def Ending.failure : Ending → Ret
  | .int | .intNegated => .int (-1)
  | .intIsOne | .str | .strFormatted _ => .str none
  | .vector => .vector none
  | .map => .map none

abbrev Done := Except Fault (Conn × Ret × Option ConfigdError)

section Calls

-- jansson's check of a string that it packs
variable (utf8 : Bytes → Bool)

def Arg.json : Arg → Option Json
  | .s value => if utf8 value then some (.string value) else none
  | .i value => some (.integer (value.signExtend 64))
  | .b value => some (.bool value)
  | .flags members => some (.object (members.map fun (key, value) => (key, .bool value)))

def packArgs (args : List Arg) : Option Json := (args.mapM (Arg.json utf8)).map .array

def negate (result : Int) : Int := if result ≠ -1 then (if result = 0 then 1 else 0) else -1

def isOne (result : Int) : Option Bytes := if result = 1 then some [] else none

theorem negate_eq_failure_iff (result : Int) : negate result = -1 ↔ result = -1 := by
  unfold negate
  by_cases failed : result = -1
  · simp [failed]
  · rw [if_pos failed]
    split_ifs <;> simp [failed]

theorem isOne_eq_none_iff (result : Int) : isOne result = none ↔ result ≠ 1 := by
  unfold isOne
  split_ifs with one <;> simp [one]

/-- When the arguments do not pack, the function returns before `error_init`. -/
def Rpc.run (rpc : Rpc) (conn : Conn) (x : Exchange) (error : Option ConfigdError) : Done :=
  match packArgs utf8 rpc.args with
  | none => .ok (conn, rpc.ending.failure, error)
  | some args =>
    let req : Request := ⟨rpc.fn, some args⟩
    let error := errorInit error rpc.source
    match rpc.ending with
    | .int => do
      let (conn, result, error) ← getInt conn req x error
      .ok (conn, .int result, error)
    | .intNegated => do
      let (conn, result, error) ← getInt conn req x error
      .ok (conn, .int (negate result), error)
    | .intIsOne => do
      let (conn, result, error) ← getInt conn req x error
      .ok (conn, .str (isOne result), error)
    | .str => do
      let (conn, result, error) ← getStr conn req x error
      .ok (conn, .str result, error)
    | .strFormatted operation => do
      let (conn, result, error) ← getStr conn req x error
      .ok (conn, .str result, configdErrorFormatForCommitOrVal error (some operation))
    | .vector => do
      let (conn, result, error) ← getVector conn req x error
      .ok (conn, .vector result, error)
    | .map => do
      let (conn, result, error) ← getMap conn req x error
      .ok (conn, .map result, error)

def Ending.returns : Ending → Result → Ret
  | .int, result => .int result.getInt
  | .intNegated, result => .int (negate result.getInt)
  | .intIsOne, result => .str (isOne result.getInt)
  | .str, result | .strFormatted _, result => .str result.getStr
  | .vector, result => .vector result.getVector
  | .map, result => .map result.getMap

def Ending.want : Ending → RespT
  | .int | .intNegated | .intIsOne => .int
  | .str | .strFormatted _ => .string
  | .vector => .vector
  | .map => .map

def Ending.formatted : Ending → Option ConfigdError → Option ConfigdError
  | .strFormatted operation, error => configdErrorFormatForCommitOrVal error (some operation)
  | _, error => error

def Ending.call (ending : Ending) (conn : Conn) (req : Request) (x : Exchange)
    (error : Option ConfigdError) : Done :=
  (getMember ending.want conn req x error).map fun (conn, result, error) =>
    (conn, (result.map ending.returns).getD ending.failure, ending.formatted error)

variable {utf8}

theorem Rpc.run_unpacked {rpc : Rpc} (unpacked : packArgs utf8 rpc.args = none) (conn : Conn)
    (x : Exchange) (error : Option ConfigdError) :
    rpc.run utf8 conn x error = .ok (conn, rpc.ending.failure, error) := by
  simp only [Rpc.run, unpacked]

theorem Rpc.run_packed {rpc : Rpc} {args : Json} (packed : packArgs utf8 rpc.args = some args)
    (conn : Conn) (x : Exchange) (error : Option ConfigdError) :
    rpc.run utf8 conn x error =
      rpc.ending.call conn ⟨rpc.fn, some args⟩ x (errorInit error rpc.source) := by
  rcases rpc with ⟨source, fn, arguments, ending⟩
  simp only at packed
  simp only [Rpc.run, packed]
  cases ending <;>
    simp only [getInt, getStr, getVector, getMap, Ending.call, Ending.want] <;>
    cases getMember _ conn ⟨fn, some args⟩ x (errorInit error source) with
    | error fault => rfl
    | ok called =>
      rcases called with ⟨conn, result, error⟩
      cases result <;> rfl

end Calls

theorem getMember_sessionId {want : RespT} {conn after : Conn} {req : Request} {x : Exchange}
    {error : Option ConfigdError} {ended : Ended} (called : getMember want conn req x error = .ok (after, ended)) :
    after.sessionId = conn.sessionId := by
  have kept : (sendRequest conn req x.delivery).1.sessionId = conn.sessionId := by
    unfold sendRequest
    cases req.args <;> rfl
  rw [← kept]
  unfold getMember at called
  cases sent : sendRequest conn req x.delivery with
  | mk conn' wire =>
    rw [sent] at called
    cases wire with
    | nothing => cases called; rfl
    | part | whole =>
      cases finish : finishCall want conn'.reqId x.garbage x.jresp error with
      | error fault => simp [finish, bind, Except.bind] at called
      | ok result =>
        simp only [finish, bind, Except.bind] at called
        cases called
        rfl

theorem Rpc.run_sessionId {utf8 : Bytes → Bool} {rpc : Rpc} {conn after : Conn} {x : Exchange}
    {error error' : Option ConfigdError} {ret : Ret}
    (called : rpc.run utf8 conn x error = .ok (after, ret, error')) : after.sessionId = conn.sessionId := by
  cases packed : packArgs utf8 rpc.args with
  | none =>
    rw [Rpc.run_unpacked packed] at called
    cases called
    rfl
  | some args =>
    rw [Rpc.run_packed packed, Ending.call] at called
    cases got : getMember rpc.ending.want conn ⟨rpc.fn, some args⟩ x (errorInit error rpc.source) with
    | error fault => simp [got, Except.map] at called
    | ok result =>
      rcases result with ⟨conn', ended⟩
      rw [got] at called
      cases called
      exact getMember_sessionId got

inductive Db where
  | auto
  | running
  | candidate
  | effective
  deriving DecidableEq, Repr

def Db.code : Db → BitVec 32
  | .auto => 0
  | .running => 1
  | .candidate => 2
  | .effective => 3

section Session

variable (conn : Conn)

def configdSessExists : Rpc :=
  ⟨str "configd_sess_exists", str "SessionExists", [.s conn.sessionId], .int⟩

def configdSessSetup : Rpc :=
  ⟨str "_configd_sess_setup", str "SessionSetup", [.s conn.sessionId], .intNegated⟩

def configdSessSetupShared : Rpc :=
  ⟨str "_configd_sess_setup", str "SessionSetupShared", [.s conn.sessionId], .intNegated⟩

def configdSessTeardown : Rpc :=
  ⟨str "configd_sess_teardown", str "SessionTeardown", [.s conn.sessionId], .intNegated⟩

def configdSessLock : Rpc :=
  ⟨str "configd_sess_lock", str "SessionLock", [.s conn.sessionId], .int⟩

def configdSessUnlock : Rpc :=
  ⟨str "configd_sess_unlock", str "SessionUnlock", [.s conn.sessionId], .int⟩

def configdSessLocked : Rpc :=
  ⟨str "configd_sess_locked", str "SessionLocked", [.s conn.sessionId], .int⟩

def configdSessChanged : Rpc :=
  ⟨str "configd_sess_changed", str "SessionChanged", [.s conn.sessionId], .int⟩

def configdSessSaved : Rpc :=
  ⟨str "configd_sess_saved", str "SessionSaved", [.s conn.sessionId], .int⟩

def configdSessMarkSaved : Rpc :=
  ⟨str "configd_sess_mark_saved", str "SessionMarkSaved", [.s conn.sessionId], .intNegated⟩

def configdSessMarkUnsaved : Rpc :=
  ⟨str "configd_sess_mark_unsaved", str "SessionMarkUnsaved", [.s conn.sessionId], .intNegated⟩

def configdGetHelp (fromSchema : Bool) (cpath : Bytes) : Rpc :=
  ⟨str "configd_get_help", str "GetHelp", [.s conn.sessionId, .b fromSchema, .s cpath], .map⟩

end Session

section Node

variable (conn : Conn) (db : Db) (cpath : Bytes)

def configdNodeExists : Rpc :=
  ⟨str "configd_node_exists", str "Exists", [.i db.code, .s conn.sessionId, .s cpath], .int⟩

def configdNodeIsDefault : Rpc :=
  ⟨str "configd_node_is_default", str "NodeIsDefault",
    [.i db.code, .s conn.sessionId, .s cpath], .int⟩

def configdNodeGet : Rpc :=
  ⟨str "configd_node_get", str "Get", [.i db.code, .s conn.sessionId, .s cpath], .vector⟩

def configdNodeGetStatus : Rpc :=
  ⟨str "configd_node_get_status", str "NodeGetStatus",
    [.i db.code, .s conn.sessionId, .s cpath], .int⟩

def configdNodeGetType : Rpc :=
  ⟨str "configd_node_get_type", str "NodeGetType", [.s conn.sessionId, .s cpath], .int⟩

def configdNodeGetComment : Rpc :=
  ⟨str "configd_node_get_comment", str "NodeGetComment",
    [.i db.code, .s conn.sessionId, .s cpath], .str⟩

def configdTreeGetFnEncoding (encoding getFn : Bytes) (defaults secrets : Bool) : Rpc :=
  ⟨str "configd_tree_get_fn_encoding", getFn,
    [.i db.code, .s conn.sessionId, .s cpath, .s encoding,
      .flags [(str "Defaults", defaults), (str "Secrets", secrets)]], .str⟩

def configdTreeGetEncodingFlags (encoding : Bytes) (defaults secrets : Bool) : Rpc :=
  configdTreeGetFnEncoding conn db cpath encoding (str "TreeGet") defaults secrets

def configdTreeGetEncoding (encoding : Bytes) : Rpc :=
  configdTreeGetFnEncoding conn db cpath encoding (str "TreeGet") true true

def configdTreeGet : Rpc := configdTreeGetEncoding conn db cpath (str "json")

def configdTreeGetXml : Rpc := configdTreeGetEncoding conn db cpath (str "xml")

def configdTreeGetInternal : Rpc := configdTreeGetEncoding conn db cpath (str "internal")

def configdTreeGetFullEncodingFlags (encoding : Bytes) (defaults secrets : Bool) : Rpc :=
  configdTreeGetFnEncoding conn db cpath encoding (str "TreeGetFull") defaults secrets

def configdTreeGetFullEncoding (encoding : Bytes) : Rpc :=
  configdTreeGetFnEncoding conn db cpath encoding (str "TreeGetFull") true true

def configdTreeGetFull : Rpc := configdTreeGetFullEncoding conn db cpath (str "json")

def configdTreeGetFullXml : Rpc := configdTreeGetFullEncoding conn db cpath (str "xml")

def configdTreeGetFullInternal : Rpc := configdTreeGetFullEncoding conn db cpath (str "internal")

end Node

section Template

def configdSchemaGet (module fmt : Bytes) : Rpc :=
  ⟨str "configd_schema_get", str "SchemaGet", [.s module, .s fmt], .str⟩

def configdGetSchemas : Rpc := ⟨str "configd_get_schemas", str "GetSchemas", [], .str⟩

def configdGetFeatures : Rpc := ⟨str "configd_get_features", str "GetFeatures", [], .map⟩

def configdTmplGet (cpath : Bytes) : Rpc :=
  ⟨str "configd_tmpl_get", str "TmplGet", [.s cpath], .map⟩

def configdTmplGetChildren (cpath : Bytes) : Rpc :=
  ⟨str "configd_tmpl_get_children", str "TmplGetChildren", [.s cpath], .vector⟩

def configdTmplGetAllowed (conn : Conn) (cpath : Bytes) : Rpc :=
  ⟨str "configd_tmpl_get_allowed", str "TmplGetAllowed", [.s conn.sessionId, .s cpath], .vector⟩

def configdTmplValidatePath (cpath : Bytes) : Rpc :=
  ⟨str "configd_tmpl_validate_path", str "TmplValidatePath", [.s cpath], .int⟩

def configdTmplValidateValues (cpath : Bytes) : Rpc :=
  ⟨str "configd_tmpl_validate_values", str "TmplValidateValues", [.s cpath], .int⟩

def configdFileRead (filename : Bytes) : Rpc :=
  ⟨str "configd_file_read", str "ReadConfigFile", [.s filename], .str⟩

def configdFileMigrate (filename : Bytes) : Rpc :=
  ⟨str "configd_file_migrate", str "MigrateConfigFile", [.s filename], .str⟩

def configdAuthGetperms : Rpc := ⟨str "configd_auth_getperms", str "AuthGetPerms", [], .map⟩

def configdAuthAuthorized (cpath : Bytes) (perm : BitVec 32) : Rpc :=
  ⟨str "configd_auth_authorized", str "AuthAuthorize", [.s cpath, .i perm], .int⟩

def callRpc (encoding ns name input : Bytes) : Rpc :=
  ⟨str "call_rpc", str "CallRpc", [.s ns, .s name, .s input, .s encoding], .str⟩

def configdCallRpc (ns name input : Bytes) : Rpc := callRpc (str "json") ns name input

def configdCallRpcXml (ns name input : Bytes) : Rpc := callRpc (str "xml") ns name input

end Template

section Transaction

variable (conn : Conn)

def configdSet (cpath : Bytes) : Rpc :=
  ⟨str "configd_set", str "Set", [.s conn.sessionId, .s cpath], .str⟩

def configdValidatePath (cpath : Bytes) : Rpc :=
  ⟨str "configd_validate_path", str "ValidatePath", [.s conn.sessionId, .s cpath], .str⟩

def configdDelete (cpath : Bytes) : Rpc :=
  ⟨str "configd_delete", str "Delete", [.s conn.sessionId, .s cpath], .intIsOne⟩

def configdComment (cpath : Bytes) : Rpc :=
  ⟨str "configd_comment", str "Comment", [.s conn.sessionId, .s cpath], .intIsOne⟩

def configdCommit (comment : Bytes) : Rpc :=
  ⟨str "configd_commit", str "Commit", [.s conn.sessionId, .s comment, .b false],
    .strFormatted (str "Commit")⟩

def configdConfirmedCommit (comment : Bytes) (confirmed : Bool)
    (timeout persist persistid : Bytes) : Rpc :=
  ⟨str "configd_confirmed_commit", str "ConfirmedCommit",
    [.s conn.sessionId, .s comment, .b confirmed, .s timeout, .s persist, .s persistid, .b false],
    .strFormatted (str "ConfirmedCommit")⟩

def configdCancelCommit (comment persistid : Bytes) : Rpc :=
  ⟨str "configd_cancel_commit", str "CancelCommit",
    [.s conn.sessionId, .s comment, .s persistid, .b false, .b false], .str⟩

def configdDiscard : Rpc := ⟨str "configd_discard", str "Discard", [.s conn.sessionId], .intIsOne⟩

def configdLoadInternal (file fnName : Bytes) : Rpc :=
  ⟨str "configd_load_internal", fnName, [.s conn.sessionId, .s file], .int⟩

def configdLoad (file : Bytes) : Rpc := configdLoadInternal conn file (str "Load")

def configdLoadReportWarnings (file : Bytes) : Rpc :=
  configdLoadInternal conn file (str "LoadReportWarnings")

def configdMerge (file : Bytes) : Rpc := configdLoadInternal conn file (str "MergeReportWarnings")

def configdValidate : Rpc :=
  ⟨str "configd_validate", str "Validate", [.s conn.sessionId], .strFormatted (str "Validate")⟩

def configdValidateConfig (encoding config : Bytes) : Rpc :=
  ⟨str "configd_validate_config", str "ValidateConfig",
    [.s conn.sessionId, .s encoding, .s config], .strFormatted (str "Validate")⟩

def configdEditConfigXml (target defaultOperation testOption errorOption config : Bytes) : Rpc :=
  ⟨str "configd_edit_config_xml", str "EditConfigXML",
    [.s conn.sessionId, .s target, .s defaultOperation, .s testOption, .s errorOption, .s config],
    .str⟩

def configdCopyConfig (sourceDatastore sourceEncoding sourceConfig sourceUrl targetDatastore
    targetUrl : Bytes) : Rpc :=
  ⟨str "configd_copy_config", str "CopyConfig",
    [.s conn.sessionId, .s sourceDatastore, .s sourceEncoding, .s sourceConfig, .s sourceUrl,
      .s targetDatastore, .s targetUrl], .str⟩

end Transaction

end VyattaCfg.Client
