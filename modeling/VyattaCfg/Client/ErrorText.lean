import VyattaCfg.Client.SilentReplies

namespace VyattaCfg.Client

open ByteString

section Exchanges

variable (conn : Conn) (x : Exchange)

def Exchange.Brings (resp : Response) : Prop :=
  ∃ j, x.reply conn = some j ∧ extractMembers x.garbage j = some resp

/-- The exchange brings several errors, and not all of them have a message. -/
def Exchange.Fatal : Prop :=
  ∃ list, x.Brings conn ⟨some .mgmterror, .mgmtErrs list⟩ ∧ 2 ≤ list.length ∧
    ∃ me ∈ list, me.message = none

variable {conn x} {ending : Ending}

theorem Exchange.brings_iff {resp : Response} : x.Brings conn resp ↔
    x.delivery.sent = true ∧ recvResponse (conn.reqId + 1) x.garbage x.jresp = some resp := by
  rw [recvResponse_eq_some_iff]
  cases sent : x.delivery.sent with
  | false => simp [Brings, reply, sent]
  | true => simp [Brings, reply, sent, and_assoc]

theorem Exchange.brings_unique {resp resp' : Response} (brings : x.Brings conn resp)
    (brings' : x.Brings conn resp') : resp = resp' := by
  rcases brings with ⟨j, replied, extracted⟩
  rcases brings' with ⟨j', replied', extracted'⟩
  obtain rfl : j = j' := Option.some.inj (replied.symm.trans replied')
  exact Option.some.inj (extracted.symm.trans extracted')

theorem Exchange.fatal_iff {resp : Response} (brings : x.Brings conn resp) (type : resp.type = some .mgmterror)
    (e : ConfigdError) :
    x.Fatal conn ↔ ∃ fault, errorSetFromMgmtErrorList (some e) resp.result.getMgmtErrs = .error fault := by
  rw [errorSetFromMgmtErrorList_error_iff]
  rcases resp with ⟨_, result⟩
  subst type
  constructor
  · intro held
    rcases held with ⟨list, bringsList, several⟩
    have same := Exchange.brings_unique brings bringsList
    cases same
    exact several
  · intro several
    cases result with
    | mgmtErrs list => exact ⟨list, brings, several⟩
    | _ => exact absurd several.1 (by simp [Result.getMgmtErrs])

theorem Exchange.not_fatal {resp : Response} (brings : x.Brings conn resp) (type : resp.type ≠ some .mgmterror) :
    ¬ x.Fatal conn := by
  intro held
  rcases held with ⟨list, bringsList, -⟩
  rw [Exchange.brings_unique brings bringsList] at type
  exact type rfl

def Ending.Fails (ending : Ending) (conn : Conn) (done : Done) : Prop :=
  ∃ error : Option ConfigdError, error.isSome ∧
    done = .ok ({ conn with reqId := conn.reqId + 1 }, ending.failure, error)

theorem call_unanswered (nothing : ∀ resp, ¬ x.Brings conn resp) (fn : Bytes) (args : Json) (e : ConfigdError) :
    ending.Fails conn (ending.call conn ⟨fn, some args⟩ x (some e)) := by
  cases sent : x.delivery.sent with
  | false =>
    refine ⟨_, ?_, call_unsent sent conn fn args _⟩
    rw [Ending.formatted_isSome]
    rfl
  | true =>
    cases received : recvResponse (conn.reqId + 1) x.garbage x.jresp with
    | none =>
      rw [call_sent sent, finishCall, received]
      refine ⟨_, ?_, rfl⟩
      rw [Ending.formatted_isSome]
      rfl
    | some resp => exact absurd (Exchange.brings_iff.mpr ⟨sent, received⟩) (nothing resp)

theorem call_answered {resp : Response} (brings : x.Brings conn resp) (fn : Bytes) (args : Json)
    (e : ConfigdError) :
    (resp.type = some ending.want ∧ ending.call conn ⟨fn, some args⟩ x (some e) =
      .ok ({ conn with reqId := conn.reqId + 1 }, ending.returns resp.result, ending.formatted (some e))) ∨
    (x.Fatal conn ∧ ∃ fault, ending.call conn ⟨fn, some args⟩ x (some e) = .error fault) ∨
    (resp.type ≠ some ending.want ∧ ¬ x.Fatal conn ∧
      ending.Fails conn (ending.call conn ⟨fn, some args⟩ x (some e))) := by
  obtain ⟨sent, received⟩ := Exchange.brings_iff.mp brings
  rw [call_sent sent, finishCall, received]
  by_cases wanted : resp.type = some ending.want
  · simp only [if_pos wanted]
    exact .inl ⟨wanted, rfl⟩
  · simp only [if_neg wanted]
    right
    split
    · rename_i type
      refine .inr ⟨wanted, Exchange.not_fatal brings (by simp [type]), _, ?_, rfl⟩
      rw [Ending.formatted_isSome]
      rfl
    · rename_i type
      have fatal := Exchange.fatal_iff brings type e
      cases ended : errorSetFromMgmtErrorList (some e) resp.result.getMgmtErrs with
      | error fault => exact .inl ⟨fatal.mpr ⟨fault, ended⟩, fault, rfl⟩
      | ok error =>
        right
        refine ⟨wanted, ?_, _, ?_, rfl⟩
        · rw [fatal, ended]
          intro held
          rcases held with ⟨fault, same⟩
          cases same
        · rw [Ending.formatted_isSome]
          exact errorSetFromMgmtErrorList_isSome ended
    · rename_i notMgmterror
      refine .inr ⟨wanted, Exchange.not_fatal brings notMgmterror, _, ?_, rfl⟩
      rw [Ending.formatted_isSome]
      rfl

/-- What a function that makes one request can do once its arguments are packed: return the
    result it wants, die of a list of errors, or fail. -/
theorem Rpc.run_cases {utf8 : Bytes → Bool} {rpc : Rpc} {args : Json} (packed : packArgs utf8 rpc.args = some args)
    (conn : Conn) (x : Exchange) (e : ConfigdError) :
    (∃ resp, x.Brings conn resp ∧ resp.type = some rpc.ending.want ∧ rpc.run utf8 conn x (some e) =
      .ok ({ conn with reqId := conn.reqId + 1 }, rpc.ending.returns resp.result,
        some { source := some rpc.source })) ∨
    (x.Fatal conn ∧ ∃ fault, rpc.run utf8 conn x (some e) = .error fault) ∨
    ((∀ resp, x.Brings conn resp → resp.type ≠ some rpc.ending.want) ∧ ¬ x.Fatal conn ∧
      rpc.ending.Fails conn (rpc.run utf8 conn x (some e))) := by
  rw [Rpc.run_packed packed, errorInit_some]
  by_cases nothing : ∀ resp, ¬ x.Brings conn resp
  · refine .inr (.inr ⟨fun resp brings => absurd brings (nothing resp), ?_, call_unanswered nothing _ args _⟩)
    intro held
    rcases held with ⟨list, brings, -⟩
    exact nothing _ brings
  · push Not at nothing
    rcases nothing with ⟨resp, brings⟩
    rcases call_answered brings rpc.fn args { source := some rpc.source } with
      ⟨wanted, done⟩ | died | ⟨unwanted, safe, failed⟩
    · rw [Ending.formatted_plain rfl] at done
      exact .inl ⟨resp, brings, wanted, done⟩
    · exact .inr (.inl died)
    · refine .inr (.inr ⟨?_, safe, failed⟩)
      intro resp' brings'
      rwa [Exchange.brings_unique brings' brings]

/-- What the error was before is gone once the arguments are packed. -/
theorem Rpc.run_fresh {utf8 : Bytes → Bool} {rpc : Rpc} {args : Json} (packed : packArgs utf8 rpc.args = some args)
    (conn : Conn) (x : Exchange) (e : ConfigdError) :
    rpc.run utf8 conn x (some e) = rpc.run utf8 conn x (some {}) := by
  rw [Rpc.run_packed packed, Rpc.run_packed packed, errorInit_some, errorInit_some]

end Exchanges

section Edit

variable (utf8 : Bytes → Bool) (conn : Conn) (cpath : Bytes)

/-- The path is not found to exist, and the request to set it fails without a text. -/
def EditPathSilent (y z : Exchange) : Prop :=
  let next : Conn := { conn with reqId := conn.reqId + 1 }
  (utf8 conn.sessionId → ¬ y.Brings conn ⟨some .int, .intVal 1⟩ ∧ ¬ y.Fatal conn) ∧
    (configdSet conn cpath).Silent utf8 next z

/-- `edit` fails without a text where its template does, and at a level to edit where the path
    is neither found nor set. -/
def EditSilent (x y z : Exchange) : Prop :=
  let next : Conn := { conn with reqId := conn.reqId + 1 }
  (configdTmplGet cpath).Silent utf8 conn x ∨
    ∃ m, x.Brings conn ⟨some .map, .map m⟩ ∧ (isTagValue m ∨ isTypeless m) ∧ EditPathSilent utf8 next cpath y z

variable {utf8 conn cpath}

theorem packArgs_set (packed : utf8 conn.sessionId = true ∧ utf8 cpath = true) :
    packArgs utf8 (configdSet conn cpath).args = some (.array [.string conn.sessionId, .string cpath]) := by
  simp [packArgs, configdSet, Arg.json, packed.1, packed.2]

theorem packArgs_nodeExists (db : Db) (packed : utf8 conn.sessionId = true ∧ utf8 cpath = true) :
    packArgs utf8 (configdNodeExists conn db cpath).args =
      some (.array [.integer (db.code.signExtend 64), .string conn.sessionId, .string cpath]) := by
  simp [packArgs, configdNodeExists, Arg.json, packed.1, packed.2]

theorem editMissing_of_done {z : Exchange} {error error' : Option ConfigdError} {after : Conn}
    {value : Option Bytes}
    (done : (configdSet conn cpath).run utf8 conn z error = .ok (after, .str value, error')) :
    editMissing utf8 conn cpath z error = .ok (after, .str (value.map fun _ => editEnv cpath), error') := by
  simp only [editMissing, done, bind, Except.bind]
  cases value <;> rfl

theorem fills_editMissing_iff (conn : Conn) (packed : utf8 conn.sessionId = true ∧ utf8 cpath = true)
    (z : Exchange) (e : ConfigdError) :
    Fills (editMissing utf8 conn cpath z (some e)) ↔ ¬ (configdSet conn cpath).Silent utf8 conn z := by
  have fresh := Rpc.run_fresh (packArgs_set packed) conn z e
  rw [← fills_run_iff utf8 conn (configdSet conn cpath) z none]
  rcases Rpc.run_cases (packArgs_set packed) conn z {} with
    ⟨resp, -, -, done⟩ | ⟨-, fault, died⟩ | ⟨-, -, error, kept, failed⟩
  · rw [editMissing_of_done (fresh.trans done), done]
    exact fills_str_map _ _ _ _
  · have dies : editMissing utf8 conn cpath z (some e) = .error fault := by
      rw [editMissing, fresh, died]
      rfl
    rw [dies, died]
  · rw [editMissing_of_done (fresh.trans failed), failed]
    exact fills_str_map _ none _ _

theorem fills_editPath_iff (plain : utf8 cpath = true) (y z : Exchange) (source : Option Bytes) :
    Fills (editPath utf8 conn cpath y z (some { source })) ↔ ¬ EditPathSilent utf8 conn cpath y z := by
  cases session : utf8 conn.sessionId with
  | false =>
    have unpacked : packArgs utf8 (configdNodeExists conn .auto cpath).args = none := by
      simp [packArgs, configdNodeExists, Arg.json, session]
    have unset : packArgs utf8 (configdSet conn cpath).args = none := by
      simp [packArgs, configdSet, Arg.json, session]
    have silent : EditPathSilent utf8 conn cpath y z := ⟨by simp [session], .inl unset⟩
    have done : editPath utf8 conn cpath y z (some { source }) = .ok (conn, .str none, some { source }) := by
      rw [editPath, Rpc.run_unpacked unpacked]
      exact editMissing_of_done (Rpc.run_unpacked unset _ z _)
    rw [done, fills_ok_iff]
    simp [silent, Ret.Failed]
  | true =>
    have packed : utf8 conn.sessionId = true ∧ utf8 cpath = true := ⟨session, plain⟩
    rcases Rpc.run_cases (packArgs_nodeExists .auto packed) conn y { source } with
      ⟨⟨type, result⟩, brings, wanted, done⟩ | ⟨fatal, fault, died⟩ | ⟨unwanted, safe, error, kept, failed⟩
    · obtain rfl : type = some .int := wanted
      have safe : ¬ y.Fatal conn := Exchange.not_fatal brings (by simp)
      by_cases found : result.getInt = 1
      · obtain rfl : result = .intVal 1 := Result.eq_intVal_one found
        have spoken : ¬ EditPathSilent utf8 conn cpath y z := fun silent => (silent.1 session).1 brings
        have returned : Fills (editPath utf8 conn cpath y z (some { source })) := by
          rw [editPath, done]
          exact fills_returned (Ret.str_not_failed _) _ _
        simp only [spoken, returned, not_false_iff]
      · have missing : ¬ y.Brings conn ⟨some .int, .intVal 1⟩ := by
          intro brings'
          cases Exchange.brings_unique brings brings'
          exact found rfl
        have set := fills_editMissing_iff { conn with reqId := conn.reqId + 1 } packed z
          { source := some (configdNodeExists conn .auto cpath).source }
        have continued : editPath utf8 conn cpath y z (some { source }) =
            editMissing utf8 { conn with reqId := conn.reqId + 1 } cpath z
              (some { source := some (configdNodeExists conn .auto cpath).source }) := by
          rw [editPath, done]
          exact if_neg found
        rw [continued, set]
        simp only [EditPathSilent, missing, safe, not_false_iff, and_self, implies_true, true_and]
        rfl
    · have survives : ¬ EditPathSilent utf8 conn cpath y z := fun silent => (silent.1 session).2 fatal
      simp only [survives, not_false_iff, iff_true, editPath, died]
      exact fills_error fault
    · obtain ⟨e, rfl⟩ := Option.isSome_iff_exists.mp kept
      have missing : ¬ y.Brings conn ⟨some .int, .intVal 1⟩ := fun brings => unwanted _ brings rfl
      have set := fills_editMissing_iff { conn with reqId := conn.reqId + 1 } packed z e
      simp only [EditPathSilent, missing, safe, not_false_iff, and_self, implies_true, true_and, editPath, failed]
      exact set

theorem editGetEnv_of_no_template {x : Exchange} {error error' : Option ConfigdError} {after : Conn} {ret : Ret}
    (done : (configdTmplGet cpath).run utf8 conn x error = .ok (after, ret, error')) (absent : ret.getMap = none)
    (y z : Exchange) : configdEditGetEnv utf8 conn cpath x y z error = .ok (after, .str none, error') := by
  simp only [configdEditGetEnv, done, bind, Except.bind, absent]

theorem editGetEnv_of_template {x : Exchange} {error error' : Option ConfigdError} {after : Conn}
    {m : Envz.Vector} (done : (configdTmplGet cpath).run utf8 conn x error = .ok (after, .map (some m), error'))
    (y z : Exchange) :
    configdEditGetEnv utf8 conn cpath x y z error =
      if !isTagValue m && !isTypeless m then
        .ok (after, .str none, errorSetf (errorInit error' (str "configd_edit_get_env"))
          (str "The \"edit\" command cannot be issued at the specified level\n"))
      else editPath utf8 after cpath y z (errorInit error' (str "configd_edit_get_env")) := by
  simp only [configdEditGetEnv, done, bind, Except.bind, Ret.getMap]

/-- With a template the level decides, and at a level to edit what the path and its setting bring. -/
theorem fills_editGetEnv_of_template {x : Exchange} {m : Envz.Vector} {source : Option Bytes}
    (plain : utf8 cpath = true) (brings : x.Brings conn ⟨some .map, .map m⟩)
    (done : (configdTmplGet cpath).run utf8 conn x (some {}) =
      .ok ({ conn with reqId := conn.reqId + 1 }, .map (some m), some { source })) (y z : Exchange) :
    Fills (configdEditGetEnv utf8 conn cpath x y z (some {})) ↔ ¬ EditSilent utf8 conn cpath x y z := by
  have spoken : ¬ (configdTmplGet cpath).Silent utf8 conn x := by
    rw [← fills_run_iff utf8 conn (configdTmplGet cpath) x none, done]
    exact fills_returned (Ret.map_not_failed m) _ _
  have same : ∀ m', x.Brings conn ⟨some .map, .map m'⟩ ↔ m' = m := by
    intro m'
    constructor
    · intro brings'
      cases Exchange.brings_unique brings brings'
      rfl
    · intro given
      subst given
      exact brings
  have silent : EditSilent utf8 conn cpath x y z ↔ (isTagValue m = true ∨ isTypeless m = true) ∧
      EditPathSilent utf8 { conn with reqId := conn.reqId + 1 } cpath y z := by
    simp only [EditSilent, spoken, same, false_or, exists_eq_left]
  rw [editGetEnv_of_template done, silent]
  by_cases level : isTagValue m = true ∨ isTypeless m = true
  · have editable : ¬ (!isTagValue m && !isTypeless m) = true := by
      rcases level with level | level <;> simp [level]
    rw [if_neg editable]
    simp only [level, true_and]
    exact fills_editPath_iff plain y z _
  · have refused : (!isTagValue m && !isTypeless m) = true := by simpa using level
    rw [if_pos refused]
    simp only [level, false_and, not_false_iff, iff_true]
    exact fills_ok_iff.mpr fun _ => Option.some_ne_none _

theorem fills_editGetEnv_iff (x y z : Exchange) :
    Fills (configdEditGetEnv utf8 conn cpath x y z (some {})) ↔ ¬ EditSilent utf8 conn cpath x y z := by
  have first := fills_run_iff utf8 conn (configdTmplGet cpath) x none
  cases plain : utf8 cpath with
  | false =>
    have unpacked : packArgs utf8 (configdTmplGet cpath).args = none := by
      simp [packArgs, configdTmplGet, Arg.json, plain]
    have silent : EditSilent utf8 conn cpath x y z := .inl (.inl unpacked)
    rw [editGetEnv_of_no_template (Rpc.run_unpacked unpacked _ x _) rfl, fills_ok_iff]
    simp [silent, Ret.Failed]
  | true =>
    have packed : packArgs utf8 (configdTmplGet cpath).args = some (.array [.string cpath]) := by
      simp [packArgs, configdTmplGet, Arg.json, plain]
    -- where no template comes, `edit` returns what the first request has left
    have only : (∀ m, ¬ x.Brings conn ⟨some .map, .map m⟩) →
        (EditSilent utf8 conn cpath x y z ↔ (configdTmplGet cpath).Silent utf8 conn x) := by
      intro nothing
      simp only [EditSilent, nothing, false_and, exists_false, or_false]
    rcases Rpc.run_cases packed conn x {} with
      ⟨⟨type, result⟩, brings, wanted, done⟩ | ⟨fatal, fault, died⟩ | ⟨unwanted, safe, error, kept, failed⟩
    · obtain rfl : type = some .map := wanted
      rw [done] at first
      cases decoded : result.getMap with
      | none =>
        have nothing : ∀ m, ¬ x.Brings conn ⟨some .map, .map m⟩ := by
          intro m brings'
          cases Exchange.brings_unique brings brings'
          cases decoded
        have failed : (Ret.map result.getMap).Failed := decoded
        have told := (fills_failure_iff failed _ _).symm.trans first
        rw [editGetEnv_of_no_template done decoded, only nothing, ← told]
        exact fills_failure_iff Ret.str_failed _ _
      | some m =>
        obtain rfl : result = .map m := Result.eq_map decoded
        exact fills_editGetEnv_of_template plain brings done y z
    · have nothing : ∀ m, ¬ x.Brings conn ⟨some .map, .map m⟩ := by
        intro m brings
        exact Exchange.not_fatal brings (by simp) fatal
      have dies : configdEditGetEnv utf8 conn cpath x y z (some {}) = .error fault := by
        rw [configdEditGetEnv, died]
        rfl
      rw [dies, only nothing, ← first, died]
    · have nothing : ∀ m, ¬ x.Brings conn ⟨some .map, .map m⟩ := fun m brings => unwanted _ brings rfl
      rw [failed, fills_failure_iff Ending.failure_failed] at first
      rw [editGetEnv_of_no_template failed rfl, only nothing, ← first]
      exact fills_failure_iff Ret.str_failed _ _

end Edit

section Failures

variable (uri : UriParser) (utf8 : Bytes → Bool) (conn : Conn)

def Request.Silent (req : Request) (ending : Ending) (x : Exchange) : Prop :=
  req.args.isSome ∧ ∃ j, x.reply conn = some j ∧ j.SilentFor ending x.garbage

def PathsSilent (source fn cpath : Bytes) (x : Exchange) : Prop :=
  (Argz.createSep cpath slash).length < 3 ∨
    ∃ paths, makePaths cpath = some paths ∧ (pathsRequest conn source fn paths).Silent utf8 conn x

/-- No completion is found; with a lone command the process dies. -/
def CompletionSilent (configd : Configd) (cpath : Bytes) : Prop :=
  match Argz.createSep cpath slash with
  | [] => True
  | [_] => False
  | cmd :: comp :: comps =>
    NoCompletion uri configd cmd
      ((comp :: comps).dropLast.foldl (fun (path : Cpath) comp => path.push (urlUnescape uri comp)) [])
      ((comp :: comps).getLast (List.cons_ne_nil comp comps))

/-- The calls that fail and leave the error without a text. -/
def Call.Silent : Call → Prop
  | .getInt req x => req.Silent conn .int x
  | .getStr req x => req.Silent conn .str x
  | .getVector req x => req.Silent conn .vector x
  | .getMap req x => req.Silent conn .map x
  | .request rpc x => rpc.Silent utf8 conn x
  | .showConfig db cpath cfg1 cfg2 flags x =>
    cfg1 = none ∨ cfg2 = none ∨ (showRequest conn db cpath flags).Silent utf8 conn x
  | .rename cpath x => PathsSilent utf8 conn (str "configd_rename") (str "Rename") cpath x
  | .copy cpath x => PathsSilent utf8 conn (str "configd_copy") (str "Copy") cpath x
  | .save args x => (∀ s ∈ args, s = []) ∧ saveRequest.Silent utf8 conn x
  | .editGetEnv cpath x y z => EditSilent utf8 conn cpath x y z
  | .nodeGetCompleteEnv cpath configd => ∀ path ∈ cpath, CompletionSilent uri configd path

variable {uri utf8 conn}

theorem run_get (uri : UriParser) (utf8 : Bytes → Bool) (req : Request) (x : Exchange)
    (error : Option ConfigdError) :
    (Call.getInt req x).run uri utf8 conn error = Ending.int.call conn req x error ∧
      (Call.getStr req x).run uri utf8 conn error = Ending.str.call conn req x error ∧
      (Call.getVector req x).run uri utf8 conn error = Ending.vector.call conn req x error ∧
      (Call.getMap req x).run uri utf8 conn error = Ending.map.call conn req x error := by
  refine ⟨?_, ?_, ?_, ?_⟩ <;>
    simp only [Call.run, getInt, getStr, getVector, getMap, Ending.call, Ending.want] <;>
    cases getMember _ conn req x error with
    | error fault => rfl
    | ok called =>
      rcases called with ⟨after, result, error⟩
      cases result <;> rfl

theorem fills_withPaths_iff (source fn cpath : Bytes) (x : Exchange) :
    Fills (withPaths utf8 conn source fn cpath x (some {})) ↔ ¬ PathsSilent utf8 conn source fn cpath x := by
  unfold withPaths PathsSilent
  rw [← makePaths_eq_none_iff]
  cases makePaths cpath with
  | none => simp [fills_ok_iff, Ret.Failed]
  | some paths => simp [fills_run_iff utf8 conn (pathsRequest conn source fn paths) x none]

theorem fills_show_iff (db : Db) (cpath cfg1 cfg2 : Option Bytes) (flags : BitVec 32) (x : Exchange) :
    Fills (configdShow utf8 conn db cpath cfg1 cfg2 flags x (some {})) ↔
      ¬ (cfg1 = none ∨ cfg2 = none ∨ (showRequest conn db cpath flags).Silent utf8 conn x) := by
  have request := fills_run_iff utf8 conn (showRequest conn db cpath flags) x none
  simp only [configdShow]
  split_ifs with missing
  · have absent : cfg1 = none ∨ cfg2 = none := by simpa using missing
    rw [fills_ok_iff, ← or_assoc]
    simp [absent, Ret.Failed]
  · have present : ¬ (cfg1 = none ∨ cfg2 = none) := by simpa using missing
    rw [request, ← or_assoc]
    simp only [present, false_or]

theorem fills_save_iff (args : Option Bytes) (x : Exchange) :
    Fills (configdSave utf8 conn args x (some {})) ↔
      ¬ ((∀ s ∈ args, s = []) ∧ saveRequest.Silent utf8 conn x) := by
  have request := fills_run_iff utf8 conn saveRequest x none
  simp only [configdSave]
  split_ifs with given
  · have told : ¬ ∀ s ∈ args, s = [] := by
      cases args with
      | none => cases given
      | some s =>
        have filled := (Argz.createSep_eq_nil_iff s (ch ' ')).not.mp ((Argz.len_pos_iff _).mp given)
        simpa using filled
    simp only [told, false_and, not_false_iff, iff_true]
    exact fills_ok_iff.mpr fun _ => Option.some_ne_none _
  · have absent : ∀ s ∈ args, s = [] := by
      intro s same
      subst same
      rw [← Argz.createSep_eq_nil_iff s (ch ' ')]
      by_contra filled
      exact given ((Argz.len_pos_iff _).mpr filled)
    rw [request, and_iff_right absent]

theorem fills_completeEnv_iff (configd : Configd) (cpath : Option Bytes) :
    Fills (configdNodeGetCompleteEnv conn uri configd cpath (some {})) ↔
      ¬ ∀ path ∈ cpath, CompletionSilent uri configd path := by
  have untold : ∀ env : Option Bytes, Fills (.ok (conn, .str env, some {})) ↔ ¬ env = none := by
    intro env
    rw [fills_ok_iff]
    simp [Ret.Failed]
  cases cpath with
  | none =>
    rw [configdNodeGetCompleteEnv, untold]
    simp
  | some path =>
    simp only [configdNodeGetCompleteEnv, getCompletionEnv, CompletionSilent, Option.mem_some_iff, forall_eq']
    cases Argz.createSep path slash with
    | nil => exact iff_of_false (fun fills => (untold none).mp fills rfl) (fun spoken => spoken trivial)
    | cons cmd rest =>
      cases rest with
      | nil => exact iff_of_true (fills_error _) not_false
      | cons comp comps => exact (untold _).trans (not_congr (completionEnv_eq_none_iff cmd _ _))

/-- The client functions fail with a text except in these cases. -/
theorem call_fills_iff (uri : UriParser) (utf8 : Bytes → Bool) (conn : Conn) (call : Call) :
    Fills (call.run uri utf8 conn (some {})) ↔ ¬ call.Silent uri utf8 conn := by
  cases call with
  | getInt req x =>
    rw [(run_get uri utf8 req x _).1]
    exact fills_call_iff conn req x none
  | getStr req x =>
    rw [(run_get uri utf8 req x _).2.1]
    exact fills_call_iff conn req x none
  | getVector req x =>
    rw [(run_get uri utf8 req x _).2.2.1]
    exact fills_call_iff conn req x none
  | getMap req x =>
    rw [(run_get uri utf8 req x _).2.2.2]
    exact fills_call_iff conn req x none
  | request rpc x => exact fills_run_iff utf8 conn rpc x none
  | showConfig db cpath cfg1 cfg2 flags x => exact fills_show_iff db cpath cfg1 cfg2 flags x
  | rename cpath x => exact fills_withPaths_iff _ _ cpath x
  | copy cpath x => exact fills_withPaths_iff _ _ cpath x
  | save args x => exact fills_save_iff args x
  | editGetEnv cpath x y z => exact fills_editGetEnv_iff x y z
  | nodeGetCompleteEnv cpath configd => exact fills_completeEnv_iff configd cpath

/-- `configd_delete` of a server that answers false: NULL and an error without a text. -/
theorem delete_false_has_no_text : ¬ ∀ (uri : UriParser) (utf8 : Bytes → Bool) (conn : Conn) (call : Call),
    Fills (call.run uri utf8 conn (some {})) := by
  intro fills
  let conn : Conn := ⟨str "1", 0⟩
  let reply : Json := .object [(str "result", .bool false), (str "id", .integer 1)]
  have filled := fills uriparser (fun _ => true) conn
    (.request (configdDelete conn (str "/system")) ⟨.written, none, some reply⟩)
  exact filled ⟨str "1", 1⟩ (.str none) { source := some (str "configd_delete") } rfl rfl rfl

end Failures

end VyattaCfg.Client
