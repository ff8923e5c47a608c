import VyattaCfg.Client.Calls

namespace VyattaCfg.Client

open ByteString

/-- Where the function returns and reports failure, the error has a text. -/
def Fills (done : Done) : Prop := ∀ conn ret e, done = .ok (conn, ret, some e) → ret.Failed → e.text ≠ none

def Delivery.sent : Delivery → Bool
  | .packFails | .dumpFails | .writeFails => false
  | .cutShort | .written => true

/-- The reply that an exchange accepts: it is read to its end and passes the check of the id of
    the request. -/
def Exchange.reply (conn : Conn) (x : Exchange) : Option Json :=
  if x.delivery.sent then x.jresp.filter (passesId (conn.reqId + 1)) else none

section Replies

variable (ending : Ending)

/-- The integers that the function returns as its failure. -/
def Ending.Refuses (value : BitVec 32) : Prop :=
  match ending with
  | .int | .intNegated => value = -1
  | .intIsOne => value ≠ 1
  | .str | .strFormatted _ | .vector | .map => True

def Ending.Unformatted : Prop := ∀ operation, ending ≠ .strFormatted operation

/-- Nothing in the reply gives the response a type, and the type that its memory holds is none
    that makes a text. -/
def Ending.Untyped (garbage : Option RespT) : Prop :=
  garbage ≠ some .error ∧ garbage ≠ some .mgmterror ∧ (garbage = some .int → ending.Refuses 0)

/-- The result of a reply fails the function: it is of another type or a refusal. -/
def Ending.Rejects (garbage : Option RespT) : Json → Prop
  | .bool value => ending.Refuses (boolInt value)
  | .integer value => ending.Refuses (value.setWidth 32)
  | .string _ => ending.want ≠ .string
  | .array items => ending.want ≠ .vector ∧ (jarrayToVector (.array items)).isSome
  | .object members => ending.want ≠ .map ∧ (jobjToMap (.object members) true).isSome
  | _ => ending.Untyped garbage

/-- The one error of the list has no message. -/
def Json.Unworded (jlist : Json) : Prop :=
  ∃ jerr me, jlist.objectGet (str "error-list") = some (.array [jerr]) ∧
    extractMgmtError jerr = some me ∧ me.message = none

/-- The replies that fail the function and leave the error without a text. -/
def Json.SilentFor (garbage : Option RespT) (j : Json) : Prop :=
  if containsNonNullEntryFor j (str "result") then
    ∃ jresult, j.objectGet (str "result") = some jresult ∧ ending.Rejects garbage jresult
  else if containsNonNullEntryFor j (str "error") then False
  else if containsNonNullEntryFor j (str "mgmterrorlist") then
    ending.Unformatted ∧ ∃ jlist, j.objectGet (str "mgmterrorlist") = some jlist ∧ jlist.Unworded
  else ending.Untyped garbage

def Response.SilentFor (resp : Response) : Prop :=
  match resp.type with
  | some .error => False
  | some .mgmterror => ending.Unformatted ∧ ∃ me, resp.result.getMgmtErrs = [me] ∧ me.message = none
  | type => type = some ending.want → (ending.returns resp.result).Failed

variable {ending}

theorem Ending.failure_failed : ending.failure.Failed := by cases ending <;> rfl

theorem Ending.want_ne_error : ending.want ≠ .error := by cases ending <;> exact nofun

theorem Ending.want_ne_mgmterror : ending.want ≠ .mgmterror := by cases ending <;> exact nofun

theorem Ending.formatted_plain {e : ConfigdError} (plain : e.isMgmtError = false) :
    ending.formatted (some e) = some e := by
  cases ending with
  | strFormatted operation =>
    rw [formatted, configdErrorFormatForCommitOrVal, Option.bind_eq_bind, Option.bind_some, plain]
    rfl
  | _ => rfl

theorem Ending.formatted_unformatted (unformatted : ending.Unformatted) (error : Option ConfigdError) :
    ending.formatted error = error := by
  cases ending with
  | strFormatted operation => exact absurd rfl (unformatted operation)
  | _ => rfl

theorem Ending.formatted_isSome (error : Option ConfigdError) : (ending.formatted error).isSome = error.isSome := by
  cases error with
  | none => cases ending <;> rfl
  | some e =>
    cases ending with
    | strFormatted operation =>
      rw [formatted, configdErrorFormatForCommitOrVal, Option.bind_eq_bind, Option.bind_some]
      split_ifs <;> rfl
    | _ => rfl

theorem Ending.formatted_text (ending : Ending) {e : ConfigdError} (told : e.text ≠ none) :
    ∃ e', ending.formatted (some e) = some e' ∧ e'.text ≠ none := by
  cases ending with
  | strFormatted operation => exact configdErrorFormatForCommitOrVal_text _ (.inl told)
  | _ => exact ⟨e, rfl, told⟩

theorem Ending.formatted_list {e : ConfigdError} (commit : ¬ ending.Unformatted) (mgmt : e.isMgmtError = true)
    (filled : e.mgmtErrs ≠ []) : ∃ e', ending.formatted (some e) = some e' ∧ e'.text ≠ none := by
  cases ending with
  | strFormatted operation => exact configdErrorFormatForCommitOrVal_text _ (.inr ⟨mgmt, filled⟩)
  | _ => exact absurd nofun commit

theorem Response.silentFor_wanted {resp : Response} (wanted : resp.type = some ending.want) :
    resp.SilentFor ending ↔ (ending.returns resp.result).Failed := by
  unfold SilentFor
  split
  · rename_i type
    exact absurd (Option.some.inj (wanted.symm.trans type)) Ending.want_ne_error
  · rename_i type
    exact absurd (Option.some.inj (wanted.symm.trans type)) Ending.want_ne_mgmterror
  · simp [wanted]

theorem Response.silentFor_mgmterror {resp : Response} (type : resp.type = some .mgmterror) :
    resp.SilentFor ending ↔
      ending.Unformatted ∧ ∃ me, resp.result.getMgmtErrs = [me] ∧ me.message = none := by
  simp [SilentFor, type]

theorem Response.silentFor_unwanted {resp : Response} (notError : resp.type ≠ some .error)
    (notMgmterror : resp.type ≠ some .mgmterror) (unwanted : resp.type ≠ some ending.want) :
    resp.SilentFor ending := by
  unfold SilentFor
  split
  · rename_i type
    exact absurd type notError
  · rename_i type
    exact absurd type notMgmterror
  · intro wants
    exact absurd wants unwanted

theorem Ret.str_failed : (Ret.str none).Failed := rfl

theorem Ret.str_not_failed (value : Bytes) : ¬ (Ret.str (some value)).Failed := Option.some_ne_none value

theorem Ret.map_not_failed (value : Envz.Vector) : ¬ (Ret.map (some value)).Failed := Option.some_ne_none value

theorem fills_ok_iff {conn : Conn} {ret : Ret} {e : ConfigdError} :
    Fills (.ok (conn, ret, some e)) ↔ (ret.Failed → e.text ≠ none) := by
  constructor
  · intro fills
    exact fills conn ret e rfl
  · intro told conn' ret' e' same
    cases same
    exact told

theorem fills_failure_iff {ret : Ret} (failed : ret.Failed) (conn : Conn) (error : Option ConfigdError) :
    Fills (.ok (conn, ret, error)) ↔ ∀ e, error = some e → e.text ≠ none := by
  constructor
  · intro fills e given
    subst given
    exact fills conn ret e rfl failed
  · intro told conn' ret' e same _
    cases same
    exact told e rfl

theorem fills_returned {ret : Ret} (returned : ¬ ret.Failed) (conn : Conn) (error : Option ConfigdError) :
    Fills (.ok (conn, ret, error)) := by
  intro conn' ret' e same failed
  cases same
  exact absurd failed returned

theorem fills_str_map (conn : Conn) (value : Option Bytes) (f : Bytes → Bytes) (error : Option ConfigdError) :
    Fills (.ok (conn, .str (value.map f), error)) ↔ Fills (.ok (conn, .str value, error)) := by
  cases value with
  | none => rfl
  | some value =>
    have returned : ∀ text : Bytes, Fills (.ok (conn, .str (some text), error)) :=
      fun text => fills_returned (Ret.str_not_failed text) conn error
    simp only [Option.map_some, returned]

theorem fills_error (fault : Fault) : Fills (.error fault) := by
  intro conn ret e same
  cases same

theorem fills_formatted (conn : Conn) (ret : Ret) {e e' : ConfigdError}
    (formatted : ending.formatted (some e) = some e') (told : e'.text ≠ none) :
    Fills (.ok (conn, ret, ending.formatted (some e))) := by
  rw [formatted, fills_ok_iff]
  exact fun _ => told

theorem fills_mgmterror_iff (ending : Ending) (list : List MgmtError) (conn : Conn) (source : Option Bytes) :
    Fills ((errorSetFromMgmtErrorList (some { source }) list).map fun error =>
      (conn, ending.failure, ending.formatted error)) ↔
    ¬ (ending.Unformatted ∧ ∃ me, list = [me] ∧ me.message = none) := by
  match list with
  | [] =>
    obtain ⟨e, formatted, told⟩ := ending.formatted_text
      (e := { source, text := some (str "Unspecified error occurred (no data)\n"), isMgmtError := true })
      (Option.some_ne_none _)
    have fills := fills_formatted conn ending.failure formatted told
    simpa [errorSetFromMgmtErrorList, setValue, Except.map] using fills
  | [me] =>
    simp only [errorSetFromMgmtErrorList, Except.map, List.cons.injEq, and_true, exists_eq_left']
    by_cases commit : ending.Unformatted
    · rw [Ending.formatted_unformatted commit, fills_ok_iff]
      simp [commit, setValue, Ending.failure_failed]
    · obtain ⟨e, formatted, told⟩ := Ending.formatted_list
        (e := { source, text := setValue me.message none, isMgmtError := true, mgmtErrs := [me] })
        commit rfl (List.cons_ne_nil _ _)
      have fills := fills_formatted conn ending.failure formatted told
      simpa [commit] using fills
  | first :: second :: rest =>
    cases merged : mergeMessages (first :: second :: rest) with
    | error fault =>
      simpa [errorSetFromMgmtErrorList, merged, bind, Except.bind, Except.map] using fills_error fault
    | ok messages =>
      obtain ⟨e, formatted, told⟩ := ending.formatted_text
        (e := { source, text := some messages, isMgmtError := true, mgmtErrs := first :: second :: rest })
        (Option.some_ne_none _)
      have fills := fills_formatted conn ending.failure formatted told
      simpa [errorSetFromMgmtErrorList, merged, bind, Except.bind, Except.map, setValue] using fills

theorem not_fills_untold (conn : Conn) (source : Option Bytes) :
    ¬ Fills (.ok (conn, ending.failure, ending.formatted (some { source }))) := by
  rw [Ending.formatted_plain rfl, fills_ok_iff]
  intro told
  exact told Ending.failure_failed rfl

theorem fills_received_iff {resp : Response} {reqId : BitVec 32} {garbage : Option RespT} {jresp : Option Json}
    (received : recvResponse reqId garbage jresp = some resp) (conn : Conn) (source : Option Bytes) :
    Fills ((finishCall ending.want reqId garbage jresp (some { source })).map fun (result, error) =>
      (conn, (result.map ending.returns).getD ending.failure, ending.formatted error)) ↔
    ¬ resp.SilentFor ending := by
  unfold finishCall
  simp only [received]
  by_cases wanted : resp.type = some ending.want
  · rw [if_pos wanted, Response.silentFor_wanted wanted, Except.map, Ending.formatted_plain rfl, fills_ok_iff]
    simp
  · rw [if_neg wanted]
    split
    · rename_i type
      obtain ⟨e, formatted, told⟩ := ending.formatted_text
        (e := { source, text := some (resp.result.getStr.getD (str "(null)") ++ str "\n") }) (Option.some_ne_none _)
      have spoken : ¬ resp.SilentFor ending := by simp [Response.SilentFor, type]
      have fills := fills_formatted conn ending.failure formatted told
      simpa [spoken, Except.map, handleRpcError, errorSetf] using fills
    · rename_i type
      have same := fills_mgmterror_iff ending resp.result.getMgmtErrs conn source
      rw [Response.silentFor_mgmterror type, ← same]
      cases errorSetFromMgmtErrorList (some { source }) resp.result.getMgmtErrs <;> rfl
    · rename_i notError notMgmterror
      have silent : resp.SilentFor ending :=
        Response.silentFor_unwanted (fun type => notError type) (fun type => notMgmterror type) wanted
      simp only [silent, not_true, iff_false]
      exact not_fills_untold conn source

theorem Response.silentFor_int (value : BitVec 32) :
    Response.SilentFor ending ⟨some .int, .intVal value⟩ ↔ ending.Refuses value := by
  have minusOne : value.toInt = -1 ↔ value = -1 := by
    rw [← BitVec.toInt_inj]
    rfl
  have one : value.toInt = 1 ↔ value = 1 := by
    rw [← BitVec.toInt_inj]
    rfl
  cases ending with
  | int =>
    simpa [SilentFor, Ending.want, Ending.returns, Result.getInt, Ret.Failed, Ending.Refuses] using minusOne
  | intNegated =>
    simpa [SilentFor, Ending.want, Ending.returns, Result.getInt, Ret.Failed, Ending.Refuses,
      negate_eq_failure_iff] using minusOne
  | intIsOne =>
    simpa [SilentFor, Ending.want, Ending.returns, Result.getInt, Ret.Failed, Ending.Refuses,
      isOne_eq_none_iff] using not_congr one
  | _ => simp [SilentFor, Ending.want, Ending.Refuses]

theorem Response.silentFor_string (value : Bytes) :
    Response.SilentFor ending ⟨some .string, .strVal value⟩ ↔ ending.want ≠ .string := by
  cases ending <;> simp [SilentFor, Ending.want, Ending.returns, Result.getStr, Ret.Failed]

theorem Response.silentFor_vector (value : List Bytes) :
    Response.SilentFor ending ⟨some .vector, .vector value⟩ ↔ ending.want ≠ .vector := by
  cases ending <;> simp [SilentFor, Ending.want, Ending.returns, Result.getVector, Ret.Failed]

theorem Response.silentFor_map (value : Envz.Vector) :
    Response.SilentFor ending ⟨some .map, .map value⟩ ↔ ending.want ≠ .map := by
  cases ending <;> simp [SilentFor, Ending.want, Ending.returns, Result.getMap, Ret.Failed]

theorem Response.silentFor_zero (garbage : Option RespT) :
    Response.SilentFor ending ⟨garbage, .zero⟩ ↔ ending.Untyped garbage := by
  rcases garbage with _ | type
  · simp [SilentFor, Ending.Untyped]
  · cases type <;> cases ending <;>
      simp [SilentFor, Ending.Untyped, Ending.want, Ending.returns, Ending.Refuses, Result.getInt, Result.getStr,
        Result.getVector, Result.getMap, Result.getMgmtErrs, Ret.Failed, negate, isOne]

theorem extractResult_silent_iff (garbage : Option RespT) (jresult : Json) :
    (∃ resp, extractResult garbage jresult = some resp ∧ resp.SilentFor ending) ↔
      ending.Rejects garbage jresult := by
  cases jresult with
  | bool value => simp [extractResult, Ending.Rejects, Response.silentFor_int]
  | integer value => simp [extractResult, Ending.Rejects, Response.silentFor_int]
  | string value => simp [extractResult, Ending.Rejects, Response.silentFor_string]
  | array items =>
    cases decoded : jarrayToVector (.array items) <;>
      simp [extractResult, Ending.Rejects, decoded, Response.silentFor_vector]
  | object members =>
    cases decoded : jobjToMap (.object members) true <;>
      simp [extractResult, Ending.Rejects, decoded, Response.silentFor_map]
  | null | real => simp [extractResult, Ending.Rejects, Response.silentFor_zero]

theorem extractMgmtErrorList_silent_iff (jlist : Json) :
    (∃ resp, extractMgmtErrorList jlist = some resp ∧ resp.SilentFor ending) ↔
      ending.Unformatted ∧ jlist.Unworded := by
  constructor
  · intro held
    rcases held with ⟨resp, decoded, silent⟩
    unfold extractMgmtErrorList at decoded
    split at decoded
    · split at decoded
      · cases decoded
      · rename_i jarray filled found
        obtain ⟨list, processed, rfl⟩ := Option.map_eq_some_iff.mp decoded
        obtain ⟨unformatted, me, single, absent⟩ := (Response.silentFor_mgmterror rfl).mp silent
        obtain rfl : list = [me] := single
        obtain ⟨jerr, rfl, extracted⟩ := (processErrlistArray_single_iff jarray me).mp processed
        exact ⟨unformatted, jerr, me, found, extracted, absent⟩
      · cases decoded
    · cases decoded
  · intro held
    rcases held with ⟨unformatted, jerr, me, found, extracted, absent⟩
    have processed := (processErrlistArray_single_iff [jerr] me).mpr ⟨jerr, rfl, extracted⟩
    refine ⟨⟨some .mgmterror, .mgmtErrs [me]⟩, ?_, ?_⟩
    · cases jlist with
      | object members => simp [extractMgmtErrorList, found, processed]
      | _ => cases found
    · exact (Response.silentFor_mgmterror rfl).mpr ⟨unformatted, me, rfl, absent⟩

theorem Response.not_silentFor_error (result : Result) : ¬ Response.SilentFor ending ⟨some .error, result⟩ := by
  simp [SilentFor]

theorem extractMembers_silent_iff (ending : Ending) (garbage : Option RespT) (j : Json) :
    (∃ resp, extractMembers garbage j = some resp ∧ resp.SilentFor ending) ↔ j.SilentFor ending garbage := by
  unfold extractMembers Json.SilentFor
  split_ifs with result error mgmterrorlist
  · cases found : j.objectGet (str "result") with
    | none => simp
    | some jresult => simp [extractResult_silent_iff]
  · cases (j.objectGet (str "error")).bind Json.stringValue <;> simp [Response.not_silentFor_error]
  · cases found : j.objectGet (str "mgmterrorlist") with
    | none => simp
    | some jlist => simp [extractMgmtErrorList_silent_iff]
  · simp [Response.silentFor_zero]

theorem fills_failed (ending : Ending) (conn : Conn) (source : Option Bytes) (text : Bytes) :
    Fills (.ok (conn, ending.failure, ending.formatted (errorSetf (some { source }) text))) := by
  obtain ⟨e, formatted, told⟩ := ending.formatted_text
    (e := { source, text := some text }) (Option.some_ne_none _)
  exact fills_formatted conn ending.failure formatted told

theorem fills_sent_iff (conn : Conn) (reqId : BitVec 32) (garbage : Option RespT) (jresp : Option Json)
    (source : Option Bytes) :
    Fills ((finishCall ending.want reqId garbage jresp (some { source })).map fun (result, error) =>
      (conn, (result.map ending.returns).getD ending.failure, ending.formatted error)) ↔
    ¬ ∃ j, jresp = some j ∧ passesId reqId j = true ∧ j.SilentFor ending garbage := by
  cases received : recvResponse reqId garbage jresp with
  | none =>
    have fills := fills_failed ending conn source (str "Error receiving response")
    have never : ¬ ∃ j, jresp = some j ∧ passesId reqId j = true ∧ j.SilentFor ending garbage := by
      intro held
      rcases held with ⟨j, rfl, passes, silent⟩
      obtain ⟨resp, extracted, -⟩ := (extractMembers_silent_iff ending garbage j).mpr silent
      rw [recvResponse_passesId passes, extracted] at received
      cases received
    simp only [never, not_false_iff, iff_true, finishCall, received]
    exact fills
  | some resp =>
    rw [fills_received_iff received]
    apply not_congr
    obtain ⟨j, rfl, passes, extracted⟩ := recvResponse_eq_some_iff.mp received
    have silent := extractMembers_silent_iff ending garbage j
    simpa [passes, extracted] using silent

theorem call_unpacked (conn : Conn) (fn : Bytes) (x : Exchange) (error : Option ConfigdError) :
    ending.call conn ⟨fn, none⟩ x error =
      .ok (conn, ending.failure, ending.formatted (errorSetf error (str "Error sending request"))) := rfl

theorem call_unsent {x : Exchange} (unsent : x.delivery.sent = false) (conn : Conn) (fn : Bytes)
    (args : Json) (error : Option ConfigdError) :
    ending.call conn ⟨fn, some args⟩ x error =
      .ok ({ conn with reqId := conn.reqId + 1 }, ending.failure,
        ending.formatted (errorSetf error (str "Error sending request"))) := by
  rcases x with ⟨delivery, garbage, jresp⟩
  cases delivery with
  | packFails | dumpFails | writeFails => rfl
  | cutShort | written => cases unsent

theorem call_sent {x : Exchange} (sent : x.delivery.sent = true) (conn : Conn) (fn : Bytes)
    (args : Json) (error : Option ConfigdError) :
    ending.call conn ⟨fn, some args⟩ x error =
      (finishCall ending.want (conn.reqId + 1) x.garbage x.jresp error).map fun (result, error) =>
        ({ conn with reqId := conn.reqId + 1 }, (result.map ending.returns).getD ending.failure,
          ending.formatted error) := by
  rcases x with ⟨delivery, garbage, jresp⟩
  cases delivery with
  | packFails | dumpFails | writeFails => cases sent
  | cutShort | written =>
    simp only [Ending.call, getMember, sendRequest]
    cases finishCall ending.want (conn.reqId + 1) garbage jresp error <;> rfl

/-- One request fills the error unless a silent reply to it arrives. -/
theorem fills_call_iff (conn : Conn) (req : Request) (x : Exchange) (source : Option Bytes) :
    Fills (ending.call conn req x (some { source })) ↔
      ¬ (req.args.isSome ∧ ∃ j, x.reply conn = some j ∧ j.SilentFor ending x.garbage) := by
  rcases req with ⟨fn, args⟩
  cases args with
  | none =>
    rw [call_unpacked]
    simpa using fills_failed ending conn source _
  | some args =>
    cases sent : x.delivery.sent with
    | false =>
      rw [call_unsent sent]
      simpa [Exchange.reply, sent] using fills_failed ending _ source _
    | true =>
      rw [call_sent sent, fills_sent_iff]
      simp [Exchange.reply, sent, and_assoc]

end Replies

section Calls

variable (utf8 : Bytes → Bool) (conn : Conn)

/-- The arguments do not pack, or a silent reply arrives. -/
def Rpc.Silent (rpc : Rpc) (x : Exchange) : Prop :=
  packArgs utf8 rpc.args = none ∨ ∃ j, x.reply conn = some j ∧ j.SilentFor rpc.ending x.garbage

variable {utf8 conn}

/-- The run lemma of every function that makes one request, on an error that has no text. -/
theorem fills_run_iff (utf8 : Bytes → Bool) (conn : Conn) (rpc : Rpc) (x : Exchange) (source : Option Bytes) :
    Fills (rpc.run utf8 conn x (some { source })) ↔ ¬ rpc.Silent utf8 conn x := by
  cases packed : packArgs utf8 rpc.args with
  | none =>
    simp only [Rpc.run_unpacked packed, fills_ok_iff, Rpc.Silent, packed, true_or, not_true, iff_false]
    intro told
    exact told Ending.failure_failed rfl
  | some args =>
    rw [Rpc.run_packed packed, errorInit_some, fills_call_iff]
    simp [Rpc.Silent, packed]

end Calls

end VyattaCfg.Client
