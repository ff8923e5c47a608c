import VyattaCfg.Client.Error

namespace VyattaCfg.Client

open ByteString

inductive RespT where
  | init
  | string
  | int
  | status
  | vector
  | map
  | error
  | mgmterror
  deriving DecidableEq, Repr

/-- The result union. `zero` is the union as `memset` clears it: every member reads as 0 or NULL. -/
inductive Result where
  | zero
  | intVal (value : BitVec 32)
  | strVal (value : Bytes)
  | vector (value : List Bytes)
  | map (value : Envz.Vector)
  | mgmtErrs (value : List MgmtError)

namespace Result

def getInt : Result → Int
  | .intVal value => value.toInt
  | _ => 0

def getStr : Result → Option Bytes
  | .strVal value => some value
  | _ => none

def getVector : Result → Option (List Bytes)
  | .vector value => some value
  | _ => none

def getMap : Result → Option Envz.Vector
  | .map value => some value
  | _ => none

def getMgmtErrs : Result → List MgmtError
  | .mgmtErrs value => value
  | _ => []

end Result

theorem Result.eq_intVal_one {result : Result} (one : result.getInt = 1) : result = .intVal 1 := by
  cases result with
  | intVal value =>
    have same : value = 1 := by
      rw [← BitVec.toInt_inj]
      exact one
    rw [same]
  | _ => cases one

theorem Result.eq_map {result : Result} {m : Envz.Vector} (got : result.getMap = some m) : result = .map m := by
  cases result with
  | map value => exact congrArg Result.map (Option.some.inj got)
  | _ => cases got

/-- `struct response`. The type of an uninitialised one is any `int`; `none` stands for
    those that are no `RespT`, which the program treats alike. -/
structure Response where
  type : Option RespT
  result : Result

/-- One element of the error list: an object whose error-info, if any, decodes. -/
def extractMgmtError (jmap : Json) : Option MgmtError :=
  match jmap with
  | .object _ => do
    let fields ← jobjToMap jmap false
    let jinfo := jmap.objectGet (str "error-info")
    let info ← if jobjIsNull jinfo then some none else (jinfo.bind jarrayToMap).map some
    some (configdMgmtErrorSetFromMaps {} fields info)
  | _ => none

/-- `process_errlist_array`: one element that does not decode frees the whole list. -/
def processErrlistArray (jarray : List Json) : Option (List MgmtError) := jarray.mapM extractMgmtError

theorem processErrlistArray_single_iff (jarray : List Json) (me : MgmtError) :
    processErrlistArray jarray = some [me] ↔ ∃ jerr, jarray = [jerr] ∧ extractMgmtError jerr = some me := by
  cases jarray with
  | nil => simp [processErrlistArray]
  | cons jerr rest =>
    cases decoded : extractMgmtError jerr with
    | none => simp [processErrlistArray, decoded]
    | some first =>
      cases rest with
      | nil => simp [processErrlistArray, decoded]
      | cons next rest =>
        have longer : processErrlistArray (jerr :: next :: rest) ≠ some [me] := by
          simp only [processErrlistArray, List.mapM_cons, decoded]
          cases extractMgmtError next <;> cases rest.mapM extractMgmtError <;> simp
        simp [longer]

def extractMgmtErrorList (jobj : Json) : Option Response :=
  match jobj with
  | .object _ =>
    match jobj.objectGet (str "error-list") with
    | some (.array []) => none
    | some (.array jarray) =>
      (processErrlistArray jarray).map fun list => ⟨some .mgmterror, .mgmtErrs list⟩
    | _ => none
  | _ => none

def boolInt (value : Bool) : BitVec 32 := if value then 1 else 0

/-- `extract_result`. The `default` branch reports an unhandled type and leaves the
    response as it was, cleared result and uninitialised type. -/
def extractResult (garbage : Option RespT) (jresult : Json) : Option Response :=
  match jresult with
  | .bool value => some ⟨some .int, .intVal (boolInt value)⟩
  | .integer value => some ⟨some .int, .intVal (value.setWidth 32)⟩
  | .string value => some ⟨some .string, .strVal value⟩
  | .array _ => (jarrayToVector jresult).map fun v => ⟨some .vector, .vector v⟩
  | .object _ => (jobjToMap jresult true).map fun m => ⟨some .map, .map m⟩
  | _ => some ⟨garbage, .zero⟩

/-- The members of a reply that `recv_response` looks at, in its order. -/
def extractMembers (garbage : Option RespT) (jresp : Json) : Option Response :=
  if containsNonNullEntryFor jresp (str "result") then
    (jresp.objectGet (str "result")).bind (extractResult garbage)
  else if containsNonNullEntryFor jresp (str "error") then
    ((jresp.objectGet (str "error")).bind Json.stringValue).map fun s => ⟨some .error, .strVal s⟩
  else if containsNonNullEntryFor jresp (str "mgmterrorlist") then
    (jresp.objectGet (str "mgmterrorlist")).bind extractMgmtErrorList
  else some ⟨garbage, .zero⟩

/-- The id of a reply, converted from `json_int_t` to `unsigned int`. -/
def responseId (jresp : Json) : Option (BitVec 32) :=
  match jresp.objectGet (str "id") with
  | some (.integer value) => some (value.setWidth 32)
  | _ => none

/-- The members that decide whether the return value is 0 already before the id is read. -/
def holdsPayload (jresp : Json) : Bool :=
  containsNonNullEntryFor jresp (str "result") ||
    (!containsNonNullEntryFor jresp (str "error") && containsNonNullEntryFor jresp (str "mgmterrorlist"))

/-- The check of the id at the end. An id that is no integer leaves the return value as it is. -/
def passesId (reqId : BitVec 32) (jresp : Json) : Bool :=
  match responseId jresp with
  | some id => reqId = id
  | none => holdsPayload jresp

/-- `recv_response` after its read loop, which ends with a JSON value or, at the end of the
    stream, with NULL. `none` is the return value -1. -/
def recvResponse (reqId : BitVec 32) (garbage : Option RespT) (jresp : Option Json) :
    Option Response := do
  let jresp ← jresp
  if jresp.isNull then none
  let resp ← extractMembers garbage jresp
  if passesId reqId jresp then some resp else none

theorem passesId_own {reqId : BitVec 32} {j : Json} (own : responseId j = some reqId) : passesId reqId j = true := by
  simp [passesId, own]

theorem not_isNull_of_passesId {reqId : BitVec 32} {j : Json} (passes : passesId reqId j = true) :
    j.isNull = false := by
  cases j with
  | null => cases passes
  | _ => rfl

theorem recvResponse_passesId {reqId : BitVec 32} {j : Json} (passes : passesId reqId j = true)
    (garbage : Option RespT) : recvResponse reqId garbage (some j) = extractMembers garbage j := by
  have object := not_isNull_of_passesId passes
  cases members : extractMembers garbage j <;> simp [recvResponse, object, passes, members]

theorem recvResponse_own {reqId : BitVec 32} {j : Json} (own : responseId j = some reqId)
    (garbage : Option RespT) : recvResponse reqId garbage (some j) = extractMembers garbage j :=
  recvResponse_passesId (passesId_own own) garbage

theorem recvResponse_eq_some_iff {reqId : BitVec 32} {garbage : Option RespT} {jresp : Option Json}
    {resp : Response} : recvResponse reqId garbage jresp = some resp ↔
      ∃ j, jresp = some j ∧ passesId reqId j = true ∧ extractMembers garbage j = some resp := by
  constructor
  · intro received
    rcases jresp with _ | j
    · cases received
    · cases passes : passesId reqId j with
      | true =>
        rw [recvResponse_passesId passes] at received
        exact ⟨j, rfl, passes, received⟩
      | false =>
        unfold recvResponse at received
        cases extracted : extractMembers garbage j <;> simp [extracted, passes] at received
  · intro held
    rcases held with ⟨j, rfl, passes, extracted⟩
    rw [recvResponse_passesId passes, extracted]

theorem truncate_signExtend (id : BitVec 32) : (id.signExtend 64).setWidth 32 = id := by
  ext i bound
  rw [BitVec.getElem_setWidth, BitVec.getLsbD_signExtend]
  have inside : i < 64 := by omega
  simp [inside, bound]

end VyattaCfg.Client
