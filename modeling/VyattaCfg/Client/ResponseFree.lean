import VyattaCfg.Client.Connection

namespace VyattaCfg.Client

open ByteString

/-- `extract_result`, its return value and the caller's response after it. -/
def extractResultInto (resp : Response) (jresult : Json) : Int × Response :=
  match jresult with
  | .bool value => (0, ⟨some .int, .intVal (boolInt value)⟩)
  | .integer value => (0, ⟨some .int, .intVal (value.setWidth 32)⟩)
  | .string value => (0, ⟨some .string, .strVal value⟩)
  | .array _ =>
    match jarrayToVector jresult with
    | some v => (0, ⟨some .vector, .vector v⟩)
    | none => (-1, ⟨some .vector, .zero⟩)
  | .object _ =>
    match jobjToMap jresult true with
    | some m => (0, ⟨some .map, .map m⟩)
    | none => (-1, ⟨some .map, .zero⟩)
  | _ => (0, resp)

def extractMgmtErrorListInto (resp : Response) (jobj : Json) : Int × Response :=
  match extractMgmtErrorList jobj with
  | some filled => (0, filled)
  | none => (-1, { resp with type := some .mgmterror })

/-- The chain of tests in `recv_response`; an error is a jump past the check of the id. -/
def extractMembersInto (resp : Response) (jresp : Json) : Except (Int × Response) (Int × Response) :=
  if containsNonNullEntryFor jresp (str "result") then
    let done := extractResultInto resp ((jresp.objectGet (str "result")).getD .null)
    if done.1 ≠ 0 then .error done else .ok done
  else if containsNonNullEntryFor jresp (str "error") then
    let resp := { resp with type := some .error }
    match (jresp.objectGet (str "error")).bind Json.stringValue with
    | none => .error (-1, resp)
    | some s => .ok (-1, { resp with result := .strVal s })
  else if containsNonNullEntryFor jresp (str "mgmterrorlist") then
    let done := extractMgmtErrorListInto resp ((jresp.objectGet (str "mgmterrorlist")).getD .null)
    if done.1 ≠ 0 then .error done else .ok done
  else .ok (-1, resp)

/-- `recv_response` after its read loop, its return value and the caller's response after it. -/
def recvResponseInto (reqId : BitVec 32) (resp : Response) (jresp : Option Json) : Int × Response :=
  let resp := { resp with result := .zero }
  match jresp with
  | none => (-1, resp)
  | some jresp =>
    if jresp.isNull then (-1, resp)
    else
      match extractMembersInto resp jresp with
      | .error done => done
      | .ok done =>
        match responseId jresp with
        | none => done
        | some id => (if reqId = id then 0 else -1, done.2)

/-- The members of the result union that own memory. -/
inductive Member where
  | strVal
  | vector
  | map
  | mgmtErrs
  deriving DecidableEq, Repr

/-- `response_free`: the member that it frees. -/
def responseFree (resp : Response) : Option Member :=
  match resp.type with
  | some .string | some .error => some .strVal
  | some .vector => some .vector
  | some .map => some .map
  | some .mgmterror => some .mgmtErrs
  | _ => none

/-- What a call leaves behind: what it returns, the error, and the member it frees. -/
structure CallOutcome where
  result : Option Result
  error : Option ConfigdError
  freed : Option Member

def CallOutcome.ended (outcome : CallOutcome) : Ended := (outcome.result, outcome.error)

def finishInto (want : RespT) (reqId : BitVec 32) (resp : Response) (jresp : Option Json)
    (error : Option ConfigdError) : Except Fault CallOutcome :=
  let received := recvResponseInto reqId resp jresp
  if received.1 = -1 then
    .ok ⟨none, errorSetf error (str "Error receiving response"), responseFree received.2⟩
  else if received.2.type = some want then .ok ⟨some received.2.result, error, none⟩
  else
    match received.2.type with
    | some .error => .ok ⟨none, handleRpcError error received.2, responseFree received.2⟩
    | some .mgmterror => do
      let error ← errorSetFromMgmtErrorList error received.2.result.getMgmtErrs
      .ok ⟨none, error, responseFree received.2⟩
    | _ => .ok ⟨none, error, responseFree received.2⟩

theorem extractResultInto_eq (garbage : Option RespT) (jresult : Json) :
    (∃ filled, extractResult garbage jresult = some filled ∧
      extractResultInto ⟨garbage, .zero⟩ jresult = (0, filled)) ∨
    (extractResult garbage jresult = none ∧ ∃ left, extractResultInto ⟨garbage, .zero⟩ jresult = (-1, left)) := by
  cases jresult with
  | array items =>
    rw [extractResult, extractResultInto]
    cases jarrayToVector (.array items) with
    | none => exact .inr ⟨rfl, _, rfl⟩
    | some v => exact .inl ⟨_, rfl, rfl⟩
  | object members =>
    rw [extractResult, extractResultInto]
    cases jobjToMap (.object members) true with
    | none => exact .inr ⟨rfl, _, rfl⟩
    | some m => exact .inl ⟨_, rfl, rfl⟩
  | _ => exact .inl ⟨_, rfl, rfl⟩

/-- The response that a reply fills in, and the return value before its id is looked at. -/
theorem extractMembersInto_eq (garbage : Option RespT) (j : Json) :
    (∃ filled, extractMembers garbage j = some filled ∧
      extractMembersInto ⟨garbage, .zero⟩ j = .ok (if holdsPayload j then 0 else -1, filled)) ∨
    (extractMembers garbage j = none ∧ ∃ left, extractMembersInto ⟨garbage, .zero⟩ j = .error (-1, left)) := by
  unfold extractMembers extractMembersInto holdsPayload
  cases result : containsNonNullEntryFor j (str "result") with
  | true =>
    cases found : j.objectGet (str "result") with
    | none => simp [containsNonNullEntryFor, jobjIsNotNull, jobjIsNull, found] at result
    | some jresult =>
      rcases extractResultInto_eq garbage jresult with ⟨filled, extracted, into⟩ | ⟨extracted, left, into⟩
      · exact .inl ⟨filled, by simp [extracted], by simp [into]⟩
      · exact .inr ⟨by simp [extracted], left, by simp [into]⟩
  | false =>
    cases error : containsNonNullEntryFor j (str "error") with
    | true =>
      cases (j.objectGet (str "error")).bind Json.stringValue with
      | none => exact .inr ⟨rfl, _, rfl⟩
      | some s => exact .inl ⟨_, rfl, rfl⟩
    | false =>
      cases list : containsNonNullEntryFor j (str "mgmterrorlist") with
      | false => exact .inl ⟨_, rfl, rfl⟩
      | true =>
        cases found : j.objectGet (str "mgmterrorlist") with
        | none => simp [containsNonNullEntryFor, jobjIsNotNull, jobjIsNull, found] at list
        | some jobj =>
          cases extracted : extractMgmtErrorList jobj with
          | none =>
            refine .inr ⟨by simp [extracted], { type := some .mgmterror, result := .zero }, ?_⟩
            simp [extractMgmtErrorListInto, extracted]
          | some filled =>
            refine .inl ⟨filled, by simp [extracted], ?_⟩
            simp [extractMgmtErrorListInto, extracted]

/-- The two readings of `recv_response` agree: the one that returns what it fills in, and the
    one that works on the caller's response. -/
theorem recvResponse_into (reqId : BitVec 32) (resp : Response) (jresp : Option Json) :
    recvResponse reqId resp.type jresp =
      if (recvResponseInto reqId resp jresp).1 = -1 then none else some (recvResponseInto reqId resp jresp).2 := by
  rcases jresp with _ | j
  · rfl
  · unfold recvResponse recvResponseInto
    cases null : j.isNull with
    | true => simp [null]
    | false =>
      rcases extractMembersInto_eq resp.type j with ⟨filled, extracted, into⟩ | ⟨extracted, left, into⟩
      · cases id : responseId j with
        | none => cases payload : holdsPayload j <;> simp [null, extracted, into, id, passesId, payload]
        | some own =>
          by_cases same : reqId = own <;> simp [null, extracted, into, id, passesId, same]
      · simp [null, extracted, into]

theorem finishInto_ended (want : RespT) (reqId : BitVec 32) (resp : Response) (jresp : Option Json)
    (error : Option ConfigdError) :
    (finishInto want reqId resp jresp error).map CallOutcome.ended =
      finishCall want reqId resp.type jresp error := by
  rw [finishInto, finishCall, recvResponse_into]
  rcases recvResponseInto reqId resp jresp with ⟨code, ⟨type, result⟩⟩
  dsimp only
  by_cases failed : code = -1
  · rw [if_pos failed, if_pos failed]
    rfl
  · rw [if_neg failed, if_neg failed]
    dsimp only
    by_cases wanted : type = some want
    · rw [if_pos wanted, if_pos wanted]
      rfl
    · rw [if_neg wanted, if_neg wanted]
      rcases type with _ | type
      · rfl
      · cases type with
        | mgmterror => cases errorSetFromMgmtErrorList error result.getMgmtErrs <;> rfl
        | _ => rfl

def Json.isReal : Json → Bool
  | .real => true
  | _ => false

/-- The reply gives the response a type: it has a result that is no real number, or no result
    but an error or an error list. -/
def setsType (j : Json) : Bool :=
  if containsNonNullEntryFor j (str "result") then !(j.objectGet (str "result")).any Json.isReal
  else containsNonNullEntryFor j (str "error") || containsNonNullEntryFor j (str "mgmterrorlist")

theorem extractResultInto_same {jresult : Json} (typed : jresult.isReal = false) (present : jresult.isNull = false)
    (resp resp' : Response) : extractResultInto resp jresult = extractResultInto resp' jresult := by
  cases jresult with
  | null => cases present
  | real => cases typed
  | _ => rfl

theorem extractMembersInto_same {j : Json} (sets : setsType j = true) (garbage garbage' : Option RespT) :
    extractMembersInto ⟨garbage, .zero⟩ j = extractMembersInto ⟨garbage', .zero⟩ j := by
  unfold setsType at sets
  unfold extractMembersInto
  cases result : containsNonNullEntryFor j (str "result") with
  | true =>
    rw [result] at sets
    cases found : j.objectGet (str "result") with
    | none => simp [containsNonNullEntryFor, jobjIsNotNull, jobjIsNull, found] at result
    | some jresult =>
      have present : jresult.isNull = false := by
        simpa [containsNonNullEntryFor, jobjIsNotNull, jobjIsNull, found] using result
      have typed : jresult.isReal = false := by simpa [found] using sets
      have same := extractResultInto_same typed present ⟨garbage, .zero⟩ ⟨garbage', .zero⟩
      simp only [if_true, Option.getD_some, same]
  | false =>
    rw [result] at sets
    cases error : containsNonNullEntryFor j (str "error") with
    | true => rfl
    | false =>
      cases list : containsNonNullEntryFor j (str "mgmterrorlist") with
      | true => rfl
      | false => simp [error, list] at sets

theorem extractMembersInto_untyped {j : Json} (unset : setsType j = false) (garbage : Option RespT) :
    extractMembersInto ⟨garbage, .zero⟩ j = .ok (if holdsPayload j then 0 else -1, ⟨garbage, .zero⟩) := by
  unfold setsType at unset
  unfold extractMembersInto holdsPayload
  cases result : containsNonNullEntryFor j (str "result") with
  | true =>
    rw [result] at unset
    cases found : j.objectGet (str "result") with
    | none => simp [found] at unset
    | some jresult =>
      cases jresult with
      | real => rfl
      | _ => simp [found, Json.isReal] at unset
  | false =>
    rw [result] at unset
    cases error : containsNonNullEntryFor j (str "error") with
    | true => simp [error] at unset
    | false =>
      cases list : containsNonNullEntryFor j (str "mgmterrorlist") with
      | true => simp [list] at unset
      | false => rfl

theorem recvResponseInto_same {j : Json} (sets : setsType j = true) (reqId : BitVec 32) (resp resp' : Response) :
    recvResponseInto reqId resp (some j) = recvResponseInto reqId resp' (some j) := by
  have present : j.isNull = false := by
    cases j with
    | null => cases sets
    | _ => rfl
  simp only [recvResponseInto, present, extractMembersInto_same sets resp.type resp'.type]
  rfl

theorem recvResponseInto_untyped {j : Json} (unset : setsType j = false) (reqId : BitVec 32) (resp : Response) :
    recvResponseInto reqId resp (some j) = (if passesId reqId j then 0 else -1, ⟨resp.type, .zero⟩) := by
  unfold recvResponseInto passesId
  cases null : j.isNull with
  | true =>
    cases j with
    | null => rfl
    | _ => cases null
  | false =>
    simp only [null, extractMembersInto_untyped unset]
    cases responseId j with
    | none => rfl
    | some id => by_cases same : reqId = id <;> simp [same]

/-- Whatever was in the caller's response, a reply is received alike. -/
structure SameReturn (reqId : BitVec 32) (j : Json) : Prop where
  code : ∀ resp resp' : Response,
    (recvResponseInto reqId resp (some j)).1 = (recvResponseInto reqId resp' (some j)).1
  filled : ∀ resp resp' : Response, (recvResponseInto reqId resp (some j)).1 = 0 →
    (recvResponseInto reqId resp (some j)).2 = (recvResponseInto reqId resp' (some j)).2
  ended : ∀ (resp resp' : Response) (getter : Getter) (error : Option ConfigdError),
    (finishInto getter.want reqId resp (some j) error).map CallOutcome.ended =
      (finishInto getter.want reqId resp' (some j) error).map CallOutcome.ended

def SameFreed (reqId : BitVec 32) (j : Json) : Prop :=
  ∀ (resp resp' : Response) (getter : Getter) (error : Option ConfigdError),
    (finishInto getter.want reqId resp (some j) error).map CallOutcome.freed =
      (finishInto getter.want reqId resp' (some j) error).map CallOutcome.freed

theorem sameReturn_of_setsType {j : Json} (sets : setsType j = true) (reqId : BitVec 32) :
    SameReturn reqId j ∧ SameFreed reqId j := by
  have same := recvResponseInto_same sets reqId
  have finish : ∀ (resp resp' : Response) (getter : Getter) (error : Option ConfigdError),
      finishInto getter.want reqId resp (some j) error = finishInto getter.want reqId resp' (some j) error := by
    intro resp resp' getter error
    rw [finishInto, finishInto, same resp resp']
  refine ⟨⟨?_, ?_, ?_⟩, ?_⟩
  · intro resp resp'
    rw [same resp resp']
  · intro resp resp' _
    rw [same resp resp']
  · intro resp resp' getter error
    rw [finish resp resp']
  · intro resp resp' getter error
    rw [finish resp resp']

theorem finishInto_refused {j : Json} (unset : setsType j = false) {reqId : BitVec 32}
    (refused : passesId reqId j = false) (want : RespT) (resp : Response) (error : Option ConfigdError) :
    finishInto want reqId resp (some j) error =
      .ok ⟨none, errorSetf error (str "Error receiving response"), responseFree ⟨resp.type, .zero⟩⟩ := by
  simp [finishInto, recvResponseInto_untyped unset, refused]

/-- A call is independent of the uninitialised response for the replies that set its type. For
    any other reply its own id lets the memory decide what is returned, and another id what is freed. -/
theorem recvResponse_same_iff (reqId : BitVec 32) (j : Json) :
    (SameReturn reqId j ∧ SameFreed reqId j ↔ setsType j = true) ∧
      (SameReturn reqId j ↔ setsType j = true ∨ passesId reqId j = false) := by
  cases sets : setsType j with
  | true =>
    rcases sameReturn_of_setsType sets reqId with ⟨returned, freed⟩
    simp [returned, freed]
  | false =>
    have received := recvResponseInto_untyped sets reqId
    cases passes : passesId reqId j with
    | true =>
      have differs : ¬ SameReturn reqId j := by
        intro same
        have types := same.filled ⟨some .int, .zero⟩ ⟨some .string, .zero⟩ (by simp [received, passes])
        rw [received, received] at types
        cases types
      simp [differs]
    | false =>
      have refused := finishInto_refused sets passes
      have returned : SameReturn reqId j := by
        refine ⟨?_, ?_, ?_⟩
        · intro resp resp'
          rw [received, received]
        · intro resp resp' zero
          rw [received, passes] at zero
          cases zero
        · intro resp resp' getter error
          rw [refused, refused]
          rfl
      have differs : ¬ SameFreed reqId j := by
        intro same
        have members := same ⟨some .int, .zero⟩ ⟨some .string, .zero⟩ .int none
        rw [refused, refused] at members
        cases members
      simp [returned, differs]

/-- A reply with a real number as its result. -/
theorem recvResponse_real_result : ¬ ∀ (reqId : BitVec 32) (members : List (Bytes × Json)),
    SameReturn reqId (.object members) ∧ SameFreed reqId (.object members) := by
  intro same
  have types := (same 1 [(str "result", .real), (str "id", .integer 1)]).1.filled
    ⟨some .int, .zero⟩ ⟨some .string, .zero⟩ rfl
  cases types

end VyattaCfg.Client
