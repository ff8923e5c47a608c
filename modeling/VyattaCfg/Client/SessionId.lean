import VyattaCfg.Client.CfgClient

namespace VyattaCfg.Client

open ByteString

namespace CfgClient

def Agrees (client : CfgClient) : Prop := client.conn.sessionId = client.sessionid

theorem agrees_construct (reqId : BitVec 32) (sid : Option Bytes) : (construct reqId sid).Agrees := by
  cases sid <;> rfl

def SameIds (client after : CfgClient) : Prop :=
  after.conn.sessionId = client.conn.sessionId ∧ after.sessionid = client.sessionid

def Plain (client : CfgClient) : Prop := 0 ∉ client.conn.sessionId

theorem SameIds.plain {client after : CfgClient} (same : client.SameIds after) (plain : client.Plain) :
    after.Plain := by
  unfold Plain
  rw [same.1]
  exact plain

theorem plain_setSessionId (client : CfgClient) (sessid : Bytes) : (client.setSessionId sessid).Plain :=
  cstr_nul_free sessid

def Leaves {α : Type} (P : CfgClient → Prop) : Outcome α → Prop
  | .returned after _ | .threw after _ => P after
  | .aborted => True

theorem callintapi_sameIds (utf8 : Bytes → Bool) (api : Conn → Rpc) (x : Exchange) (client : CfgClient) :
    Leaves client.SameIds (callintapi utf8 api x client) := by
  unfold callintapi
  split
  · rename_i conn result err called
    have kept := Rpc.run_sessionId called
    split
    · split
      · exact ⟨kept, rfl⟩
      · trivial
    · exact ⟨kept, rfl⟩
  · trivial

end CfgClient

inductive SessionCall where
  | attach (sessid : Bytes)
  | setup (sessid : Bytes)
  | setupShared (sessid : Bytes)
  | teardown
  | exists

section Calls

variable (utf8 : Bytes → Bool)

open CfgClient

def SessionCall.run (x : Exchange) (client : CfgClient) : SessionCall → Outcome Unit
  | .attach sessid => client.sessionAttach utf8 sessid x
  | .setup sessid => client.sessionSetup utf8 sessid x
  | .setupShared sessid => client.sessionSetupShared utf8 sessid x
  | .teardown => client.sessionTeardown utf8 x
  | .exists =>
    match client.sessionExists utf8 x with
    | .returned client _ => .returned client ()
    | .threw client message => .threw client message
    | .aborted => .aborted

/-- The ids agree after the call, and one that throws has left both as they were. -/
def Kept (client : CfgClient) : Outcome Unit → Prop
  | .returned after () => after.Agrees
  | .threw after _ => after.Agrees ∧ client.SameIds after
  | .aborted => True

def Keeps (client : CfgClient) (call : SessionCall) (x : Exchange) : Prop :=
  Kept client (call.run utf8 x client)

/-- The server refuses the setup only of the id that is the recorded one already, and grants
    it only to an id without a NUL. -/
def SetupSafe (api : Conn → Rpc) (sessid : Bytes) (x : Exchange) (client : CfgClient) : Prop :=
  sessid = [] ∨
    match callintapi utf8 api x (client.setSessionId sessid) with
    | .returned _ _ => 0 ∉ sessid
    | .threw _ _ => cstr sessid = client.sessionid
    | .aborted => True

def Safe (client : CfgClient) (call : SessionCall) (x : Exchange) : Prop :=
  match call with
  | .attach sessid =>
    match (client.setSessionId sessid).sessionExists utf8 x with
    | .returned _ true => 0 ∉ sessid
    | _ => True
  | .setup sessid => SetupSafe utf8 configdSessSetup sessid x client
  | .setupShared sessid => SetupSafe utf8 configdSessSetupShared sessid x client
  | .teardown | .exists => True

/-- Something holds of every call of a run, up to one that ends the process. -/
def Throughout (P : CfgClient → SessionCall → Exchange → Prop) : CfgClient → List (SessionCall × Exchange) → Prop
  | _, [] => True
  | client, (call, x) :: calls =>
    P client call x ∧
      match call.run utf8 x client with
      | .returned after () | .threw after _ => Throughout P after calls
      | .aborted => True

end Calls

section Proofs

open CfgClient

variable {utf8 : Bytes → Bool}

theorem cstr_eq_iff {s : Bytes} : cstr s = s ↔ 0 ∉ s := by
  constructor
  · intro whole
    rw [← whole]
    exact cstr_nul_free s
  · exact cstr_of_nul_free

theorem sessionExists_sameIds (utf8 : Bytes → Bool) (x : Exchange) (client : CfgClient) :
    Leaves client.SameIds (client.sessionExists utf8 x) := by
  have same := callintapi_sameIds utf8 configdSessExists x client
  unfold sessionExists
  split <;> rename_i called <;> rw [called] at same <;> exact same

theorem setupWith_plain {client : CfgClient} (plain : client.Plain) (api : Conn → Rpc) (sessid : Bytes)
    (x : Exchange) : Leaves Plain (client.setupWith utf8 api sessid x) := by
  have same := callintapi_sameIds utf8 api x (client.setSessionId sessid)
  have set := plain_setSessionId client sessid
  unfold setupWith
  split
  · exact plain
  · split <;> rename_i called <;> rw [called] at same
    · exact same.plain set
    · exact same.plain set
    · trivial

theorem SessionCall.run_plain {client : CfgClient} (plain : client.Plain) (call : SessionCall) (x : Exchange) :
    Leaves Plain (call.run utf8 x client) := by
  cases call with
  | attach sessid =>
    have same := sessionExists_sameIds utf8 x (client.setSessionId sessid)
    simp only [SessionCall.run, sessionAttach]
    split <;> rename_i called <;> rw [called] at same
    · exact same.plain (plain_setSessionId client sessid)
    · exact plain_setSessionId _ _
    · exact plain_setSessionId _ _
    · trivial
  | setup sessid => exact setupWith_plain plain _ sessid x
  | setupShared sessid => exact setupWith_plain plain _ sessid x
  | teardown =>
    have same := callintapi_sameIds utf8 configdSessTeardown x client
    simp only [SessionCall.run, sessionTeardown]
    split <;> rename_i called <;> rw [called] at same
    · exact same.plain plain
    · exact same.plain plain
    · trivial
  | «exists» =>
    have same := sessionExists_sameIds utf8 x client
    simp only [SessionCall.run]
    split <;> rename_i called <;> rw [called] at same
    · exact same.plain plain
    · exact same.plain plain
    · trivial

theorem kept_setupWith_iff {client : CfgClient} (agrees : client.Agrees) (api : Conn → Rpc) (sessid : Bytes)
    (x : Exchange) : Kept client (client.setupWith utf8 api sessid x) ↔ SetupSafe utf8 api sessid x client := by
  have same := callintapi_sameIds utf8 api x (client.setSessionId sessid)
  unfold setupWith SetupSafe
  by_cases empty : sessid = []
  · simp only [empty, List.length_nil, if_true, true_or, iff_true]
    exact ⟨agrees, rfl, rfl⟩
  · rw [if_neg (by simpa using empty)]
    cases called : callintapi utf8 api x (client.setSessionId sessid) with
    | returned after result =>
      rw [called] at same
      simp only [empty, false_or]
      rw [← cstr_eq_iff, Kept, Agrees, same.1]
      rfl
    | threw after message =>
      rw [called] at same
      simp only [empty, false_or]
      constructor
      · intro held
        rcases held with ⟨now, -⟩
        rw [Agrees, same.1, same.2] at now
        exact now
      · intro again
        have carried : after.conn.sessionId = client.sessionid := same.1.trans again
        exact ⟨carried.trans same.2.symm, carried.trans agrees.symm, same.2⟩
    | aborted => simp [Kept]

theorem kept_of_sameIds {client after : CfgClient} (agrees : client.Agrees) (same : client.SameIds after) :
    after.Agrees := by
  rw [Agrees, same.1, same.2]
  exact agrees

theorem sameIds_restore {client after : CfgClient} (agrees : client.Agrees) (plain : client.Plain)
    (sessid : Bytes) (same : (client.setSessionId sessid).SameIds after) :
    client.SameIds (after.setSessionId after.sessionid) := by
  have recorded : after.sessionid = client.sessionid := same.2
  refine ⟨?_, recorded⟩
  have restored : cstr after.sessionid = client.conn.sessionId := by
    rw [recorded, ← agrees]
    exact cstr_of_nul_free plain
  exact restored

/-- From an object that keeps the ids together a call keeps them together exactly when it is safe. -/
theorem keeps_iff_safe {client : CfgClient} (agrees : client.Agrees) (plain : client.Plain)
    (call : SessionCall) (x : Exchange) : Keeps utf8 client call x ↔ Safe utf8 client call x := by
  cases call with
  | attach sessid =>
    have same := sessionExists_sameIds utf8 x (client.setSessionId sessid)
    simp only [Keeps, Safe, SessionCall.run, sessionAttach]
    cases called : (client.setSessionId sessid).sessionExists utf8 x with
    | returned after found =>
      rw [called] at same
      cases found with
      | true =>
        rw [← cstr_eq_iff, Kept, Agrees, same.1]
        rfl
      | false =>
        have restored := sameIds_restore agrees plain sessid same
        exact iff_of_true ⟨kept_of_sameIds agrees restored, restored⟩ trivial
    | threw after message =>
      rw [called] at same
      have restored := sameIds_restore agrees plain sessid same
      exact iff_of_true ⟨kept_of_sameIds agrees restored, restored⟩ trivial
    | aborted => simp [Kept]
  | setup sessid => exact kept_setupWith_iff agrees _ sessid x
  | setupShared sessid => exact kept_setupWith_iff agrees _ sessid x
  | teardown =>
    have same := callintapi_sameIds utf8 configdSessTeardown x client
    refine iff_of_true ?_ trivial
    simp only [Keeps, SessionCall.run, sessionTeardown]
    cases called : callintapi utf8 configdSessTeardown x client with
    | returned after result =>
      rw [called] at same
      exact kept_of_sameIds agrees same
    | threw after message =>
      rw [called] at same
      exact ⟨kept_of_sameIds agrees same, same⟩
    | aborted => trivial
  | «exists» =>
    have same := sessionExists_sameIds utf8 x client
    refine iff_of_true ?_ trivial
    simp only [Keeps, SessionCall.run]
    cases called : client.sessionExists utf8 x with
    | returned after result =>
      rw [called] at same
      exact kept_of_sameIds agrees same
    | threw after message =>
      rw [called] at same
      exact ⟨kept_of_sameIds agrees same, same⟩
    | aborted => trivial

theorem throughout_keeps_iff {client : CfgClient} (agrees : client.Agrees) (plain : client.Plain)
    (calls : List (SessionCall × Exchange)) :
    Throughout utf8 (Keeps utf8) client calls ↔ Throughout utf8 (Safe utf8) client calls := by
  induction calls generalizing client with
  | nil => exact Iff.rfl
  | cons event calls ih =>
    rcases event with ⟨call, x⟩
    have next : Leaves Plain (call.run utf8 x client) := SessionCall.run_plain plain call x
    have step : Keeps utf8 client call x ↔ Safe utf8 client call x := keeps_iff_safe agrees plain call x
    simp only [Throughout, ← step]
    apply and_congr_right
    intro kept
    rw [Keeps] at kept
    cases ran : call.run utf8 x client with
    | returned after done =>
      rw [ran] at kept next
      exact ih kept next
    | threw after message =>
      rw [ran] at kept next
      exact ih kept.1 next
    | aborted => exact Iff.rfl

theorem plain_construct (reqId : BitVec 32) (sid : Option Bytes) : (construct reqId sid).Plain := by
  cases sid with
  | none => exact List.not_mem_nil
  | some sid => exact cstr_nul_free sid

theorem session_ids_agree (utf8 : Bytes → Bool) (reqId : BitVec 32) (sid : Option Bytes)
    (calls : List (SessionCall × Exchange)) :
    Throughout utf8 (Keeps utf8) (construct reqId sid) calls ↔
      Throughout utf8 (Safe utf8) (construct reqId sid) calls :=
  throughout_keeps_iff (agrees_construct reqId sid) (plain_construct reqId sid) calls

/-- The server refuses to set up a session: requests carry its id from then on. -/
theorem refused_setup_not_kept : ¬ ∀ (utf8 : Bytes → Bool) (reqId : BitVec 32) (sid : Option Bytes)
    (calls : List (SessionCall × Exchange)), Throughout utf8 (Keeps utf8) (construct reqId sid) calls := by
  intro kept
  have refused := kept (fun _ => true) 0 (some (str "1"))
    [(.setup (str "2"), ⟨.written, none,
      some (.object [(str "error", .string (str "no session")), (str "id", .integer 1)])⟩)]
  have carried : (str "2" : Bytes) = str "1" := refused.1.2.1
  exact absurd carried (by decide)

end Proofs

end VyattaCfg.Client
