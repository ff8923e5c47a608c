import VyattaCfg.Client.Api
import VyattaCfg.Client.Cpath

namespace VyattaCfg.Client

open ByteString

def mkpath (uri : UriParser) (cfgpath : List Bytes) : Bytes :=
  cfgpath.zipIdx.foldl
    (fun path (comp, i) => (if i ≠ 0 then path ++ [slash] else path) ++ urlEscape uri comp) [slash]

/-- The connection and `_sessionid`, which is a `std::string` and may hold a NUL. -/
structure CfgClient where
  conn : Conn
  sessionid : Bytes

/-- A method returns or throws `CfgClientException`. Where it makes a `std::string` of a NULL
    text, the exception is one that its `throw` list does not allow. -/
inductive Outcome (α : Type) where
  | returned (client : CfgClient) (value : α)
  | threw (client : CfgClient) (message : Bytes)
  | aborted

def configdSetSessionId (conn : Conn) (sessionId : Bytes) : Conn :=
  { conn with sessionId := cstr sessionId }

namespace CfgClient

def setSessionId (client : CfgClient) (sessid : Bytes) : CfgClient :=
  { client with conn := configdSetSessionId client.conn sessid }

/-- The constructor, with `VYATTA_CONFIG_SID` and the id that the new connection counts from. -/
def construct (reqId : BitVec 32) (sid : Option Bytes) : CfgClient :=
  let client : CfgClient := ⟨⟨[], reqId⟩, []⟩
  match sid with
  | some sid => { client.setSessionId sid with sessionid := cstr sid }
  | none => client

section Calls

variable (utf8 : Bytes → Bool)

def callintapi (api : Conn → Rpc) (x : Exchange) (client : CfgClient) : Outcome Int :=
  match (api client.conn).run utf8 client.conn x (some {}) with
  | .ok (conn, .int result, err) =>
    if result = -1 then
      match err.bind ConfigdError.text with
      | some msg => .threw { client with conn } msg
      | none => .aborted
    else .returned { client with conn } result
  | _ => .aborted

def sessionExists (x : Exchange) (client : CfgClient) : Outcome Bool :=
  match callintapi utf8 configdSessExists x client with
  | .returned client result => .returned client (result == 1)
  | .threw client message => .threw client message
  | .aborted => .aborted

def sessionAttach (sessid : Bytes) (x : Exchange) (client : CfgClient) : Outcome Unit :=
  match sessionExists utf8 x (client.setSessionId sessid) with
  | .returned client true => .returned { client with sessionid := sessid } ()
  | .returned client false =>
    .threw (client.setSessionId client.sessionid) (str "session " ++ sessid ++ str " does not exist")
  | .threw client message => .threw (client.setSessionId client.sessionid) message
  | .aborted => .aborted

def setupWith (api : Conn → Rpc) (sessid : Bytes) (x : Exchange) (client : CfgClient) : Outcome Unit :=
  if sessid.length = 0 then .threw client (str "must specify a session identifier")
  else
    match callintapi utf8 api x (client.setSessionId sessid) with
    | .returned client _ => .returned { client with sessionid := sessid } ()
    | .threw client message => .threw client message
    | .aborted => .aborted

def sessionSetup (sessid : Bytes) (x : Exchange) (client : CfgClient) : Outcome Unit :=
  client.setupWith utf8 configdSessSetup sessid x

def sessionSetupShared (sessid : Bytes) (x : Exchange) (client : CfgClient) : Outcome Unit :=
  client.setupWith utf8 configdSessSetupShared sessid x

def sessionTeardown (x : Exchange) (client : CfgClient) : Outcome Unit :=
  match callintapi utf8 configdSessTeardown x client with
  | .returned client _ => .returned client ()
  | .threw client message => .threw client message
  | .aborted => .aborted

end Calls

end CfgClient

end VyattaCfg.Client
