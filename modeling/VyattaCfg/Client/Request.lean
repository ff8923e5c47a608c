import VyattaCfg.Client.Response

namespace VyattaCfg.Client

open ByteString

structure Conn where
  sessionId : Bytes
  reqId : BitVec 32

structure Request where
  fn : Bytes
  args : Option Json

inductive Delivery where
  | packFails
  | dumpFails
  | writeFails
  | cutShort
  | written
  deriving DecidableEq, Repr

/-- What reaches the socket. `write` may take only a part of the text, which `send_request`
    does not notice. -/
inductive Sent where
  | nothing
  | part
  | whole (request : Json)

/-- The request on the wire: the id is packed by the signed format `i`. -/
def packRequest (req : Request) (args : Json) (id : BitVec 32) : Json :=
  .object [(str "method", .string req.fn), (str "params", args), (str "id", .integer (id.signExtend 64))]

/-- `send_request`, which returns -1 when it sends nothing. The id is an argument of the
    pack call, so it advances before packing can fail. -/
def sendRequest (conn : Conn) (req : Request) (delivery : Delivery) : Conn × Sent :=
  match req.args with
  | none => (conn, .nothing)
  | some args =>
    let id := conn.reqId + 1
    ({ conn with reqId := id },
      match delivery with
      | .packFails | .dumpFails | .writeFails => .nothing
      | .cutShort => .part
      | .written => .whole (packRequest req args id))

/-- `handle_rpc_error`. A cleared `str_val` prints as glibc prints NULL. -/
def handleRpcError (error : Option ConfigdError) (resp : Response) : Option ConfigdError :=
  errorSetf error (resp.result.getStr.getD (str "(null)") ++ str "\n")

/-- How a call ends: the member of the result it returns, or its error return, and the error. -/
abbrev Ended := Option Result × Option ConfigdError

/-- What `get_int`, `get_str`, `get_vector` and `get_map` do once the request is written.
    They differ in the one type they return. -/
def finishCall (want : RespT) (reqId : BitVec 32) (garbage : Option RespT) (jresp : Option Json)
    (error : Option ConfigdError) : Except Fault Ended :=
  match recvResponse reqId garbage jresp with
  | none => .ok (none, errorSetf error (str "Error receiving response"))
  | some resp =>
    if resp.type = some want then .ok (some resp.result, error)
    else
      match resp.type with
      | some .error => .ok (none, handleRpcError error resp)
      | some .mgmterror => do
        let error ← errorSetFromMgmtErrorList error resp.result.getMgmtErrs
        .ok (none, error)
      | _ => .ok (none, error)

/-- One call on a connection: the fate of the request, the uninitialised type of the
    response and what the read loop ends with. -/
structure Exchange where
  delivery : Delivery
  garbage : Option RespT
  jresp : Option Json

def getMember (want : RespT) (conn : Conn) (req : Request) (x : Exchange)
    (error : Option ConfigdError) : Except Fault (Conn × Ended) :=
  match sendRequest conn req x.delivery with
  | (conn, .nothing) => .ok (conn, none, errorSetf error (str "Error sending request"))
  | (conn, _) => do
    let ended ← finishCall want conn.reqId x.garbage x.jresp error
    .ok (conn, ended)

def getInt (conn : Conn) (req : Request) (x : Exchange) (error : Option ConfigdError) :
    Except Fault (Conn × Int × Option ConfigdError) := do
  let (conn, result, error) ← getMember .int conn req x error
  .ok (conn, (result.map Result.getInt).getD (-1), error)

def getStr (conn : Conn) (req : Request) (x : Exchange) (error : Option ConfigdError) :
    Except Fault (Conn × Option Bytes × Option ConfigdError) := do
  let (conn, result, error) ← getMember .string conn req x error
  .ok (conn, result.bind Result.getStr, error)

def getVector (conn : Conn) (req : Request) (x : Exchange) (error : Option ConfigdError) :
    Except Fault (Conn × Option (List Bytes) × Option ConfigdError) := do
  let (conn, result, error) ← getMember .vector conn req x error
  .ok (conn, result.bind Result.getVector, error)

def getMap (conn : Conn) (req : Request) (x : Exchange) (error : Option ConfigdError) :
    Except Fault (Conn × Option Envz.Vector × Option ConfigdError) := do
  let (conn, result, error) ← getMember .map conn req x error
  .ok (conn, result.bind Result.getMap, error)

end VyattaCfg.Client
