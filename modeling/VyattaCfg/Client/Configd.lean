import VyattaCfg.Client.Api

namespace VyattaCfg.Client

open ByteString

/-- The answer of a request whose caller reads the error, too. The process dies of an error
    list in which a message is absent. -/
inductive Answer (α : Type) where
  | given (value : α)
  | refused (text : Option Bytes)
  | died

/-- The answers of configd to the requests of one program run. A NULL result is `none`. -/
structure Configd where
  nodeGet : Db → Bytes → Option (List Bytes)
  nodeExists : Db → Bytes → Int
  nodeGetStatus : Db → Bytes → Int
  nodeGetType : Bytes → Int
  tmplGet : Bytes → Option Envz.Vector
  tmplGetAllowed : Bytes → Answer (List Bytes)
  getHelp : Bool → Bytes → Option Envz.Vector
  set : Bytes → Answer Bytes
  sessExists : Int

def Ret.getInt : Ret → Int
  | .int value => value
  | _ => -1

def Ret.getStr : Ret → Option Bytes
  | .str value => value
  | _ => none

def Ret.getVector : Ret → Option (List Bytes)
  | .vector value => value
  | _ => none

def Ret.getMap : Ret → Option Envz.Vector
  | .map value => value
  | _ => none

section Served

variable (utf8 : Bytes → Bool) (conn : Conn)

def Rpc.ask (rpc : Rpc) (x : Exchange) : Ret :=
  match rpc.run utf8 conn x none with
  | .ok (_, ret, _) => ret
  | .error _ => rpc.ending.failure

def Rpc.askReported {α : Type} (rpc : Rpc) (x : Exchange) (get : Ret → Option α) : Answer α :=
  match rpc.run utf8 conn x (some {}) with
  | .ok (_, ret, error) =>
    match get ret with
    | some value => .given value
    | none => .refused (error.bind ConfigdError.text)
  | .error _ => .died

def Configd.served (server : Rpc → Exchange) : Configd :=
  let ask rpc := Rpc.ask utf8 conn rpc (server rpc)
  { nodeGet db cpath := (ask (configdNodeGet conn db cpath)).getVector
    nodeExists db cpath := (ask (configdNodeExists conn db cpath)).getInt
    nodeGetStatus db cpath := (ask (configdNodeGetStatus conn db cpath)).getInt
    nodeGetType cpath := (ask (configdNodeGetType conn cpath)).getInt
    tmplGet cpath := (ask (configdTmplGet cpath)).getMap
    tmplGetAllowed cpath :=
      let rpc := configdTmplGetAllowed conn cpath
      rpc.askReported utf8 conn (server rpc) Ret.getVector
    getHelp fromSchema cpath := (ask (configdGetHelp conn fromSchema cpath)).getMap
    set cpath :=
      let rpc := configdSet conn cpath
      rpc.askReported utf8 conn (server rpc) Ret.getStr
    sessExists := (ask (configdSessExists conn)).getInt }

end Served

def vectorReply (id : BitVec 32) (values : List Bytes) : Json :=
  .object [(str "result", .array (values.map .string)), (str "id", .integer (id.signExtend 64))]

theorem responseId_vectorReply (id : BitVec 32) (values : List Bytes) :
    responseId (vectorReply id values) = some id := by
  have found : (vectorReply id values).objectGet (str "id") = some (.integer (id.signExtend 64)) := rfl
  rw [responseId, found]
  exact congrArg some (truncate_signExtend id)

theorem jarrayToVector_strings (values : List Bytes) :
    jarrayToVector (.array (values.map .string)) = some values := by
  simp only [jarrayToVector, Json.items, List.mapM_map]
  induction values with
  | nil => rfl
  | cons value values ih =>
    rw [List.mapM_cons, ih]
    rfl

theorem extractMembers_vectorReply (garbage : Option RespT) (id : BitVec 32) (values : List Bytes) :
    extractMembers garbage (vectorReply id values) = some ⟨some .vector, .vector values⟩ := by
  have result : extractMembers garbage (vectorReply id values) =
      (jarrayToVector (.array (values.map .string))).map fun v => ⟨some .vector, .vector v⟩ := rfl
  rw [result, jarrayToVector_strings]
  rfl

/-- Any vector of strings can be the answer to `configd_node_get`. -/
theorem served_nodeGet (utf8 : Bytes → Bool) (conn : Conn) (server : Rpc → Exchange) (db : Db) (cpath : Bytes)
    (values : List Bytes) (packed : utf8 conn.sessionId ∧ utf8 cpath)
    (reply : server (configdNodeGet conn db cpath) =
      ⟨.written, none, some (vectorReply (conn.reqId + 1) values)⟩) :
    (Configd.served utf8 conn server).nodeGet db cpath = some values := by
  have args : packArgs utf8 (configdNodeGet conn db cpath).args =
      some (.array [.integer (db.code.signExtend 64), .string conn.sessionId, .string cpath]) := by
    simp [packArgs, configdNodeGet, Arg.json, packed.1, packed.2]
  have finish : finishCall .vector (conn.reqId + 1) none (some (vectorReply (conn.reqId + 1) values)) none =
      .ok (some (.vector values), none) := by
    simp only [finishCall, recvResponse_own (responseId_vectorReply _ _), extractMembers_vectorReply, if_true]
  have got : getMember .vector conn ⟨str "Get", some (.array [.integer (db.code.signExtend 64),
      .string conn.sessionId, .string cpath])⟩ ⟨.written, none, some (vectorReply (conn.reqId + 1) values)⟩
      none = .ok ({ conn with reqId := conn.reqId + 1 }, some (.vector values), none) := by
    simp only [getMember, sendRequest, finish]
    rfl
  have ran := Rpc.run_packed args conn ⟨.written, none, some (vectorReply (conn.reqId + 1) values)⟩ none
  simp only [Configd.served, Rpc.ask, reply, ran]
  rw [show (configdNodeGet conn db cpath).ending = .vector from rfl]
  simp only [Ending.call, Ending.want, configdNodeGet, errorInit, Option.map_none, got]
  rfl

end VyattaCfg.Client
