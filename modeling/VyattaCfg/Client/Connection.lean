import VyattaCfg.Client.Request
import VyattaCfg.Library.Runs

namespace VyattaCfg.Client

open ByteString Relation

inductive Getter where
  | int
  | str
  | vector
  | map
  deriving DecidableEq, Repr

def Getter.want : Getter → RespT
  | .int => .int
  | .str => .string
  | .vector => .vector
  | .map => .map

/-- A request under way. The index counts calls and is no part of the program: it tells
    which call a request and its reply belong to, since ids come back after 2^32 calls. -/
structure Asked where
  index : Nat
  request : Json

/-- A reply under way, or a piece of one: `none` is what one call of `json_loadf` takes
    and rejects. -/
structure Reply where
  index : Nat
  text : Option Json

structure Waiting where
  index : Nat
  getter : Getter
  error : Option ConfigdError

inductive Phase where
  | idle
  | receiving (call : Waiting)
  | dead

/-- A call that has returned: the result it passes on, if any, and the reply it has read. -/
structure Returned where
  index : Nat
  getter : Getter
  result : Option Result
  read : Option Reply

/-- Both ends of one connection: the client, the requests that the server has still to
    answer and the replies that the client has still to read. -/
structure Net where
  conn : Conn
  started : Nat
  phase : Phase
  inbox : List Asked
  outbox : List Reply
  ended : List Returned

def Net.opened (conn : Conn) : Net := ⟨conn, 0, .idle, [], [], []⟩

/-- The server sends back the id it has received. -/
def Echoes (request reply : Json) : Prop :=
  reply.objectGet (str "id") = request.objectGet (str "id")

inductive Step : Net → Net → Prop where
  -- A call fails before anything is written.
  | unsent {n : Net} {conn : Conn} (getter : Getter) (req : Request) (delivery : Delivery)
      (idle : n.phase = .idle) (sent : sendRequest n.conn req delivery = (conn, .nothing)) :
      Step n { n with
        conn, started := n.started + 1, ended := ⟨n.started, getter, none, none⟩ :: n.ended }
  -- The kernel takes a part of the request only: the server has nothing to answer.
  | cut {n : Net} {conn : Conn} (getter : Getter) (req : Request) (delivery : Delivery)
      (error : Option ConfigdError) (idle : n.phase = .idle)
      (sent : sendRequest n.conn req delivery = (conn, .part)) :
      Step n { n with
        conn, started := n.started + 1, phase := .receiving ⟨n.started, getter, error⟩ }
  | send {n : Net} {conn : Conn} {request : Json} (getter : Getter) (req : Request)
      (delivery : Delivery) (error : Option ConfigdError) (idle : n.phase = .idle)
      (sent : sendRequest n.conn req delivery = (conn, .whole request)) :
      Step n { n with
        conn, started := n.started + 1, phase := .receiving ⟨n.started, getter, error⟩,
        inbox := n.inbox ++ [⟨n.started, request⟩] }
  -- The server answers the oldest request, whatever the client is doing.
  | serve {n : Net} {asked : Asked} {rest : List Asked} (reply : Json)
      (oldest : n.inbox = asked :: rest) (echo : Echoes asked.request reply) :
      Step n { n with inbox := rest, outbox := n.outbox ++ [⟨asked.index, some reply⟩] }
  -- The server answers with a text no piece of which `json_loadf` accepts.
  | garble {n : Net} {asked : Asked} {rest : List Asked} (pieces : Nat)
      (oldest : n.inbox = asked :: rest) :
      Step n { n with
        inbox := rest, outbox := n.outbox ++ List.replicate pieces ⟨asked.index, none⟩ }
  -- The read loop of `recv_response` goes round once more.
  | skip {n : Net} {call : Waiting} {index : Nat} {rest : List Reply}
      (waits : n.phase = .receiving call) (next : n.outbox = ⟨index, none⟩ :: rest) :
      Step n { n with outbox := rest }
  | receive {n : Net} {call : Waiting} {index : Nat} {j : Json} {rest : List Reply}
      (garbage : Option RespT) {result : Option Result} {error : Option ConfigdError}
      (waits : n.phase = .receiving call) (next : n.outbox = ⟨index, some j⟩ :: rest)
      (finish : finishCall call.getter.want n.conn.reqId garbage (some j) call.error =
        .ok (result, error)) :
      Step n { n with
        phase := .idle, outbox := rest,
        ended := ⟨call.index, call.getter, result, some ⟨index, some j⟩⟩ :: n.ended }
  -- `merge_messages` reads an absent message.
  | die {n : Net} {call : Waiting} {index : Nat} {j : Json} {rest : List Reply} {fault : Fault}
      (garbage : Option RespT) (waits : n.phase = .receiving call)
      (next : n.outbox = ⟨index, some j⟩ :: rest)
      (finish : finishCall call.getter.want n.conn.reqId garbage (some j) call.error =
        .error fault) :
      Step n { n with phase := .dead, outbox := rest }

def Response.pick (want : RespT) (resp : Response) : Option Result :=
  if resp.type = some want then some resp.result else none

theorem finishCall_result {want : RespT} {reqId : BitVec 32} {garbage : Option RespT}
    {jresp : Option Json} {error after : Option ConfigdError} {result : Option Result}
    (finish : finishCall want reqId garbage jresp error = .ok (result, after)) :
    result = (recvResponse reqId garbage jresp).bind (Response.pick want) := by
  unfold finishCall at finish
  cases received : recvResponse reqId garbage jresp with
  | none => simp_all
  | some resp =>
    simp only [received] at finish
    by_cases wanted : resp.type = some want
    · simp_all [Response.pick]
    · simp only [wanted, if_false] at finish
      have dropped : Response.pick want resp = none := by simp [Response.pick, wanted]
      rw [Option.bind_some, dropped]
      split at finish
      · simp_all
      · cases list : errorSetFromMgmtErrorList error resp.result.getMgmtErrs with
        | error fault => simp [list, bind, Except.bind] at finish
        | ok set => simp_all [bind, Except.bind]
      · simp_all

theorem responseId_of_echo {request reply : Json} (echo : Echoes request reply) :
    responseId reply = responseId request := by
  rw [responseId, responseId, echo]

/-- The signed format loses nothing: the id comes back to the same 32 bits, also from 2^31 on. -/
theorem responseId_packRequest (req : Request) (args : Json) (id : BitVec 32) :
    responseId (packRequest req args id) = some id := by
  have found : (packRequest req args id).objectGet (str "id") =
      some (.integer (id.signExtend 64)) := rfl
  simp only [responseId, found, truncate_signExtend]

theorem sendRequest_whole {conn after : Conn} {req : Request} {delivery : Delivery}
    {request : Json} (sent : sendRequest conn req delivery = (after, .whole request)) :
    responseId request = some after.reqId := by
  unfold sendRequest at sent
  cases args : req.args with
  | none => simp [args] at sent
  | some params =>
    cases delivery <;> simp only [args, Prod.mk.injEq, reduceCtorEq, and_false, Sent.whole.injEq] at sent
    rcases sent with ⟨rfl, rfl⟩
    exact responseId_packRequest req params _

/-- Where the one request of a waiting call can be: at the server, or on its way back, as a
    reply or as pieces to skip. When none of these are left, the call waits for ever. -/
inductive InFlight (n : Net) (call : Waiting) : Prop where
  | garbled (pieces : Nat) (inbox : n.inbox = [])
      (outbox : n.outbox = List.replicate pieces ⟨call.index, none⟩)
  | asked (request : Json) (inbox : n.inbox = [⟨call.index, request⟩]) (outbox : n.outbox = [])
      (own : responseId request = some n.conn.reqId)
  | answered (reply : Json) (inbox : n.inbox = [])
      (outbox : n.outbox = [⟨call.index, some reply⟩]) (own : responseId reply = some n.conn.reqId)

/-- A returned call has read no reply but its own, and passes on what that one holds. -/
structure Returned.Matched (r : Returned) : Prop where
  own : ∀ reply, r.read = some reply → reply.index = r.index
  decoded : ∀ reply, r.read = some reply → ∃ j garbage, reply.text = some j ∧
    r.result = (extractMembers garbage j).bind (Response.pick r.getter.want)
  unread : r.read = none → r.result = none

structure Settled (n : Net) : Prop where
  quiet : (∀ call, n.phase ≠ .receiving call) → n.inbox = [] ∧ n.outbox = []
  flight : ∀ call, n.phase = .receiving call → InFlight n call
  ended : ∀ r ∈ n.ended, r.Matched

theorem settled_opened (conn : Conn) : Settled (Net.opened conn) where
  quiet _ := ⟨rfl, rfl⟩
  flight _ waits := by cases waits
  ended r member := by cases member

theorem Settled.next_reply {n : Net} {call : Waiting} {index : Nat} {reply : Json}
    {rest : List Reply} (settled : Settled n) (waits : n.phase = .receiving call)
    (next : n.outbox = ⟨index, some reply⟩ :: rest) :
    n.inbox = [] ∧ rest = [] ∧ index = call.index ∧ responseId reply = some n.conn.reqId := by
  cases settled.flight call waits with
  | garbled pieces inbox outbox => cases pieces <;> simp [next, List.replicate_succ] at outbox
  | asked request inbox outbox own => simp [outbox] at next
  | answered text inbox outbox own =>
    rw [outbox] at next
    rcases next with ⟨⟨rfl, rfl⟩, rfl⟩
    exact ⟨inbox, rfl, rfl, own⟩

theorem Settled.next_asked {n : Net} {call : Waiting} {asked : Asked} {rest : List Asked}
    (settled : Settled n) (waits : n.phase = .receiving call) (oldest : n.inbox = asked :: rest) :
    rest = [] ∧ responseId asked.request = some n.conn.reqId ∧ asked.index = call.index ∧
      n.outbox = [] := by
  cases settled.flight call waits with
  | garbled pieces inbox outbox => simp [inbox] at oldest
  | answered text inbox outbox own => simp [inbox] at oldest
  | asked request inbox outbox own =>
    rw [inbox] at oldest
    rcases oldest with ⟨rfl, rfl⟩
    exact ⟨rfl, own, rfl, outbox⟩

theorem Settled.next_piece {n : Net} {call : Waiting} {index : Nat} {rest : List Reply}
    (settled : Settled n) (waits : n.phase = .receiving call)
    (next : n.outbox = ⟨index, none⟩ :: rest) :
    n.inbox = [] ∧ ∃ pieces, rest = List.replicate pieces ⟨call.index, none⟩ := by
  cases settled.flight call waits with
  | asked request inbox outbox own => simp [outbox] at next
  | answered text inbox outbox own => simp [outbox] at next
  | garbled pieces inbox outbox =>
    cases pieces with
    | zero => simp [outbox] at next
    | succ pieces =>
      rw [outbox, List.replicate_succ] at next
      rcases next with ⟨-, rfl⟩
      exact ⟨inbox, pieces, rfl⟩

theorem Settled.step {n after : Net} (settled : Settled n) (step : Step n after) :
    Settled after := by
  cases step with
  | unsent getter req delivery idle sent =>
    refine ⟨fun _ => settled.quiet (by simp [idle]), fun call waits => ?_, ?_⟩
    · simp [idle] at waits
    · intro r member
      rcases List.mem_cons.mp member with rfl | member
      · exact ⟨nofun, nofun, fun _ => rfl⟩
      · exact settled.ended r member
  | cut getter req delivery error idle sent =>
    obtain ⟨inbox, outbox⟩ := settled.quiet (by simp [idle])
    refine ⟨fun quiet => absurd rfl (quiet _), fun call waits => ?_, settled.ended⟩
    exact .garbled 0 inbox outbox
  | @send conn request getter req delivery error idle sent =>
    obtain ⟨inbox, outbox⟩ := settled.quiet (by simp [idle])
    refine ⟨fun quiet => absurd rfl (quiet _), fun call waits => ?_, settled.ended⟩
    obtain rfl := Phase.receiving.inj waits
    exact .asked request (by simp [inbox]) outbox (sendRequest_whole sent)
  | @serve asked rest reply oldest echo =>
    refine ⟨fun quiet => ?_, fun call waits => ?_, settled.ended⟩
    · have empty := (settled.quiet quiet).1
      simp [empty] at oldest
    · obtain ⟨rfl, own, same, outbox⟩ := settled.next_asked waits oldest
      exact .answered reply rfl (by simp [outbox, same]) ((responseId_of_echo echo).trans own)
  | @garble asked rest pieces oldest =>
    refine ⟨fun quiet => ?_, fun call waits => ?_, settled.ended⟩
    · have empty := (settled.quiet quiet).1
      simp [empty] at oldest
    · obtain ⟨rfl, own, same, outbox⟩ := settled.next_asked waits oldest
      exact .garbled pieces rfl (by simp [outbox, same])
  | skip waits next =>
    obtain ⟨inbox, pieces, rfl⟩ := settled.next_piece waits next
    refine ⟨fun quiet => absurd waits (quiet _), fun call' waits' => ?_, settled.ended⟩
    obtain rfl := Phase.receiving.inj (waits.symm.trans waits')
    exact .garbled pieces inbox rfl
  | @receive call index j rest garbage result error waits next finish =>
    obtain ⟨inbox, rfl, rfl, own⟩ := settled.next_reply waits next
    refine ⟨fun _ => ⟨inbox, rfl⟩, nofun, fun r member => ?_⟩
    rcases List.mem_cons.mp member with rfl | member
    · refine ⟨?_, ?_, nofun⟩
      · intro reply held
        cases held
        rfl
      · intro reply held
        cases held
        refine ⟨j, garbage, rfl, ?_⟩
        rw [finishCall_result finish, recvResponse_own own]
    · exact settled.ended r member
  | die garbage waits next finish =>
    obtain ⟨inbox, rfl, -, -⟩ := settled.next_reply waits next
    exact ⟨fun _ => ⟨inbox, rfl⟩, nofun, settled.ended⟩

theorem settled_run {conn : Conn} {n : Net} (run : ReflTransGen Step (Net.opened conn) n) :
    Settled n :=
  Runs.invariant_of_step (fun _ _ settled step => settled.step step) run (settled_opened conn)

theorem call_steps {n : Net} {request j : Json} {conn after : Conn} {result : Option Result}
    {error' : Option ConfigdError} (getter : Getter) (req : Request) (garbage : Option RespT)
    (error : Option ConfigdError) (idle : n.phase = .idle) (inbox : n.inbox = []) (outbox : n.outbox = [])
    (sent : sendRequest n.conn req .written = (conn, .whole request))
    (echo : Echoes request j)
    (called : getMember getter.want n.conn req ⟨.written, garbage, some j⟩ error =
      .ok (after, result, error')) :
    ReflTransGen Step n ⟨after, n.started + 1, .idle, [], [],
      ⟨n.started, getter, result, some ⟨n.started, some j⟩⟩ :: n.ended⟩ := by
  rcases n with ⟨conn0, started, phase, inbox0, outbox0, ended⟩
  simp only at idle inbox outbox sent called ⊢
  subst idle inbox outbox
  have finish : finishCall getter.want conn.reqId garbage (some j) error = .ok (result, error') ∧
      conn = after := by
    simp only [getMember, sent] at called
    cases ended : finishCall getter.want conn.reqId garbage (some j) error with
    | error fault => simp [ended, bind, Except.bind] at called
    | ok pair => simp_all [bind, Except.bind]
  rcases finish with ⟨finish, rfl⟩
  have asked := Step.send (n := ⟨conn0, started, .idle, [], [], ended⟩) getter req .written error rfl sent
  have answered := Step.serve (n := ⟨conn, started + 1, .receiving ⟨started, getter, error⟩,
    [⟨started, request⟩], [], ended⟩) j rfl echo
  have received := Step.receive (n := ⟨conn, started + 1, .receiving ⟨started, getter, error⟩,
    [], [⟨started, some j⟩], ended⟩) garbage rfl rfl finish
  exact .trans (.single asked) (.trans (.single answered) (.single received))

structure OwnReplies (n : Net) : Prop where
  read : ∀ r ∈ n.ended, ∀ reply, r.read = some reply → reply.index = r.index
  value : ∀ r ∈ n.ended, ∀ v, r.result = some v → ∃ garbage j,
    r.read = some ⟨r.index, some j⟩ ∧ extractMembers garbage j = some ⟨some r.getter.want, v⟩
  accepted : ∀ r ∈ n.ended, ∀ reply j, r.read = some reply → reply.text = some j →
    ∃ garbage, ∀ resp, extractMembers garbage j = some resp →
      resp.type = some r.getter.want → r.result = some resp.result
  quiet : (∀ call, n.phase ≠ .receiving call) → n.inbox = [] ∧ n.outbox = []

theorem own_replies_run {conn : Conn} {n : Net} (run : ReflTransGen Step (Net.opened conn) n) :
    OwnReplies n := by
  have settled := settled_run run
  refine ⟨fun r member => (settled.ended r member).own, fun r member v passed => ?_,
    fun r member reply j read text => ?_, settled.quiet⟩
  · have matched := settled.ended r member
    cases read : r.read with
    | none => simp [matched.unread read] at passed
    | some reply =>
      obtain ⟨j, garbage, text, decoded⟩ := matched.decoded reply read
      rw [passed, eq_comm, Option.bind_eq_some_iff] at decoded
      rcases decoded with ⟨⟨type, result⟩, members, picked⟩
      simp only [Response.pick, Option.ite_none_right_eq_some, Option.some.injEq] at picked
      rcases picked with ⟨rfl, rfl⟩
      refine ⟨garbage, j, ?_, members⟩
      rw [← matched.own reply read, ← text]
  · obtain ⟨j', garbage, text', decoded⟩ := (settled.ended r member).decoded reply read
    obtain rfl : j' = j := Option.some.inj (text'.symm.trans text)
    refine ⟨garbage, fun resp members wanted => ?_⟩
    rw [decoded, members, Option.bind_some, Response.pick, if_pos wanted]

/-- The id passes 2^31: it goes out as -2^31, comes back as the same integer and is accepted. -/
theorem own_replies_run_signed : ∃ n, n.conn.reqId = 0x80000000 ∧
    n.ended.map Returned.result = [some (.intVal 1)] ∧ OwnReplies n := by
  have run : ReflTransGen Step (Net.opened ⟨[], 0x7fffffff⟩) _ :=
    call_steps (j := .object [(str "result", .bool true), (str "id", .integer (BitVec.ofInt 64 (-2 ^ 31)))])
      .int ⟨str "SessionExists", some (.array [])⟩ none none rfl rfl rfl rfl (by unfold Echoes; rfl) rfl
  exact ⟨_, rfl, rfl, own_replies_run run⟩

end VyattaCfg.Client
