/-
  The mock `Service` (Network/muduo_server/Service.h): its replies to what
  arrives on a connection.

  `OnMessage` takes all bytes of the input buffer as one message, searches it for
  a marker and sends one reply.  Nothing says where a request ends.

  * `replies_eq_iff`: every buffer gets the reply to its kind, one by one, and two
    ways of cutting a stream into buffers have the same replies iff the buffers
    are of the same kinds; `merged_requests_lose_reply` are two ways that do not.
-/
import CppExperiment.Lib.Code
import CppExperiment.Lib.StdString

namespace CppExperiment.MuduoServer
open InformationTheory StdString

/-- A `std::string`. -/
abbrev Str := List UInt8

/-- A connection: its input buffer and what has been sent on it. -/
structure TcpConnection where
  buf : Str
  sent : Str

namespace TcpConnection

def new : TcpConnection := ⟨[], []⟩

/-- `conn->send(text)` -/
def send (conn : TcpConnection) (text : Str) : TcpConnection :=
  { conn with sent := conn.sent ++ text }

/-- `buf->retrieveAllAsString()` -/
def retrieveAllAsString (conn : TcpConnection) : Str × TcpConnection :=
  (conn.buf, { conn with buf := [] })

end TcpConnection

/-- `msg.find(text) != msg.npos` -/
def found (msg : Str) (text : String) : Bool := (findStr msg (bytes text)).isSome

/-! ## The replies -/

/-- The text that `OnHeart` sends. -/
def heartRsp : String := "A|PC;IIP=172.25.2.43;HDV6.5.7.12;|1|Y|"

/-- The text that `OnLogin` sends. -/
def loginRsp : String :=
  "A|PC;IIP=172.25.2.43;HDV6.5.7.12;|1|Y|" ++
  "9002050018|0.0000|0.00| |20240109|172.25.2.43,172.190.112.36|20240108|15:53:33|7|2|0|1| |" ++
  "1000100000|2.1.2.0r| | |20240109| | | | |2.1.2.0r| |V8.2.1.2.0|1100000000| | | | | | |1|1|1|" ++
  " | |6785913|0|1;20240109;08:52:28|09:41:16| |0| "

/-- The texts that `OnCommonRsp` sends. -/
def errorRsp : String := "A|PC;IIP=172.25.2.43;HDV6.5.7.12;|1|N|1|This is error msg|1|"
def rsp6014 : String := "A|any|1|Y|This is response for 6014|"
def rsp6012 : String := "A|any|1|Y|Are you query money detail?|"

/-! ## The service -/

/-- `OnCommonRsp(conn, msg)` -/
def onCommonRsp (conn : TcpConnection) (msg : Str) : TcpConnection :=
  if found msg "|6014|" then conn.send (bytes rsp6014)
  else if found msg "6012" then conn.send (bytes rsp6012)
  else conn.send (bytes errorRsp)

/-- `OnLogin(conn, msg)` -/
def onLogin (conn : TcpConnection) (_msg : Str) : TcpConnection := conn.send (bytes loginRsp)

/-- `OnHeart(conn, msg)` -/
def onHeart (conn : TcpConnection) (_msg : Str) : TcpConnection := conn.send (bytes heartRsp)

/-- `OnMessage(conn, buf, time)` -/
def onMessage (conn : TcpConnection) : TcpConnection :=
  let (msg, conn) := conn.retrieveAllAsString
  if found msg "|6011|" then onLogin conn msg
  else if found msg "|6031|" then onHeart conn msg
  else onCommonRsp conn msg

/-- Bytes arrive, and `OnMessage` is called. -/
def receive (conn : TcpConnection) (chunk : Str) : TcpConnection :=
  onMessage { conn with buf := conn.buf ++ chunk }

/-- A stream arrives in chunks. -/
def receiveAll (conn : TcpConnection) (chunks : List Str) : TcpConnection :=
  chunks.foldl receive conn

/-! ## One reply for each buffer -/

/-- The kind of a message, by the first marker that is found in it. -/
inductive Kind
  | login
  | heart
  | q6014
  | q6012
  | other
  deriving DecidableEq

instance : Fintype Kind where
  elems := {.login, .heart, .q6014, .q6012, .other}
  complete k := by cases k <;> decide

/-- The reply to a kind of message. -/
def Kind.rsp : Kind → Str
  | login => bytes loginRsp
  | heart => bytes heartRsp
  | q6014 => bytes rsp6014
  | q6012 => bytes rsp6012
  | other => bytes errorRsp

/-- The kind of a message. -/
def kind (msg : Str) : Kind :=
  if found msg "|6011|" then .login
  else if found msg "|6031|" then .heart
  else if found msg "|6014|" then .q6014
  else if found msg "6012" then .q6012
  else .other

variable {conn : TcpConnection} {chunks cs ds : List Str}

/-- A call takes the whole buffer and sends the reply to its kind. -/
theorem onMessage_eq : onMessage conn = ⟨[], conn.sent ++ (kind conn.buf).rsp⟩ := by
  unfold onMessage kind TcpConnection.retrieveAllAsString
  dsimp only
  split_ifs with h1 h2 h3 h4
  · rfl
  · rfl
  · rw [onCommonRsp, if_pos h3]
    rfl
  · rw [onCommonRsp, if_neg h3, if_pos h4]
    rfl
  · rw [onCommonRsp, if_neg h3, if_neg h4]
    rfl

/-- **The replies** are those to the chunks, one by one. -/
theorem receiveAll_eq (hbuf : conn.buf = []) :
    receiveAll conn chunks = ⟨[], conn.sent ++ (chunks.map kind).flatMap Kind.rsp⟩ := by
  induction chunks generalizing conn with
  | nil =>
    obtain ⟨buf, sent⟩ := conn
    cases hbuf
    simp [receiveAll]
  | cons c chunks ih =>
    have hc : receive conn c = ⟨[], conn.sent ++ (kind c).rsp⟩ := by
      rw [receive, onMessage_eq, hbuf, List.nil_append]
    rw [receiveAll, List.foldl_cons, hc, ← receiveAll, ih rfl, List.map_cons, List.flatMap_cons,
      List.append_assoc]

/-! ## Two ways of cutting a stream -/

theorem rsp_injective : Function.Injective Kind.rsp := by
  intro j k
  revert j k
  decide +kernel

/-- The replies can be told apart: the reply to a login starts with the one to a
    heartbeat, but does not go on as a reply starts. -/
theorem uniquelyDecodable_rsp : UniquelyDecodable (Set.range Kind.rsp) := by
  have hstart : ∀ k : Kind, k.rsp.head? = some 65 := by decide +kernel
  have hext : ∀ j k : Kind, ¬ j.rsp ++ [65] <+: k.rsp := by decide +kernel
  refine uniquelyDecodable_of_start (a := 65) ?_ ?_
  · rintro _ ⟨k, rfl⟩
    exact hstart k
  · rintro _ ⟨j, rfl⟩ _ ⟨k, rfl⟩
    exact hext j k

/-- **Chunks.**  Every buffer gets one reply, that to its kind, and is empty
    afterwards.  Two ways of cutting a stream into buffers have the same replies
    iff their buffers are of the same kinds, one by one. -/
theorem replies_eq_iff : receiveAll .new cs = ⟨[], (cs.map fun c => (kind c).rsp).flatten⟩ ∧
    ((receiveAll .new cs).sent = (receiveAll .new ds).sent ↔ cs.map kind = ds.map kind) := by
  have hreplies (cs : List Str) : receiveAll .new cs = ⟨[], (cs.map kind).flatMap Kind.rsp⟩ :=
    receiveAll_eq rfl
  rw [hreplies, hreplies]
  constructor
  · rw [List.flatMap, List.map_map]
    rfl
  · exact flatMap_eq_iff rsp_injective uniquelyDecodable_rsp

/-- Two heartbeats that arrive together get one reply. -/
theorem merged_requests_lose_reply : ∃ cs ds : List Str, cs.flatten = ds.flatten ∧
    [] ∉ cs ∧ [] ∉ ds ∧ (receiveAll .new cs).sent ≠ (receiveAll .new ds).sent :=
  ⟨[bytes "R|any|6031|", bytes "R|any|6031|"], [bytes "R|any|6031|R|any|6031|"],
    by decide +kernel, by decide +kernel, by decide +kernel, by decide +kernel⟩

end CppExperiment.MuduoServer
