/-
  A `Client` (Network/muduo_client/Client.h) and the `MockServer` that it is
  connected to (Network/muduo_server/MockJsdServer.h).

  The client sends a greeting, and then pings and what it is asked to send; the
  server sends back every message in which it finds "ping", and pushes a text
  when its timer runs.  A message is what is in the input buffer when `OnMessage`
  is called: what TCP has delivered so far, whatever the other side has called a
  message.

  `echo_of_run`: nothing is lost, reordered or made up, and what comes to the
  client are the messages with "ping", as the server has seen them, and the
  pushes, in the order in which the server has sent them.
-/
import CppExperiment.Lib.Run
import CppExperiment.MuduoServer.Service

namespace CppExperiment.MuduoServer.Mock
open StdString

/-! ## `MockServer` -/

/-- `buf->retrieve(len)`; `none` if the assertion `len <= readableBytes()` fails. -/
def retrieve (conn : TcpConnection) (len : ℕ) : Option TcpConnection :=
  if len ≤ conn.buf.length then some { conn with buf := conn.buf.drop len } else none

/-- `MockServer::OnMessage(conn, buf, time)` -/
def onMessage (conn : TcpConnection) : Option TcpConnection :=
  let msg := conn.buf
  if found msg "ping" then do
    let conn ← retrieve conn 2
    let conn ← retrieve conn conn.buf.length
    return conn.send msg
  else some { conn with buf := [] }

variable {conn : TcpConnection}

/-- A text in which "ping" is found has at least its length. -/
theorem length_of_found {msg : Str} (h : found msg "ping") : 4 ≤ msg.length := by
  have hinfix : bytes "ping" <:+: msg := by
    by_contra hno
    rw [found, findStr_notInfix hno] at h
    cases h
  exact hinfix.length_le

/-- The message is sent back if it has "ping" in it; the buffer is empty. -/
theorem onMessage_eq : onMessage conn =
    some ⟨[], conn.sent ++ if found conn.buf "ping" then conn.buf else []⟩ := by
  unfold onMessage
  dsimp only
  split_ifs with h
  · have hlen := length_of_found h
    have h2 : retrieve conn 2 = some { conn with buf := conn.buf.drop 2 } := if_pos (by omega)
    have hall : ∀ c : TcpConnection, retrieve c c.buf.length = some { c with buf := [] } := by
      intro c
      rw [retrieve, if_pos le_rfl, List.drop_length]
    rw [h2, Option.bind_eq_bind, Option.bind_some, hall]
    rfl
  · rw [List.append_nil]

/-! ## The client and the server -/

/-- The client's side of the connection. -/
inductive Link
  | connecting
  | connected
  | disconnected
  deriving DecidableEq

/-- A client, the server, and the bytes between them. -/
structure Net where
  link : Link
  /-- what the client has sent -/
  said : Str
  /-- how much of it has come to the server -/
  taken : ℕ
  server : TcpConnection
  /-- the messages that `OnResponse` has printed -/
  got : List Str
  /-- `connection()` was null where it was used -/
  crashed : Bool

/-- The texts that `OnConnect` and `OnTimer` send. -/
def hello : Str := bytes "First hello"
def ping : Str := bytes "This is ping msg"

/-- The text that `MockServer::OnTimer` sends at the time `now`. -/
def pushMsg (now : Str) : Str := bytes "This is push data " ++ now

/-- What happens next. -/
inductive Action
  | connect
  /-- `Client::OnTimer` -/
  | timer
  /-- `Client::SendMsg` -/
  | sendMsg (msg : Str)
  /-- bytes come to the server, which calls `OnMessage` -/
  | serverReads (k : ℕ)
  /-- `MockServer::OnTimer` -/
  | push (now : Str)
  /-- bytes come to the client, which calls `OnResponse` -/
  | clientReads (k : ℕ)
  | disconnect

namespace Net

def init : Net := ⟨.connecting, [], 0, .new, [], false⟩

/-- What is on its way to the server. -/
def toServer (s : Net) : Str := s.said.drop s.taken

/-- What is on its way to the client. -/
def toClient (s : Net) : Str := s.server.sent.drop s.got.flatten.length

/-- `m_Client.connection()->send(msg)`, where `connection()` is null unless the
    client is connected. -/
def send (s : Net) (msg : Str) : Net :=
  if s.link = .connected then { s with said := s.said ++ msg } else { s with crashed := true }

/-- One step; `none` if it is not possible. -/
def step (s : Net) (a : Action) : Option Net :=
  if s.crashed then none
  else match a with
  | .connect =>
    if s.link = .connecting then some ({ s with link := .connected }.send hello) else none
  | .timer => some (s.send ping)
  | .sendMsg msg => some (s.send msg)
  | .serverReads k =>
    if s.link = .connected ∧ 0 < k ∧ k ≤ s.toServer.length then do
      let server ← onMessage { s.server with buf := s.server.buf ++ s.toServer.take k }
      return { s with taken := s.taken + k, server := server }
    else none
  -- the server can have the connection in `m_Conns` before the client knows of it
  | .push now =>
    if s.link ≠ .disconnected then some { s with server := s.server.send (pushMsg now) } else none
  | .clientReads k =>
    if s.link = .connected ∧ 0 < k ∧ k ≤ s.toClient.length then
      some { s with got := s.got ++ [s.toClient.take k] }
    else none
  | .disconnect =>
    if s.link = .connected then some { s with link := .disconnected } else none

/-- The messages that the server has seen. -/
def seen (h : List (Net × Action)) : List Str :=
  h.reverse.filterMap fun x => match x.2 with
    | .serverReads k => some (x.1.toServer.take k)
    | _ => none

/-- What the server sends: a message that it has seen, or a push. -/
inductive Sent
  | echo (msg : Str)
  | push (now : Str)

/-- The bytes that are sent. -/
def Sent.text : Sent → Str
  | .echo msg => msg
  | .push now => pushMsg now

/-- The message that is sent back. -/
def Sent.echoed : Sent → Option Str
  | .echo msg => some msg
  | .push _ => none

/-- What a step makes the server send. -/
def sentBy (s : Net) : Action → Option Sent
  | .serverReads k =>
    if found (s.toServer.take k) "ping" then some (.echo (s.toServer.take k)) else none
  | .push now => some (.push now)
  | .connect | .timer | .sendMsg _ | .clientReads _ | .disconnect => none

/-- What the server has sent, in this order. -/
def sents (h : List (Net × Action)) : List Sent := h.reverse.filterMap fun x => sentBy x.1 x.2

variable {s t : Net} {h : List (Net × Action)} {a : Action} {ms : List Str} {os : List Sent}

theorem seen_cons : seen ((s, a) :: h) = seen h ++ match a with
    | .serverReads k => [s.toServer.take k]
    | _ => [] := by
  unfold seen
  rw [List.reverse_cons, List.filterMap_append]
  congr 1
  cases a <;> rfl

theorem sents_cons : sents ((s, a) :: h) = sents h ++ (sentBy s a).toList := by
  unfold sents
  rw [List.reverse_cons, List.filterMap_append]
  congr 1

/-- The server has seen the messages `ms` and sent `os`. -/
structure Echoes (ms : List Str) (os : List Sent) (s : Net) : Prop where
  taken : ms.flatten = s.said.take s.taken
  taken_le : s.taken ≤ s.said.length
  buf : s.server.buf = []
  sent : s.server.sent = (os.map Sent.text).flatten
  echoes : os.filterMap Sent.echoed = ms.filter (found · "ping")
  got : s.got.flatten <+: s.server.sent
  nonempty : ∀ m ∈ ms, m ≠ []

theorem Echoes.link {l : Link} (hs : Echoes ms os s) : Echoes ms os { s with link := l } :=
  ⟨hs.taken, hs.taken_le, hs.buf, hs.sent, hs.echoes, hs.got, hs.nonempty⟩

theorem Echoes.send {msg : Str} (hs : Echoes ms os s) : Echoes ms os (s.send msg) := by
  unfold Net.send
  split_ifs
  · refine ⟨?_, ?_, hs.buf, hs.sent, hs.echoes, hs.got, hs.nonempty⟩
    · rw [hs.taken, List.take_append_of_le_length hs.taken_le]
    · rw [List.length_append]
      exact Nat.le_add_right_of_le hs.taken_le
  · exact ⟨hs.taken, hs.taken_le, hs.buf, hs.sent, hs.echoes, hs.got, hs.nonempty⟩

/-- The server has seen another message. -/
theorem Echoes.serverReads {k : ℕ} (hs : Echoes ms os s) (hk0 : 0 < k)
    (hk : k ≤ s.toServer.length) :
    Echoes (ms ++ [s.toServer.take k]) (os ++ (sentBy s (.serverReads k)).toList)
      { s with
        taken := s.taken + k
        server := ⟨[], s.server.sent ++
          if found (s.toServer.take k) "ping" then s.toServer.take k else []⟩ } := by
  have hlen : s.toServer.length = s.said.length - s.taken := List.length_drop
  have hle := hs.taken_le
  constructor
  · rw [List.flatten_append, hs.taken, List.flatten_singleton, List.take_add]
    rfl
  · dsimp only
    omega
  · rfl
  · rw [List.map_append, List.flatten_append, hs.sent, sentBy]
    split_ifs with hf
    · simp [Sent.text]
    · simp
  · rw [List.filterMap_append, List.filter_append, hs.echoes, sentBy]
    split_ifs with hf
    · simp [Sent.echoed, hf]
    · simp [hf]
  · exact hs.got.trans (List.prefix_append ..)
  · intro m hm
    rw [List.mem_append, List.mem_singleton] at hm
    rcases hm with hm | rfl
    · exact hs.nonempty m hm
    · rw [← List.length_pos_iff, List.length_take]
      omega

/-- The server has sent a push. -/
theorem Echoes.push {now : Str} (hs : Echoes ms os s) :
    Echoes ms (os ++ [.push now]) { s with server := s.server.send (pushMsg now) } := by
  have hgot := hs.got.trans (List.prefix_append s.server.sent (pushMsg now))
  refine ⟨hs.taken, hs.taken_le, hs.buf, ?_, ?_, hgot, hs.nonempty⟩
  · rw [TcpConnection.send, hs.sent, List.map_append, List.flatten_append]
    simp [Sent.text]
  · rw [List.filterMap_append, hs.echoes]
    simp [Sent.echoed]

theorem Echoes.clientReads {k : ℕ} (hs : Echoes ms os s) :
    Echoes ms os { s with got := s.got ++ [s.toClient.take k] } := by
  refine ⟨hs.taken, hs.taken_le, hs.buf, hs.sent, hs.echoes, ?_, hs.nonempty⟩
  obtain ⟨rest, hrest⟩ := hs.got
  have hto : s.toClient = rest := by rw [toClient, ← hrest, List.drop_left]
  rw [List.flatten_append, List.flatten_singleton, hto]
  exact ⟨rest.drop k, by rw [List.append_assoc, List.take_append_drop]; exact hrest⟩

/-- What a step adds to the messages and to what is sent. -/
theorem echoes_step (hs : Echoes (seen h) (sents h) s) (hst : step s a = some t) :
    Echoes (seen ((s, a) :: h)) (sents ((s, a) :: h)) t := by
  rw [seen_cons, sents_cons]
  unfold step at hst
  split at hst
  · cases hst
  cases a with
  | connect =>
    dsimp only at hst
    split_ifs at hst
    cases hst
    rw [sentBy, Option.toList_none, List.append_nil, List.append_nil]
    exact hs.link.send
  | timer =>
    cases hst
    rw [sentBy, Option.toList_none, List.append_nil, List.append_nil]
    exact hs.send
  | sendMsg msg =>
    cases hst
    rw [sentBy, Option.toList_none, List.append_nil, List.append_nil]
    exact hs.send
  | serverReads k =>
    dsimp only at hst
    split_ifs at hst with hk
    rw [onMessage_eq] at hst
    cases hst
    simpa only [hs.buf, List.nil_append] using hs.serverReads hk.2.1 hk.2.2
  | push now =>
    dsimp only at hst
    split_ifs at hst
    cases hst
    rw [List.append_nil]
    exact hs.push
  | clientReads k =>
    dsimp only at hst
    split_ifs at hst
    cases hst
    rw [sentBy, Option.toList_none, List.append_nil, List.append_nil]
    exact hs.clientReads
  | disconnect =>
    dsimp only at hst
    split_ifs at hst
    cases hst
    rw [sentBy, Option.toList_none, List.append_nil, List.append_nil]
    exact hs.link

theorem echoes_init : Echoes [] [] init :=
  ⟨rfl, Nat.zero_le _, rfl, rfl, rfl, List.prefix_rfl, fun _ hm => by cases hm⟩

/-- What is left of texts that are not empty when some of them are dropped is
    shorter. -/
theorem filter_flatten_eq_iff {p : Str → Bool} (hne : ∀ m ∈ ms, m ≠ []) :
    (ms.filter p).flatten = ms.flatten ↔ ∀ m ∈ ms, p m := by
  induction ms with
  | nil => simp
  | cons m ms ih =>
    rw [List.forall_mem_cons] at hne
    by_cases hp : p m
    · rw [List.filter_cons_of_pos hp, List.flatten_cons, List.flatten_cons,
        List.append_cancel_left_eq, ih hne.2, List.forall_mem_cons]
      simp [hp]
    · rw [List.filter_cons_of_neg hp, List.flatten_cons]
      refine iff_of_false (fun h => ?_) (fun h => hp (h m List.mem_cons_self))
      have hle := (List.filter_sublist (p := p) (l := ms)).flatten.length_le
      rw [h, List.length_append] at hle
      have := List.length_pos_iff.2 hne.1
      omega

/-- Without a push, all that is sent are messages. -/
theorem text_of_echoes (hpush : ∀ now, .push now ∉ os) :
    os.map Sent.text = os.filterMap Sent.echoed := by
  induction os with
  | nil => rfl
  | cons o os ih =>
    rw [List.map_cons, ih fun now hmem => hpush now (List.mem_cons_of_mem o hmem)]
    cases o with
    | echo msg => rfl
    | push now => exact absurd List.mem_cons_self (hpush now)

/-- **The echo.**  What the client has sent is what the server has seen and what
    is on its way.  The client has got, or is about to get, what the server has
    sent: the messages with "ping" and, between them, the pushes.  When nothing is
    on its way and nothing was pushed, the client has got back all it has sent iff
    every message that the server has seen has "ping" in it. -/
theorem echo_of_run (hr : Run step init h s) :
    (seen h).flatten ++ s.toServer = s.said ∧
      s.got.flatten ++ s.toClient = ((sents h).map Sent.text).flatten ∧
      (sents h).filterMap Sent.echoed = (seen h).filter (found · "ping") ∧
      (s.toServer = [] → s.toClient = [] → (∀ now, .push now ∉ sents h) →
        (s.got.flatten = s.said ↔ ∀ m ∈ seen h, found m "ping")) := by
  have hs : Echoes (seen h) (sents h) s := hr.inv_hist (G := fun _ _ => True)
    (I := fun h s => Echoes (seen h) (sents h) s) echoes_init
    (fun _ _ _ _ hs _ hst => echoes_step hs hst) (fun _ _ => trivial)
  have hsaid : (seen h).flatten ++ s.toServer = s.said := by
    rw [hs.taken, toServer, List.take_append_drop]
  have hgot : s.got.flatten ++ s.toClient = ((sents h).map Sent.text).flatten := by
    obtain ⟨rest, hrest⟩ := hs.got
    rw [toClient, ← hs.sent, ← hrest, List.drop_left]
  refine ⟨hsaid, hgot, hs.echoes, fun hserver hclient hpush => ?_⟩
  rw [hserver, List.append_nil] at hsaid
  rw [hclient, List.append_nil, text_of_echoes hpush, hs.echoes] at hgot
  rw [← hsaid, hgot, filter_flatten_eq_iff hs.nonempty]

/-- The greeting and a ping that arrive together come back together, behind a
    push. -/
theorem echo_of_run_together : ∃ h s, Run step init h s ∧
    s.got = [pushMsg [49] ++ hello ++ ping] ∧ (seen h).flatten ++ s.toServer = s.said ∧
    s.got.flatten ++ s.toClient = ((sents h).map Sent.text).flatten ∧
    (sents h).filterMap Sent.echoed = (seen h).filter (found · "ping") ∧
    (s.toServer = [] → s.toClient = [] → (∀ now, .push now ∉ sents h) →
      (s.got.flatten = s.said ↔ ∀ m ∈ seen h, found m "ping")) := by
  have hr : Run step init _ _ := .snoc (a := .clientReads 46) (.snoc (a := .serverReads 27)
    (.snoc (a := .push [49]) (.snoc (a := .timer) (.snoc (a := .connect) .nil rfl) rfl) rfl) rfl)
    rfl
  exact ⟨_, _, hr, by decide +kernel, echo_of_run hr⟩

end Net

end CppExperiment.MuduoServer.Mock
