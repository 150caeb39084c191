/-
  Replies to the requests of a `SyncBlockedClinet`.

  The server answers every request once, in order, with a reply that arrives
  whole, at any time later.  A call that gives up after three timeouts leaves
  the connection open and its reply outstanding, and the next call takes this
  reply for its own.

  * `call_iff`: all calls from a reachable state give the right reply exactly if
    the first reply not yet read, cut at its first NUL, is the right one.
  * `own_reply_of_run`: in a run whose calls all start in such states, every
    successful call returns the reply to its own request;
    `timeout_shifts_replies` is a failing run.
-/
import CppExperiment.Lib.Run
import CppExperiment.SyncBlockedClient.Client

namespace CppExperiment.SyncBlockedClient
open CppExperiment.Prog

/-! ## The server and the connection -/

/-- The connection to the server: the requests sent, how many of their replies
    have arrived, and how many of these have been read. -/
structure Conn where
  requests : List (List UInt8)
  arrived : ℕ
  read : ℕ
  read_le : read ≤ arrived
  arrived_le : arrived ≤ requests.length

/-- A new connection. -/
def Conn.new : Conn := ⟨[], 0, 0, le_rfl, le_rfl⟩

/-- A server: its reply to the `n`-th request of a connection. -/
structure Server where
  reply : ℕ → List UInt8 → List UInt8
  reply_ne : ∀ n req, reply n req ≠ []

/-- No reply has been read before there are requests. -/
theorem Conn.read_eq_zero {w : Conn} (h : w.requests = []) : w.read = 0 := by
  have h1 := w.read_le
  have h2 := w.arrived_le
  rw [h, List.length_nil] at h2
  omega

/-- Replies arrive. -/
def Conn.Deliver (w w' : Conn) : Prop :=
  w'.requests = w.requests ∧ w'.read = w.read ∧ w.arrived ≤ w'.arrived

/-- What the system calls answer on a connection to the server.  A `recv` gets
    one whole reply, the first that has not been read; it may time out as long
    as there is none. -/
def Env (V : Server) (w : Conn) : (c : Sys) → Ans c → Conn → Prop
  | .connect _ _ _, r, w' => if (r : ℤ) < 0 then w.Deliver w' else w' = .new
  | .send _ req, .ok n, w' =>
    n = req.length ∧ w'.requests = w.requests ++ [req] ∧ w'.read = w.read ∧ w.arrived ≤ w'.arrived
  | .recv _ _, .ok bs, w' =>
    (∃ req ∈ w.requests[w.read]?, bs = V.reply w.read req) ∧ w'.requests = w.requests ∧
      w'.read = w.read + 1 ∧ w.arrived ≤ w'.arrived
  | .recv _ _, .error errcode, w' =>
    w.Deliver w' ∧ (errcode = EAGAIN → w'.arrived = w'.read)
  | _, _, w' => w.Deliver w'

/-! ## Calls -/

/-- The client and its connection. -/
structure State where
  client : Client
  conn : Conn

/-- A new client. -/
def State.init (servAddr : String) (servPort : ℕ) (timeout : ℤ) (perPkgSizeLimit : ℕ) : State :=
  ⟨.new servAddr servPort timeout perPkgSizeLimit, .new⟩

/-- A call of `SendAndRecv` and what it returned. -/
structure Call where
  request : List UInt8
  result : Result

/-- A call takes the client and its connection from `s` to `t`. -/
def Step (V : Server) (s : State) (a : Call) (t : State) : Prop :=
  Exec (Env V) s.conn (s.client.sendAndRecv a.request) (some (a.result, t.client)) t.conn

/-- The reply to the request of a call that starts in `s`. -/
def State.reply (V : Server) (s : State) (request : List UInt8) : List UInt8 :=
  V.reply s.conn.requests.length request

/-- A successful call returns the reply to its own request. -/
def OwnReply (V : Server) (s : State) (a : Call) : Prop :=
  a.result.1 = true → a.result.2 = s.reply V a.request

/-- The first reply that has not been read when a call starts, its own one if
    there is no other. -/
def State.nextReply (V : Server) (s : State) (request : List UInt8) : List UInt8 :=
  V.reply s.conn.read ((s.conn.requests ++ [request])[s.conn.read]?.getD [])

/-- The condition of a call: as a C string, the first reply that has not been
    read is its own. -/
def NextIsOwn (V : Server) (s : State) (request : List UInt8) : Prop :=
  cstr (s.nextReply V request) = s.reply V request

/-- No reply to an earlier request is outstanding, and the reply has no NUL. -/
theorem nextIsOwn_of_read {V : Server} {s : State} {request : List UInt8}
    (h : s.conn.read = s.conn.requests.length) (h0 : 0 ∉ s.reply V request) :
    NextIsOwn V s request := by
  have hn : s.nextReply V request = s.reply V request := by
    rw [State.nextReply, h, List.getElem?_concat_length]
    rfl
  rw [NextIsOwn, hn, cstr_eq_self h0]

/-- What holds between calls: the buffer has its size, which every reply is
    shorter than, and there are no requests without a connection. -/
structure Inv (V : Server) (limit : ℕ) (s : State) : Prop where
  buff : s.client.cachedBuff.length = limit
  conn : s.client.isConnected = false → s.conn.requests = []
  short : ∀ n req, (V.reply n req).length < limit

/-! ## What a call can do -/

section
variable {V : Server} {limit : ℕ} {s t : State} {c : Client} {w w' : Conn} {bs req : List UInt8}

/-- The buffer with the terminator is a C string that ends where the reply
    does, or earlier. -/
theorem cache_eq (h : bs.length < c.cachedBuff.length) :
    ∃ b, c.cache bs = pure { c with cachedBuff := b } ∧ b.length = c.cachedBuff.length ∧
      0 ∈ b ∧ cstr b = cstr bs := by
  refine ⟨_, if_pos h, ?_, ?_, ?_⟩
  · simp only [List.length_set, List.length_append, List.length_drop]; omega
  all_goals
    rw [List.set_append_right _ _ le_rfl, Nat.sub_self, List.drop_eq_getElem_cons h,
      List.set_cons_zero]
  · simp
  · exact cstr_append_zero _ _

/-- A connection that is made is new. -/
theorem wp_connect (hw : w.requests = []) :
    wp (Env V) c.createConnect (fun r w' => r.2.cachedBuff = c.cachedBuff ∧
      (r.1 = true → r.2.isConnected = true) ∧ w'.requests = []) w := by
  refine wp_mono (wp_createConnect (J := fun _ w' => w'.requests = []) ?_ ?_) ?_
  · intro s w' h
    exact h.1.trans hw
  · intro s w₁ c x w₂ h hw₁ hc
    cases c with
    | inetPton addr => exact h.1.trans hw₁
    | setsockopt sock opt => exact h.1.trans hw₁
    | time => exact h.1.trans hw₁
    | connect sock addr port =>
      change if x < 0 then _ else _ at h
      split_ifs at h
      · exact h.1.trans hw₁
      · rw [h]
        rfl
    | _ => exact hc.elim
  · rintro r w' ⟨h, hcon, hb, -⟩
    exact ⟨hb, hcon, h⟩

/-- What `RecvData` receives is the first reply that has not been read. -/
theorem wp_recvLoop (hs : ∀ n req, (V.reply n req).length < c.cachedBuff.length) (n : ℕ) :
    wp (Env V) (c.recvLoop n) (fun r w' => r.2.cachedBuff.length = c.cachedBuff.length ∧
      r.2.isConnected = c.isConnected ∧ w'.requests = w.requests ∧
      (r.1.1 = true → 0 ∈ r.2.cachedBuff ∧ ∃ req ∈ w.requests[w.read]?,
        cstr r.2.cachedBuff = cstr (V.reply w.read req))) w := by
  induction n generalizing c w with
  | zero => exact wp_pure ⟨rfl, rfl, rfl, nofun⟩
  | succ n ih =>
    apply wp_ask_bind
    intro x w₁ h₁
    cases x with
    | error errcode =>
      apply wp_ask_bind
      intro msg w₂ h₂
      dsimp only
      split_ifs
      · -- a timeout: the next try finds the same requests, with as many replies read
        apply wp_ask_bind
        intro _ w₃ h₃
        have hreq : w₃.requests = w.requests := h₃.1.trans (h₂.1.trans h₁.1.1)
        have hread : w₃.read = w.read := h₃.2.1.trans (h₂.2.1.trans h₁.1.2.1)
        rw [← hreq, ← hread]
        exact ih hs
      · exact wp_pure ⟨rfl, rfl, h₂.1.trans h₁.1.1, nofun⟩
    | ok bs =>
      obtain ⟨⟨req, hreq, rfl⟩, hreqs, -⟩ := h₁
      obtain ⟨b, hb, hlen, h0, hcstr⟩ := cache_eq (c := c) (hs w.read req)
      cases hrep : V.reply w.read req with
      | nil => exact absurd hrep (V.reply_ne _ _)
      | cons x xs =>
        rw [hrep] at hb
        refine wp_bind ?_
        rw [hb]
        exact wp_pure (wp_pure ⟨hlen, rfl, hreqs, fun _ => ⟨h0, req, hreq, hcstr⟩⟩)

/-- The exchange of a connected client. -/
theorem wp_exchange (hc : c.isConnected = true)
    (hs : ∀ n req, (V.reply n req).length < c.cachedBuff.length) :
    wp (Env V) (c.exchange req) (fun r _ => r.2.cachedBuff.length = c.cachedBuff.length ∧
      r.2.isConnected = true ∧ (r.1.1 = true →
        r.1.2 = cstr (V.reply w.read ((w.requests ++ [req])[w.read]?.getD [])))) w := by
  apply wp_ask_bind
  intro x w₁ h₁
  cases x with
  | error errcode =>
    apply wp_ask_bind
    intro msg w₂ _
    exact wp_pure ⟨rfl, hc, nofun⟩
  | ok n =>
    obtain ⟨-, hreqs, hread, -⟩ := h₁
    refine wp_bind (wp_mono (wp_recvLoop hs 3) ?_)
    rintro ⟨⟨ok, ret⟩, c₂⟩ w₂ ⟨hlen, hcon, -, hok⟩
    apply wp_ask_bind
    intro now w₃ h₃
    cases ok with
    | false => exact wp_pure ⟨hlen, hcon.trans hc, nofun⟩
    | true =>
      obtain ⟨h0, q, hq, hcstr⟩ := hok rfl
      dsimp only
      rw [if_pos rfl, if_pos h0]
      refine wp_pure ⟨hlen, hcon.trans hc, fun _ => ?_⟩
      rw [hreqs, hread] at hq
      rw [hq, ← hread]
      exact hcstr

/-- **A call**: whatever its environment does, it is defined and keeps the
    invariant, and if it succeeds, it returns the first reply not yet read. -/
theorem wp_sendAndRecv (hI : Inv V limit s) :
    wp (Env V) (s.client.sendAndRecv req) (fun r w' => Inv V limit ⟨r.2, w'⟩ ∧
      (r.1.1 = true → r.1.2 = cstr (s.nextReply V req))) s.conn := by
  have hs : ∀ n req, (V.reply n req).length < s.client.cachedBuff.length := by
    rw [hI.buff]; exact hI.short
  unfold Client.sendAndRecv
  cases hc : s.client.isConnected with
  | true =>
    rw [if_pos rfl]
    refine wp_mono (wp_exchange hc hs) ?_
    rintro r w' ⟨hlen, hcon, hok⟩
    refine ⟨⟨hlen.trans hI.buff, ?_, hI.short⟩, hok⟩
    intro hno
    exact absurd (hno.symm.trans hcon) Bool.false_ne_true
  | false =>
    have hreqs := hI.conn hc
    rw [if_neg Bool.false_ne_true]
    refine wp_bind (wp_mono (wp_connect hreqs) ?_)
    rintro ⟨ok, c₁⟩ w₁ ⟨hb, hcon, hw₁⟩
    cases ok with
    | false =>
      have hlen := (congrArg List.length hb).trans hI.buff
      exact wp_pure ⟨⟨hlen, fun _ => hw₁, hI.short⟩, nofun⟩
    | true =>
      have hs₁ : ∀ n req, (V.reply n req).length < c₁.cachedBuff.length := by
        rw [show c₁.cachedBuff = _ from hb]; exact hs
      have hnext : s.nextReply V req =
          V.reply w₁.read ((w₁.requests ++ [req])[w₁.read]?.getD []) := by
        rw [State.nextReply, hreqs, hw₁, Conn.read_eq_zero hreqs, Conn.read_eq_zero hw₁]
      rw [hnext]
      refine wp_mono (wp_exchange (hcon rfl) hs₁) ?_
      rintro r w' ⟨hlen, hcon', hok⟩
      refine ⟨⟨?_, ?_, hI.short⟩, hok⟩
      · exact hlen.trans ((congrArg List.length hb).trans hI.buff)
      · intro hno
        exact absurd (hno.symm.trans hcon') Bool.false_ne_true

/-! ## What a call may do -/

/-- Nothing arrives meanwhile. -/
theorem Conn.deliver_refl (w : Conn) : w.Deliver w := ⟨rfl, rfl, le_rfl⟩

theorem env_connect (sock : ℤ) (addr : String) (port : ℕ) :
    Env V w (.connect sock addr port) (0 : ℤ) Conn.new := by
  change if (0 : ℤ) < 0 then w.Deliver .new else Conn.new = .new
  rw [if_neg (by decide)]

/-- A connection can be made. -/
theorem exec_connect : ∃ c', Exec (Env V) w c.createConnect (some (true, c')) Conn.new ∧
    c'.isConnected = true ∧ c'.cachedBuff = c.cachedBuff := by
  let next : Conn → (c : Sys) → Ans c → Conn
    | _, .connect _ _ _, _ => .new
    | w, _, _ => w
  have hH : ∀ w c x, c.Ok x → Env V w c x (next w c x) := by
    intro w c x hx
    cases c with
    | connect sock addr port =>
      cases hx
      exact env_connect sock addr port
    | socket => exact w.deliver_refl
    | inetPton addr => exact w.deliver_refl
    | setsockopt sock opt => exact w.deliver_refl
    | time => exact w.deliver_refl
    | _ => exact hx.elim
  obtain ⟨c', w₁, he, hcon, hb⟩ := exec_createConnect hH c w
  exact ⟨c', he, hcon, hb⟩

/-- A request can be sent. -/
theorem exec_send (req : List UInt8) : ∃ w₁ : Conn, Exec (Env V) w (sys (.send c.socket req))
    (some (.ok req.length)) w₁ ∧ w₁.requests = w.requests ++ [req] ∧ w₁.read = w.read ∧
      w₁.arrived = w.arrived := by
  have hle : w.arrived ≤ (w.requests ++ [req]).length := by
    have := w.arrived_le
    rw [List.length_append]; omega
  exact ⟨⟨w.requests ++ [req], w.arrived, w.read, w.read_le, hle⟩,
    exec_ask ⟨rfl, rfl, rfl, le_rfl⟩, rfl, rfl, rfl⟩

/-- The first reply not yet read can be received at once. -/
theorem exec_recvLoop (hr : w.read < w.requests.length)
    (hs : ∀ n req, (V.reply n req).length < c.cachedBuff.length) (n : ℕ) :
    ∃ c' w', Exec (Env V) w (c.recvLoop (n + 1)) (some ((true, []), c')) w' ∧
      0 ∈ c'.cachedBuff ∧ cstr c'.cachedBuff = cstr (V.reply w.read w.requests[w.read]) ∧
      w'.requests = w.requests ∧ w'.read = w.read + 1 := by
  have hle : w.read + 1 ≤ max w.arrived (w.read + 1) := le_max_right _ _
  have hle' : max w.arrived (w.read + 1) ≤ w.requests.length := max_le w.arrived_le hr
  obtain ⟨b, hb, -, h0, hcstr⟩ := cache_eq (c := c) (hs w.read w.requests[w.read])
  let w₁ : Conn := ⟨w.requests, _, w.read + 1, hle, hle'⟩
  have henv : Env V w (.recv c.socket c.perPkgSizeLimit)
      (.ok (V.reply w.read w.requests[w.read])) w₁ :=
    ⟨⟨_, List.getElem?_eq_getElem hr, rfl⟩, rfl, rfl, le_max_left _ _⟩
  refine ⟨{ c with cachedBuff := b }, w₁, exec_bind (exec_ask henv) ?_, h0, hcstr, rfl, rfl⟩
  cases hrep : V.reply w.read w.requests[w.read] with
  | nil => exact absurd hrep (V.reply_ne _ _)
  | cons x xs =>
    rw [hrep] at hb
    dsimp only
    rw [hb]
    exact exec_bind exec_pure exec_pure

/-- All tries can time out, if no reply has arrived. -/
theorem exec_timeout (hr : w.arrived = w.read) (n : ℕ) :
    ∃ c', Exec (Env V) w (c.recvLoop n) (some ((false, bytes "接收后台应答超时!"), c')) w ∧
      c'.cachedBuff = c.cachedBuff ∧ c'.isConnected = c.isConnected := by
  induction n generalizing c with
  | zero => exact ⟨c, exec_pure, rfl, rfl⟩
  | succ n ih =>
    obtain ⟨c', he, hb, hc⟩ :=
      ih (c := { c with lastErrorMsg := Client.errorMsg "Recv data failed." EAGAIN "" })
    have henv : Env V w (.recv c.socket c.perPkgSizeLimit) (.error EAGAIN) w :=
      ⟨w.deliver_refl, fun _ => hr⟩
    refine ⟨c', exec_bind (exec_ask henv) ?_, hb, hc⟩
    refine exec_bind (exec_ask (x := "") w.deliver_refl) ?_
    dsimp only
    rw [if_pos (.inl rfl)]
    exact exec_bind (exec_ask (x := ()) w.deliver_refl) he

/-- A call comes to the exchange, over a new connection if there was none. -/
theorem exec_sendAndRecv (hI : Inv V limit s) (req : List UInt8) :
    ∃ (c : Client) (w : Conn), c.cachedBuff.length = limit ∧
      w.requests = s.conn.requests ∧ w.read = s.conn.read ∧
      (s.conn.arrived = s.conn.read → w.arrived = w.read) ∧
      ∀ r w', Exec (Env V) w (c.exchange req) r w' →
        Exec (Env V) s.conn (s.client.sendAndRecv req) r w' := by
  unfold Client.sendAndRecv
  cases hc : s.client.isConnected with
  | true =>
    rw [if_pos rfl]
    exact ⟨s.client, s.conn, hI.buff, rfl, rfl, id, fun _ _ h => h⟩
  | false =>
    have hreqs := hI.conn hc
    obtain ⟨c', he, -, hb⟩ := exec_connect (V := V) (c := s.client) (w := s.conn)
    rw [if_neg Bool.false_ne_true]
    refine ⟨c', .new, (congrArg List.length hb).trans hI.buff, hreqs.symm,
      (Conn.read_eq_zero hreqs).symm, fun _ => rfl, fun r w' h => exec_bind he ?_⟩
    dsimp only
    rw [if_pos rfl]
    exact h

/-- A call may succeed, with the first reply not yet read. -/
theorem call_succeeds (hI : Inv V limit s) (req : List UInt8) :
    ∃ t, Step V s ⟨req, (true, cstr (s.nextReply V req))⟩ t ∧
      t.conn.requests = s.conn.requests ++ [req] ∧ t.conn.read = s.conn.read + 1 := by
  obtain ⟨c, w, hb, hreqs, hread, -, hex⟩ := exec_sendAndRecv hI req
  obtain ⟨w₁, hsend, hw₁, hr₁, -⟩ := exec_send (V := V) (c := c) (w := w) req
  have hle : w₁.read < w₁.requests.length := by
    have h1 := w.read_le
    have h2 := w.arrived_le
    rw [hw₁, hr₁, List.length_append, List.length_singleton]
    omega
  obtain ⟨c₂, w₂, hrecv, h0, hcstr, hw₂, hr₂⟩ := exec_recvLoop hle (by rw [hb]; exact hI.short) 2
  have hnext : s.nextReply V req = V.reply w₁.read w₁.requests[w₁.read] := by
    rw [State.nextReply, ← hreqs, ← hread, ← hw₁, ← hr₁, List.getElem?_eq_getElem hle]
    rfl
  refine ⟨⟨{ c₂ with awakedTime := 0 }, w₂⟩, hex _ _ (exec_bind hsend (exec_bind hrecv
    (exec_bind (exec_ask (x := (0 : ℤ)) w₂.deliver_refl) ?_))), ?_, ?_⟩
  · dsimp only
    rw [if_pos rfl, if_pos h0, hcstr, hnext]
    exact exec_pure
  · rw [← hreqs]
    exact hw₂.trans hw₁
  · rw [← hread]
    exact hr₂.trans (congrArg (· + 1) hr₁)

/-- A call may time out, if no reply has arrived that was not read; its own
    reply stays outstanding. -/
theorem call_times_out (hI : Inv V limit s) (ha : s.conn.arrived = s.conn.read)
    (req : List UInt8) :
    ∃ t, Step V s ⟨req, (false, bytes "接收后台应答超时!")⟩ t ∧
      t.conn.requests = s.conn.requests ++ [req] ∧ t.conn.read = s.conn.read := by
  obtain ⟨c, w, -, hreqs, hread, har, hex⟩ := exec_sendAndRecv hI req
  obtain ⟨w₁, hsend, hw₁, hr₁, ha₁⟩ := exec_send (V := V) (c := c) (w := w) req
  obtain ⟨c₂, htime, -⟩ := exec_timeout (V := V) (c := c) (w := w₁)
    (by rw [ha₁, hr₁]; exact har ha) 3
  refine ⟨⟨{ c₂ with awakedTime := 0 }, w₁⟩, hex _ _ (exec_bind hsend (exec_bind htime
    (exec_bind (exec_ask (x := (0 : ℤ)) w₁.deliver_refl) ?_))), by rw [← hreqs]; exact hw₁,
    hr₁.trans hread⟩
  exact exec_pure

/-! ## Runs -/

theorem inv_init (hs : ∀ n req, (V.reply n req).length < limit) (addr : String) (port : ℕ)
    (timeout : ℤ) : Inv V limit (.init addr port timeout limit) :=
  ⟨List.length_replicate, fun _ => rfl, hs⟩

theorem inv_step {a : Call} (hI : Inv V limit s) (h : Step V s a t) :
    Inv V limit t ∧ (a.result.1 = true → a.result.2 = cstr (s.nextReply V a.request)) := by
  obtain ⟨r, hr, hI', hok⟩ := wp_sendAndRecv hI _ _ h
  cases hr
  exact ⟨hI', hok⟩

/-- **One call**: whatever its environment does, it is defined and returns the
    reply to its own request if it succeeds, exactly if this is the first reply
    not yet read. -/
theorem call_iff (hI : Inv V limit s) :
    wp (Env V) (s.client.sendAndRecv req) (fun r _ => r.1.1 = true → r.1.2 = s.reply V req)
      s.conn ↔ NextIsOwn V s req := by
  constructor
  · intro h
    obtain ⟨t, ht, -⟩ := call_succeeds hI req
    obtain ⟨r, hr, hown⟩ := h _ _ ht
    cases hr
    exact hown rfl
  · intro h
    refine wp_mono (wp_sendAndRecv hI) ?_
    rintro r w' ⟨-, hr⟩ hok
    rw [hr hok]
    exact h

/-- **Every call returns its own reply**, in a run whose calls all start when
    the first reply not yet read is their own; and the condition is exact in
    every state that a run reaches. -/
theorem own_reply_of_run {addr : String} {port : ℕ} {timeout : ℤ} {h : List (State × Call)}
    (hs : ∀ n req, (V.reply n req).length < limit)
    (hr : RunOf (Step V) (.init addr port timeout limit) h s) :
    (Steps (fun s a => NextIsOwn V s a.request) h → Steps (OwnReply V) h) ∧
    ∀ req, wp (Env V) (s.client.sendAndRecv req)
      (fun r _ => r.1.1 = true → r.1.2 = s.reply V req) s.conn ↔ NextIsOwn V s req := by
  have h0 := inv_init hs addr port timeout
  have hstep : ∀ s a t, Inv V limit s → Step V s a t → Inv V limit t :=
    fun s a t hI h => (inv_step hI h).1
  have hown : Steps (fun s a => NextIsOwn V s a.request → OwnReply V s a) h := by
    refine hr.steps h0 hstep ?_
    intro s a t hI h hn hok
    exact ((inv_step hI h).2 hok).trans hn
  constructor
  · intro hG x hx
    exact hown x hx (hG x hx)
  · intro req
    exact call_iff (hr.inv h0 hstep)

end

/-- A server that answers `A`, `B`, and so on. -/
def letters : Server := ⟨fun n _ => [UInt8.ofNat (65 + n)], fun _ _ => List.cons_ne_nil _ _⟩

/-- Two calls that succeed, each with its own reply. -/
theorem own_reply_of_run_two : ∃ t u, RunOf (Step letters) (.init "" 0 1 8)
    [(t, ⟨[98], (true, [66])⟩), (.init "" 0 1 8, ⟨[97], (true, [65])⟩)] u ∧
      Steps (OwnReply letters) [(t, ⟨[98], (true, [66])⟩),
        (.init "" 0 1 8, ⟨[97], (true, [65])⟩)] := by
  have hs : ∀ n req, (letters.reply n req).length < 8 := fun _ _ => by show 1 < 8; decide
  have h0 := inv_init hs "" 0 1
  obtain ⟨t, ht, hreqs, hread⟩ := call_succeeds h0 [97]
  obtain ⟨u, hu, -⟩ := call_succeeds (inv_step h0 ht).1 [98]
  have hanswered : t.conn.read = t.conn.requests.length := by
    rw [hread, hreqs]
    rfl
  have hown : t.reply letters [98] = [66] := by
    rw [State.reply, hreqs]
    rfl
  have hnext : NextIsOwn letters t [98] := nextIsOwn_of_read hanswered (by rw [hown]; decide)
  rw [hnext, hown] at hu
  have hr : RunOf (Step letters) (.init "" 0 1 8) _ u := .snoc (.snoc .nil ht) hu
  refine ⟨t, u, hr, (own_reply_of_run hs hr).1 ?_⟩
  intro x hx
  rw [List.mem_cons, List.mem_singleton] at hx
  rcases hx with rfl | rfl
  · exact hnext
  · exact nextIsOwn_of_read rfl (by decide)

/-- A first call that times out: the second gets `A`, the reply to the first,
    where its own is `B`. -/
theorem timeout_shifts_replies : ∃ t u, RunOf (Step letters) (.init "" 0 1 8)
    [(t, ⟨[98], (true, [65])⟩), (.init "" 0 1 8, ⟨[97], (false, bytes "接收后台应答超时!")⟩)] u ∧
      t.reply letters [98] = [66] ∧
      ¬ Steps (OwnReply letters) [(t, ⟨[98], (true, [65])⟩),
        (.init "" 0 1 8, ⟨[97], (false, bytes "接收后台应答超时!")⟩)] := by
  have hs : ∀ n req, (letters.reply n req).length < 8 := fun _ _ => by show 1 < 8; decide
  have h0 := inv_init hs "" 0 1
  obtain ⟨t, ht, hreqs, hread⟩ := call_times_out h0 rfl [97]
  obtain ⟨u, hu, -⟩ := call_succeeds (inv_step h0 ht).1 [98]
  have hnext : cstr (t.nextReply letters [98]) = [65] := by
    rw [State.nextReply, hread]
    rfl
  have hown : t.reply letters [98] = [66] := by
    rw [State.reply, hreqs]
    rfl
  rw [hnext] at hu
  refine ⟨t, u, .snoc (.snoc .nil ht) hu, hown, ?_⟩
  intro h
  have h1 : ([65] : List UInt8) = t.reply letters [98] := h _ List.mem_cons_self rfl
  rw [hown] at h1
  exact absurd h1 (by decide)

end CppExperiment.SyncBlockedClient
