/-
  The sockets that a `SyncBlockedClinet` has open.

  `CreateConnect` puts a new socket into `m_Socket` and does not close the one
  that is there.  Its exits after `socket()` leave the new one open and the
  client not connected, so that the next `SendAndRecv` calls it again.

  `one_socket_iff`: the open sockets are the one in `m_Socket`, and destroying
  the client closes it, throughout a run iff `CreateConnect` is only ever
  entered with no socket in `m_Socket`, and the new one is not 0.
-/
import CppExperiment.Lib.Run
import CppExperiment.SyncBlockedClient.Client

namespace CppExperiment.SyncBlockedClient.Sockets
open CppExperiment.Prog

/-- What `socket` may return when the sockets `w` are open: -1 or a new one. -/
def Fresh (fd : ℤ) (w : Finset ℤ) : Prop := fd = -1 ∨ 0 ≤ fd ∧ fd ∉ w

/-- The open sockets after `socket` has returned `fd`. -/
def opened (fd : ℤ) (w : Finset ℤ) : Finset ℤ := if fd = -1 then w else insert fd w

/-- What the system calls of one call answer, and the sockets that are open
    after them: `socket` returns `fd`, and the others anything. -/
def Env (fd : ℤ) (w : Finset ℤ) : (c : Sys) → Ans c → Finset ℤ → Prop
  | .socket, r, w' => r = fd ∧ Fresh fd w ∧ w' = opened fd w
  | .close sock, _, w' => w' = w.erase sock
  | .recv _ len, r, w' => (∀ bs, r = .ok bs → bs.length ≤ len) ∧ w' = w
  | _, _, w' => w' = w

/-- The client and its open sockets. -/
structure State where
  client : Client
  opened : Finset ℤ

/-- A new client. -/
def State.init (servAddr : String) (servPort : ℕ) (timeout : ℤ) (perPkgSizeLimit : ℕ) : State :=
  ⟨.new servAddr servPort timeout perPkgSizeLimit, ∅⟩

/-- The calls of the client. -/
inductive Op
  | createConnect
  | sendAndRecv (request : List UInt8)
  | closeConnection

/-- A call, and what `socket` returns in it. -/
structure Call where
  op : Op
  fd : ℤ

/-- What a call does, without its result. -/
def Op.run (c : Client) : Op → Prog Client
  | .createConnect => do
    let (_, c) ← c.createConnect
    return c
  | .sendAndRecv request => do
    let (_, c) ← c.sendAndRecv request
    return c
  | .closeConnection => c.closeConnection

/-- A call takes the client and its sockets from `s` to `t`. -/
def Step (s : State) (a : Call) (t : State) : Prop :=
  Exec (Env a.fd) s.opened (a.op.run s.client) (some t.client) t.opened

/-- The open sockets are the one in `m_Socket`, and the destructor leaves none. -/
structure OneSocket (s : State) : Prop where
  eq : ∀ fd ∈ s.opened, fd = s.client.socket
  destroy : ∀ fd, wp (Env fd) s.client.destroy (fun _ w' => w' = ∅) s.opened

/-- The call enters `CreateConnect`. -/
def Op.connects (c : Client) : Op → Bool
  | .createConnect => true
  | .sendAndRecv _ => !c.isConnected
  | .closeConnection => false

/-- The condition of a call: if it enters `CreateConnect`, there is no socket in
    `m_Socket`, and the new one is not 0. -/
def NoneBefore (s : State) (a : Call) : Prop :=
  a.op.connects s.client = true → s.client.socket = -1 ∧ a.fd ≠ 0

/-! ## What a call does to the sockets -/

variable {c : Client} {fd : ℤ} {w : Finset ℤ} {s t : State} {a : Call}

/-- The calls but `socket` and `close` leave the sockets open that are open. -/
theorem keeps_opened : Keeps (Env fd) (fun c => c.Setup ∨ c.Plain) (· = w) := by
  intro w₁ c x w₂ h hw hc
  subst hw
  cases c with
  | socket => exact (hc.elim id id).elim
  | close sock => exact (hc.elim id id).elim
  | recv sock len => exact h.2
  | _ => exact h

theorem keeps_plain : Keeps (Env fd) Sys.Plain (· = w) :=
  fun _ _ _ _ h hw hc => keeps_opened h hw (.inr hc)

/-- `socket` has returned `fd`, and opened it. -/
theorem wlp_createConnect :
    wlp (Env fd) c.createConnect (fun r w' => r.2.socket = fd ∧ Fresh fd w ∧
      w' = opened fd w) w := by
  refine wlp_of_wp (wp_mono
    (wp_createConnect (J := fun s w' => s = fd ∧ Fresh fd w ∧ w' = opened fd w) ?_ ?_) ?_)
  · intro s w' h
    exact h
  · rintro s w₁ c x w₂ h ⟨hs, hfd, hw₁⟩ hc
    exact ⟨hs, hfd, keeps_opened h hw₁ (.inl hc)⟩
  · rintro r w' ⟨h, -⟩
    exact h

/-- `SendAndRecv` on a client that is not connected does what `CreateConnect`
    does. -/
theorem wlp_sendAndRecv_new (hc : c.isConnected = false) (req : List UInt8) :
    wlp (Env fd) (c.sendAndRecv req) (fun r w' => r.2.socket = fd ∧ Fresh fd w ∧
      w' = opened fd w) w := by
  unfold Client.sendAndRecv
  rw [hc, if_neg Bool.false_ne_true]
  refine wlp_bind (wlp_mono wlp_createConnect ?_)
  rintro ⟨ok, c₁⟩ w₁ ⟨hsock, hfd, rfl⟩
  dsimp only
  split_ifs
  · refine wlp_mono (wlp_exchange keeps_plain req rfl) ?_
    rintro r w' ⟨hk, rfl⟩
    exact ⟨hk.socket.trans hsock, hfd, rfl⟩
  · exact wlp_pure ⟨hsock, hfd, rfl⟩

theorem wlp_sendAndRecv (hc : c.isConnected = true) (req : List UInt8) :
    wlp (Env fd) (c.sendAndRecv req) (fun r w' => r.2.socket = c.socket ∧ w' = w) w := by
  unfold Client.sendAndRecv
  rw [hc, if_pos rfl]
  refine wlp_mono (wlp_exchange keeps_plain req rfl) ?_
  rintro r w' ⟨hk, rfl⟩
  exact ⟨hk.socket, rfl⟩

/-- `CloseConnection` leaves the client not connected in any case. -/
theorem closeConnection_eq (c : Client) : c.closeConnection = do
    let _ : ℤ ← sys (.close c.socket)
    return { c with isConnected := false, socket := -1 } := by
  unfold Client.closeConnection
  obtain ⟨_, _, _, _, _, isConnected, _, _, _⟩ := c
  cases isConnected with
  | true => rfl
  | false => rfl

theorem wlp_closeConnection :
    wlp (Env fd) c.closeConnection (fun c' w' => c'.socket = -1 ∧ w' = w.erase c.socket) w := by
  rw [closeConnection_eq]
  apply wlp_ask_bind
  rintro r w₁ rfl
  exact wlp_pure ⟨rfl, rfl⟩

/-- **What a call can do**: open a socket, or leave them alone, or close one. -/
theorem step_cases (hs : Step s a t) :
    (a.op.connects s.client = true ∧ Fresh a.fd s.opened ∧ t.client.socket = a.fd ∧
      t.opened = opened a.fd s.opened) ∨
    (a.op.connects s.client = false ∧ t.client.socket = s.client.socket ∧ t.opened = s.opened) ∨
    (a.op.connects s.client = false ∧ t.client.socket = -1 ∧
      t.opened = s.opened.erase s.client.socket) := by
  obtain ⟨op, fd⟩ := a
  cases op with
  | createConnect =>
    rcases exec_bind_inv hs with ⟨⟨ok, c⟩, w, h, hret⟩ | ⟨h, -⟩
    · cases hret
      obtain ⟨hsock, hfd, hw⟩ := wlp_createConnect _ _ h
      exact .inl ⟨rfl, hfd, hsock, hw⟩
    · cases h
  | sendAndRecv req =>
    rcases exec_bind_inv hs with ⟨⟨res, c⟩, w, h, hret⟩ | ⟨h, -⟩
    · cases hret
      cases hc : s.client.isConnected with
      | false =>
        obtain ⟨hsock, hfd, hw⟩ := wlp_sendAndRecv_new hc req _ _ h
        exact .inl ⟨by simp [Op.connects, hc], hfd, hsock, hw⟩
      | true =>
        obtain ⟨hsock, hw⟩ := wlp_sendAndRecv hc req _ _ h
        exact .inr (.inl ⟨by simp [Op.connects, hc], hsock, hw⟩)
    · cases h
  | closeConnection =>
    obtain ⟨hsock, hw⟩ := wlp_closeConnection _ _ hs
    exact .inr (.inr ⟨rfl, hsock, hw⟩)

/-- What the destructor leaves open. -/
theorem wp_destroy_iff {Q : Finset ℤ → Prop} :
    wp (Env fd) c.destroy (fun _ w' => Q w') w ↔
      Q (if 0 < c.socket then w.erase c.socket else w) := by
  unfold Client.destroy
  constructor
  · intro h
    split_ifs with hpos
    · rw [if_pos hpos] at h
      obtain ⟨_, -, hQ⟩ := h _ _ (exec_bind (exec_ask (x := (0 : ℤ)) rfl) exec_pure)
      exact hQ
    · rw [if_neg hpos] at h
      obtain ⟨_, -, hQ⟩ := h _ _ exec_pure
      exact hQ
  · intro h
    split_ifs at h ⊢ with hpos
    · apply wp_ask_bind
      rintro r w' rfl
      exact wp_pure h
    · exact wp_pure h

/-! ## Runs -/

/-- Between calls: `m_Socket` is -1 and nothing is open, or it is all that is
    open. -/
def Inv (s : State) : Prop :=
  (s.client.socket = -1 ∧ s.opened = ∅) ∨ (0 ≤ s.client.socket ∧ s.opened = {s.client.socket})

/-- In such a state all is well, but for the socket 0. -/
theorem oneSocket_iff (hI : Inv s) : OneSocket s ↔ s.client.socket ≠ 0 := by
  have hd : OneSocket s → (if 0 < s.client.socket then s.opened.erase s.client.socket
      else s.opened) = ∅ := fun h => (wp_destroy_iff (Q := (· = ∅))).1 (h.destroy 0)
  constructor
  · intro h h0
    rcases hI with ⟨hsock, -⟩ | ⟨-, hop⟩
    · exact absurd (hsock.symm.trans h0) (by decide)
    · have := hd h
      rw [h0, if_neg (lt_irrefl _), hop] at this
      exact Finset.singleton_ne_empty _ this
  · intro h0
    rcases hI with ⟨hsock, hop⟩ | ⟨hle, hop⟩
    · refine ⟨by simp [hop], fun fd => (wp_destroy_iff (Q := (· = ∅))).2 ?_⟩
      simp [hop]
    · refine ⟨by simp [hop], fun fd => (wp_destroy_iff (Q := (· = ∅))).2 ?_⟩
      rw [if_pos (lt_of_le_of_ne hle (Ne.symm h0)), hop]
      simp

theorem inv_step (hI : Inv s) (hG : NoneBefore s a) (hs : Step s a t) : Inv t := by
  rcases step_cases hs with ⟨hcon, hfd, hsock, hop⟩ | ⟨-, hsock, hop⟩ | ⟨-, hsock, hop⟩
  · -- the new socket is the only one
    have hnone : s.opened = ∅ := by
      rcases hI with ⟨-, h⟩ | ⟨h, -⟩
      · exact h
      · rw [(hG hcon).1] at h
        exact absurd h (by decide)
    unfold Inv
    rw [hsock, hop, hnone]
    rcases hfd with h | ⟨h, -⟩
    · exact .inl ⟨h, by rw [opened, if_pos h]⟩
    · refine .inr ⟨h, ?_⟩
      rw [opened, if_neg (by omega)]
      rfl
  · unfold Inv
    rw [hsock, hop]
    exact hI
  · refine .inl ⟨hsock, ?_⟩
    rcases hI with ⟨-, h⟩ | ⟨-, h⟩
    · simp [hop, h]
    · simp [hop, h]

/-- A socket that is open when `CreateConnect` is entered is lost. -/
theorem noneBefore_of_oneSocket (hI : Inv s) (ht : OneSocket t) (hs : Step s a t) :
    NoneBefore s a := by
  intro hcon
  rcases step_cases hs with ⟨-, hfd, hsock, hop⟩ | ⟨h, -⟩ | ⟨h, -⟩
  · have hnone : s.client.socket = -1 := by
      rcases hI with ⟨h, -⟩ | ⟨hle, h⟩
      · exact h
      · -- the old socket is open and in `m_Socket`, but the new one is another
        have hmem : s.client.socket ∈ t.opened := by
          rw [hop, h, opened]
          split_ifs
          · exact Finset.mem_singleton_self _
          · exact Finset.mem_insert_of_mem (Finset.mem_singleton_self _)
        have heq := (ht.eq _ hmem).trans hsock
        rcases hfd with h' | ⟨-, hnot⟩
        · omega
        · exact absurd (by rw [h, ← heq]; exact Finset.mem_singleton_self _) hnot
    refine ⟨hnone, ?_⟩
    -- the destructor does not close the socket 0
    intro h0
    have hd := (wp_destroy_iff (Q := (· = ∅))).1 (ht.destroy 0)
    rw [hsock, h0, if_neg (lt_irrefl _), hop, opened, h0] at hd
    simp at hd
  · exact absurd (h.symm.trans hcon) Bool.false_ne_true
  · exact absurd (h.symm.trans hcon) Bool.false_ne_true

/-- **One socket.**  In every state of a run the open sockets are the one in
    `m_Socket`, and the destructor closes it, iff `CreateConnect` is only
    entered with no socket in `m_Socket`, and the new one is never 0. -/
theorem one_socket_iff {addr : String} {port : ℕ} {timeout : ℤ} {limit : ℕ}
    {h : List (State × Call)} (hr : RunOf Step (.init addr port timeout limit) h s) :
    Always OneSocket h s ↔ Steps NoneBefore h := by
  have h0 : Inv (.init addr port timeout limit) := .inl ⟨rfl, rfl⟩
  have hne : (State.init addr port timeout limit).client.socket ≠ 0 := Int.negSucc_ne_zero 0
  refine hr.always_iff h0 ((oneSocket_iff h0).2 hne) ?_ ?_
  · intro s a t hI _ hG hs
    exact inv_step hI hG hs
  · intro s a t hI hP hs
    constructor
    · intro ht
      exact noneBefore_of_oneSocket hI ht hs
    · intro hG
      rw [oneSocket_iff (inv_step hI hG hs)]
      rcases step_cases hs with ⟨hcon, -, hsock, -⟩ | ⟨-, hsock, -⟩ | ⟨-, hsock, -⟩
      · rw [hsock]
        exact (hG hcon).2
      · rw [hsock]
        exact (oneSocket_iff hI).1 hP
      · rw [hsock]
        decide

/-- `inet_pton` may fail. -/
theorem exec_createConnect_fails (hfd : Fresh fd w) (hne : fd ≠ -1) :
    ∃ c', Exec (Env fd) w c.createConnect (some (false, c')) (insert fd w) ∧ c'.socket = fd := by
  refine ⟨{ c with socket := fd, lastErrorMsg := "Set ip address of JSD system failed" }, ?_, rfl⟩
  refine exec_bind (exec_ask (x := fd) ⟨rfl, hfd, (if_neg hne).symm⟩) ?_
  dsimp only
  rw [if_neg hne]
  refine exec_bind (exec_ask (x := (0 : ℤ)) rfl) ?_
  rw [if_pos le_rfl]
  exact exec_pure

/-- A call of `CreateConnect` that fails after `socket`. -/
theorem step_fails (s : State) (fd : ℤ) (hfd : Fresh fd s.opened) (hne : fd ≠ -1) :
    ∃ t, Step s ⟨.createConnect, fd⟩ t ∧ t.client.socket = fd ∧
      t.opened = insert fd s.opened := by
  obtain ⟨c', he, hsock⟩ := exec_createConnect_fails (c := s.client) hfd hne
  exact ⟨⟨c', insert fd s.opened⟩, exec_bind he exec_pure, hsock, rfl⟩

/-- A call of `CloseConnection`. -/
theorem step_closes (s : State) (fd : ℤ) : ∃ t, Step s ⟨.closeConnection, fd⟩ t := by
  refine ⟨⟨{ s.client with isConnected := false, socket := -1 },
    s.opened.erase s.client.socket⟩, ?_⟩
  change Exec (Env fd) s.opened s.client.closeConnection _ _
  rw [closeConnection_eq]
  exact exec_bind (exec_ask (x := (0 : ℤ)) rfl) exec_pure

/-- `CreateConnect` fails and `CloseConnection` is called. -/
theorem one_socket_iff_closed : ∃ h u, RunOf Step (.init "" 0 5 8) h u ∧
    (h.map fun x => x.2.op) = [.closeConnection, .createConnect] ∧ Always OneSocket h u := by
  obtain ⟨t, ht, -, -⟩ := step_fails (.init "" 0 5 8) 3
    (.inr ⟨by decide, Finset.notMem_empty _⟩) (by decide)
  obtain ⟨u, hu⟩ := step_closes t (-1)
  have hr : RunOf Step (.init "" 0 5 8) _ u := .snoc (.snoc .nil ht) hu
  refine ⟨_, u, hr, rfl, (one_socket_iff hr).2 ?_⟩
  rw [steps_cons, steps_cons]
  refine ⟨nofun, fun _ => ⟨rfl, by decide⟩, ?_⟩
  intro x hx
  cases hx

/-- `CreateConnect` fails twice: the first socket stays open. -/
theorem reconnect_leaks : ∃ t u, RunOf Step (.init "" 0 5 8)
    [(t, ⟨.createConnect, 4⟩), (.init "" 0 5 8, ⟨.createConnect, 3⟩)] u ∧
      u.client.socket = 4 ∧ u.opened = {4, 3} ∧ ¬ OneSocket u := by
  obtain ⟨t, ht, -, hop⟩ := step_fails (.init "" 0 5 8) 3
    (.inr ⟨by decide, Finset.notMem_empty _⟩) (by decide)
  have hop : t.opened = {3} := hop
  obtain ⟨u, hu, hsock, hop'⟩ := step_fails t 4
    (.inr ⟨by decide, by rw [hop]; decide⟩) (by decide)
  rw [hop] at hop'
  refine ⟨t, u, .snoc (.snoc .nil ht) hu, hsock, hop', ?_⟩
  intro h
  have h3 := h.eq 3 (by rw [hop']; decide)
  rw [hsock] at h3
  exact absurd h3 (by decide)

end CppExperiment.SyncBlockedClient.Sockets
