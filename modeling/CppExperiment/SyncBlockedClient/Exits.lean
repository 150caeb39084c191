/-
  The failing exits of `SendAndRecv`.

  The calls of the system may answer anything, and each call of `SendAndRecv`
  records those it makes.  Where `send` or `recv` fails, the source has its calls
  of `CloseConnection` commented out, so that the client stays connected.

  `stuck_after_failure`: after such a call the client is valid and stays on the
  same socket, however often `SendAndRecv` is called.
-/
import CppExperiment.Lib.Run
import CppExperiment.SyncBlockedClient.Client

namespace CppExperiment.SyncBlockedClient.Exits
open CppExperiment.Prog

/-- A system call and its answer. -/
abbrev Event := (c : Sys) × Ans c

/-- A call of `SendAndRecv`, what it returned and the system calls it made. -/
structure Call where
  request : List UInt8
  result : Result
  events : List Event

/-- A call takes the client from `c` to `c'`. -/
def Step (c : Client) (a : Call) (c' : Client) : Prop :=
  Exec record [] (c.sendAndRecv a.request) (some (a.result, c')) a.events

/-- `send` has failed, the peer has closed the connection, or `recv` has failed
    otherwise than by a timeout. -/
def Dead : Event → Prop
  | ⟨.send _ _, .error _⟩ => True
  | ⟨.recv _ _, .ok []⟩ => True
  | ⟨.recv _ _, .error errcode⟩ => ¬ (errcode = EAGAIN ∨ errcode = EWOULDBLOCK)
  | _ => False

/-- The call failed for such a reason. -/
def Call.Failed (a : Call) : Prop := a.result.1 = false ∧ ∃ e ∈ a.events, Dead e

/-- A connection is made before anything is sent. -/
def ConnectsFirst : List Event → Prop
  | [] => True
  | ⟨.connect _ _ _, r⟩ :: es => (0 : ℤ) ≤ r ∨ ConnectsFirst es
  | ⟨.send _ _, _⟩ :: _ => False
  | _ :: es => ConnectsFirst es

/-- The request is sent on the socket `sock` at once, and no connection is made
    or closed. -/
structure Call.SendsOn (sock : ℤ) (a : Call) : Prop where
  first : ∃ x es, a.events = ⟨.send sock a.request, x⟩ :: es
  plain : ∀ e ∈ a.events, e.1.Plain

variable {c c' d : Client} {a : Call}

/-- Such a call does not connect first. -/
theorem Call.SendsOn.not_connectsFirst {sock : ℤ} (ha : a.SendsOn sock) :
    ¬ ConnectsFirst a.events := by
  obtain ⟨x, es, h⟩ := ha.first
  rw [h]
  exact id

/-! ## What a call can do -/

/-- The record keeps what holds of every call in it. -/
theorem keeps_record {K : Sys → Prop} {P : Event → Prop} (hP : ∀ c x, K c → P ⟨c, x⟩) :
    Keeps record K fun w => ∀ e ∈ w, P e := by
  intro w c x w' h hw hc
  rw [record] at h
  subst h
  simp only [List.mem_append, List.mem_singleton]
  rintro e (he | rfl)
  · exact hw e he
  · exact hP c x hc

/-- Nothing that was sent or received has failed. -/
def Alive (w : List Event) : Prop := ∀ e ∈ w, ¬ Dead e

theorem setup_not_dead (c : Sys) (x : Ans c) (hc : c.Setup) : ¬ Dead ⟨c, x⟩ := by
  cases c with
  | send => exact hc.elim
  | recv => exact hc.elim
  | _ => exact id

/-- `CreateConnect` leaves the client connected if it succeeds, and does not
    send or receive. -/
theorem wlp_createConnect :
    wlp record c.createConnect
      (fun r w' => (r.1 = true → r.2.isConnected = true) ∧ Alive w') [] := by
  refine wlp_of_wp (wp_mono (wp_createConnect (J := fun _ => Alive) ?_
    fun _ => keeps_record setup_not_dead) ?_)
  · rintro s w' rfl e he
    cases List.mem_singleton.1 he
    exact id
  · rintro r w' ⟨halive, hcon, -⟩
    exact ⟨hcon, halive⟩

/-- A call that comes to `send` leaves the client connected. -/
theorem wlp_sendAndRecv (req : List UInt8) :
    wlp record (c.sendAndRecv req) (fun r w' => r.2.isConnected = true ∨ Alive w') [] := by
  unfold Client.sendAndRecv
  cases hc : c.isConnected with
  | true =>
    rw [if_pos rfl]
    refine wlp_mono (wlp_exchange keeps_true req trivial) ?_
    rintro r w' ⟨hk, -⟩
    exact .inl (hk.isConnected.trans hc)
  | false =>
    rw [if_neg Bool.false_ne_true]
    refine wlp_bind (wlp_mono wlp_createConnect ?_)
    rintro ⟨ok, c₁⟩ w₁ ⟨hok, hw₁⟩
    dsimp only
    split_ifs with h
    · refine wlp_mono (wlp_exchange keeps_true req trivial) ?_
      rintro r w' ⟨hk, -⟩
      exact .inl (hk.isConnected.trans (hok h))
    · exact wlp_pure (.inr hw₁)

theorem isValid_of_failed (hs : Step c a c') (hf : a.Failed) : c'.isValid = true := by
  rcases wlp_sendAndRecv _ _ _ hs with hcon | halive
  · exact hcon
  · obtain ⟨e, he, hd⟩ := hf.2
    exact absurd hd (halive e he)

/-- A call on a connected client sends on its socket, and leaves it. -/
theorem step_of_isValid (hc : c.isValid = true) (hs : Step c a c') :
    a.SendsOn c.socket ∧ c'.isValid = true ∧ c'.socket = c.socket := by
  unfold Step Client.sendAndRecv at hs
  rw [show c.isConnected = true from hc, if_pos rfl] at hs
  obtain ⟨hk, hplain⟩ := wlp_exchange (keeps_record (P := (·.1.Plain)) fun _ _ hc => hc)
    a.request (fun _ h => absurd h List.not_mem_nil) _ _ hs
  exact ⟨⟨exec_ask_bind_record hs, hplain⟩, hk.isConnected.trans hc, hk.socket⟩

/-- The client is connected, on the socket `sock`. -/
def On (sock : ℤ) (c : Client) : Prop := c.isValid = true ∧ c.socket = sock

theorem on_step {sock : ℤ} (hc : On sock c) (hs : Step c a c') : On sock c' ∧ a.SendsOn sock := by
  obtain ⟨hv, hsock⟩ := hc
  obtain ⟨hon, hv', hsock'⟩ := step_of_isValid hv hs
  rw [hsock] at hon
  exact ⟨⟨hv', hsock'.trans hsock⟩, hon⟩

/-- **Stuck.**  After a call that failed because `send` failed, the peer has
    closed or `recv` failed otherwise than by a timeout, the client is valid, and
    every later call sends on the same socket without a connection made first. -/
theorem stuck_after_failure (hs : Step c a c') (hf : a.Failed) {h : List (Client × Call)}
    (hr : RunOf Step c' h d) : d.isValid = true ∧ d.socket = c'.socket ∧
      Steps (fun _ b => b.SendsOn c'.socket ∧ ¬ ConnectsFirst b.events) h := by
  have h0 : On c'.socket c' := ⟨isValid_of_failed hs hf, rfl⟩
  have hstep : ∀ e b e', On c'.socket e → Step e b e' → On c'.socket e' :=
    fun e b e' he hst => (on_step he hst).1
  obtain ⟨hv, hsock⟩ := hr.inv h0 hstep
  refine ⟨hv, hsock, hr.steps h0 hstep ?_⟩
  intro e b e' he hst
  have hon := (on_step he hst).2
  exact ⟨hon, hon.not_connectsFirst⟩

/-! ## A connection that breaks -/

/-- `EPIPE` -/
def EPIPE : ℤ := 32

/-- `send` may fail. -/
theorem exec_exchange_fails (req : List UInt8) (w : List Event) :
    ∃ r c' w', Exec record w (c.exchange req) (some (r, c')) w' ∧ r.1 = false ∧
      ∃ e ∈ w', Dead e := by
  have hsend : Exec record w (sys (.send c.socket req)) (some (.error EPIPE)) _ := exec_ask rfl
  refine ⟨(false, _), _, _, exec_bind hsend
    (exec_bind (exec_ask (x := "Broken pipe") rfl) exec_pure), rfl,
    ⟨.send c.socket req, .error EPIPE⟩, ?_, trivial⟩
  simp

/-- Every client has a call that fails so. -/
theorem step_fails (c : Client) (req : List UInt8) :
    ∃ a c', Step c a c' ∧ a.Failed ∧ a.request = req := by
  unfold Step
  cases hc : c.isConnected with
  | true =>
    obtain ⟨r, c', w', he, hr, hd⟩ := exec_exchange_fails (c := c) req []
    refine ⟨⟨req, r, w'⟩, c', ?_, ⟨hr, hd⟩, rfl⟩
    unfold Client.sendAndRecv
    rw [hc, if_pos rfl]
    exact he
  | false =>
    have hH : ∀ (w : List Event) (c : Sys) (x : Ans c), c.Ok x →
        record w c x (w ++ [⟨c, x⟩]) := fun _ _ _ _ => rfl
    obtain ⟨c₁, w₁, hcon, -⟩ := exec_createConnect hH c []
    obtain ⟨r, c', w', he, hr, hd⟩ := exec_exchange_fails (c := c₁) req _
    refine ⟨⟨req, r, w'⟩, c', ?_, ⟨hr, hd⟩, rfl⟩
    unfold Client.sendAndRecv
    rw [hc, if_neg Bool.false_ne_true]
    exact exec_bind hcon he

/-- A new client whose first call fails: it is stuck before and after the next
    call. -/
theorem stuck_after_failure_first : ∃ a c b d, Step (.new "" 0 5 8) a c ∧ a.Failed ∧ Step c b d ∧
    d.isValid = true ∧ ¬ ConnectsFirst b.events := by
  obtain ⟨a, c, ha, hf, -⟩ := step_fails (.new "" 0 5 8) [97]
  obtain ⟨b, d, hb, -, -⟩ := step_fails c [98]
  obtain ⟨hv, -, hsteps⟩ := stuck_after_failure ha hf (RunOf.nil.snoc hb)
  exact ⟨a, c, b, d, ha, hf, hb, hv, (hsteps _ List.mem_cons_self).2⟩

/-- `send` fails in the first call: the client is valid after it, and the second
    call does not connect. -/
theorem valid_after_failure : ∃ a c b d, RunOf Step (.new "" 0 5 8) [(.new "" 0 5 8, a)] c ∧
    a.Failed ∧ Step c b d ∧ ¬ (c.isValid = false ∧ ConnectsFirst b.events) := by
  obtain ⟨a, c, ha, hf, -⟩ := step_fails (.new "" 0 5 8) [97]
  obtain ⟨b, d, hb, -, -⟩ := step_fails c [98]
  refine ⟨a, c, b, d, .snoc .nil ha, hf, hb, ?_⟩
  rintro ⟨hv, -⟩
  exact Bool.false_ne_true (hv.symm.trans (isValid_of_failed ha hf))

end CppExperiment.SyncBlockedClient.Exits
