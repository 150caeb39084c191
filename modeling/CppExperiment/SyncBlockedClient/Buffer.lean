/-
  The buffer of a `SyncBlockedClinet`.

  The constructor allocates `perPkgSizeLimit` bytes, and `RecvData` lets `recv`
  write as many.  The terminator is written behind what was received.

  * `allocated_of_run`: the buffer and the limit stay as the constructor left
    them, whatever the system calls answer.
  * `recvData_iff`: `RecvData` writes within the buffer exactly if the answer it
    stores does not fill the buffer.
-/
import CppExperiment.Lib.Run
import CppExperiment.SyncBlockedClient.Sockets

namespace CppExperiment.SyncBlockedClient.Buffer
open CppExperiment.Prog Sockets

/-- The client has a buffer of the size `limit`, and asks `recv` for as many
    bytes. -/
structure Allocated (limit : ℕ) (c : Client) : Prop where
  size : c.perPkgSizeLimit = limit
  buff : c.cachedBuff.length = limit

/-- A call takes the client from `c` to `c'`; the system calls answer
    anything. -/
def Step (c : Client) (op : Op) (c' : Client) : Prop :=
  Exec (fun _ _ _ _ => True) () (op.run c) (some c') ()

section
variable {W : Type} {H : W → (c : Sys) → Ans c → W → Prop} {limit : ℕ} {c c' : Client} {w : W}

/-! ## The size of the buffer -/

theorem allocated_new (servAddr : String) (servPort : ℕ) (timeout : ℤ) (limit : ℕ) :
    Allocated limit (.new servAddr servPort timeout limit) := ⟨rfl, List.length_replicate⟩

theorem Allocated.kept (hc : Allocated limit c) (hk : c.Kept c') : Allocated limit c' :=
  ⟨hk.limit.trans hc.size, hk.size.trans hc.buff⟩

theorem wlp_createConnect (hc : Allocated limit c) :
    wlp H c.createConnect (fun r _ => Allocated limit r.2) w := by
  refine wlp_of_wp (wp_mono (wp_createConnect (J := fun _ _ => True) (fun _ _ _ => trivial)
    fun _ => keeps_true) ?_)
  rintro r w' ⟨-, -, hbuff, hlimit⟩
  exact ⟨hlimit.trans hc.size, by rw [hbuff, hc.buff]⟩

theorem wlp_exchange (req : List UInt8) (hc : Allocated limit c) :
    wlp H (c.exchange req) (fun r _ => Allocated limit r.2) w :=
  wlp_mono (SyncBlockedClient.wlp_exchange keeps_true req trivial) fun _ _ h => hc.kept h.1

theorem wlp_sendAndRecv (req : List UInt8) (hc : Allocated limit c) :
    wlp H (c.sendAndRecv req) (fun r _ => Allocated limit r.2) w := by
  unfold Client.sendAndRecv
  split_ifs
  · exact wlp_exchange req hc
  · refine wlp_bind (wlp_mono (wlp_createConnect hc) ?_)
    rintro ⟨ok, c₁⟩ w₁ h₁
    dsimp only
    split_ifs
    · exact wlp_exchange req h₁
    · exact wlp_pure h₁

theorem step_allocated {op : Op} (hc : Allocated limit c) (hs : Step c op c') :
    Allocated limit c' := by
  have h : wlp (fun _ _ _ _ => True) (op.run c) (fun c' _ => Allocated limit c') () := by
    cases op with
    | createConnect =>
      refine wlp_bind (wlp_mono (wlp_createConnect hc) ?_)
      rintro ⟨ok, c₁⟩ w₁ h₁
      exact wlp_pure h₁
    | sendAndRecv req =>
      refine wlp_bind (wlp_mono (wlp_sendAndRecv req hc) ?_)
      rintro ⟨res, c₁⟩ w₁ h₁
      exact wlp_pure h₁
    | closeConnection =>
      change wlp _ c.closeConnection _ _
      rw [closeConnection_eq]
      apply wlp_ask_bind
      intro r w₁ _
      exact wlp_pure ⟨hc.size, hc.buff⟩
  exact h _ _ hs

/-- **The buffer keeps its size** in every run. -/
theorem allocated_of_run {servAddr : String} {servPort : ℕ} {timeout : ℤ} {h : List (Client × Op)}
    (hr : RunOf Step (.new servAddr servPort timeout limit) h c) : Allocated limit c :=
  hr.inv (allocated_new servAddr servPort timeout limit) fun _ _ _ hi hs => step_allocated hi hs

end

/-! ## What is written -/

/-- The system calls of `RecvData`: the answers of `recv`, in order. -/
def Recv (results : ℕ → Except ℤ (List UInt8)) (w : ℕ) : (c : Sys) → Ans c → ℕ → Prop
  | .recv _ _, x, w' => x = results w ∧ w' = w + 1
  | _, _, w' => w' = w

/-- `recv` has timed out. -/
def Timeout (x : Except ℤ (List UInt8)) : Prop :=
  ∃ errcode, x = .error errcode ∧ (errcode = EAGAIN ∨ errcode = EWOULDBLOCK)

/-- The first answer that is no timeout, among the next `n`, has `limit` bytes. -/
def Fills (limit : ℕ) (results : ℕ → Except ℤ (List UInt8)) : (n w : ℕ) → Prop
  | 0, _ => False
  | n + 1, w => (∃ bs, results w = .ok bs ∧ bs.length = limit) ∨
      Timeout (results w) ∧ Fills limit results n (w + 1)

variable {limit : ℕ} {results : ℕ → Except ℤ (List UInt8)} {c : Client}

/-- The answer and the terminator lie within the buffer. -/
theorem wp_cache_iff {bs : List UInt8} {res : Result} {w : ℕ} (hc : Allocated limit c) :
    wp (Recv results) (c.cache bs >>= fun c => pure (res, c)) (fun _ _ => True) w ↔
      bs.length < limit := by
  unfold Client.cache
  rw [hc.buff]
  constructor
  · intro h
    by_contra hlt
    rw [if_neg hlt] at h
    obtain ⟨_, h, -⟩ := h none w .ub
    cases h
  · intro h
    rw [if_pos h]
    exact wp_bind (wp_pure (wp_pure trivial))

theorem wp_recvLoop_iff (h1 : 1 ≤ limit) (hlen : ∀ i bs, results i = .ok bs → bs.length ≤ limit)
    (hc : Allocated limit c) (n w : ℕ) :
    wp (Recv results) (c.recvLoop n) (fun _ _ => True) w ↔ ¬ Fills limit results n w := by
  induction n generalizing c w with
  | zero => exact iff_of_true (wp_pure trivial) id
  | succ n ih =>
    have hc' (msg : String) : Allocated limit { c with lastErrorMsg := msg } := ⟨hc.size, hc.buff⟩
    -- `recv` answers `results w`
    have hrecv (k : Except ℤ (List UInt8) → Prog (Result × Client)) :
        wp (Recv results) (sys (.recv c.socket c.perPkgSizeLimit) >>= k) (fun _ _ => True) w ↔
          wp (Recv results) (k (results w)) (fun _ _ => True) (w + 1) := by
      rw [wp_ask_bind_iff]
      exact ⟨fun h => h _ _ ⟨rfl, rfl⟩, fun h x w' ⟨hx, hw⟩ => by rw [hx, hw]; exact h⟩
    rw [Client.recvLoop, hrecv, Fills]
    match hx : results w with
    | .error errcode =>
      dsimp only
      rw [wp_ask_bind_iff]
      by_cases ht : errcode = EAGAIN ∨ errcode = EWOULDBLOCK
      · constructor
        · rintro h (⟨bs, hbs, -⟩ | ⟨-, hfills⟩)
          · cases hbs
          · have hnext := h "" (w + 1) rfl
            rw [if_pos ht, wp_ask_bind_iff] at hnext
            exact (ih (hc' _) (w + 1)).1 (hnext () (w + 1) rfl) hfills
        · rintro h msg w₁ rfl
          rw [if_pos ht, wp_ask_bind_iff]
          rintro _ w₂ rfl
          exact (ih (hc' _) (w + 1)).2 fun hfills => h (.inr ⟨⟨errcode, rfl, ht⟩, hfills⟩)
      · refine iff_of_true ?_ ?_
        · rintro msg w₁ rfl
          rw [if_neg ht]
          exact wp_pure trivial
        · rintro (⟨bs, hbs, -⟩ | ⟨⟨e, he, ht'⟩, -⟩)
          · cases hbs
          · cases he
            exact ht ht'
    | .ok [] =>
      refine iff_of_true (wp_pure trivial) ?_
      rintro (⟨bs, hbs, hfull⟩ | ⟨⟨e, he, -⟩, -⟩)
      · cases hbs
        rw [List.length_nil] at hfull
        omega
      · cases he
    | .ok (b :: bs) =>
      have hle := hlen w _ hx
      refine (wp_cache_iff hc).trans ?_
      constructor
      · rintro hlt (⟨bs', hbs, hfull⟩ | ⟨⟨e, he, -⟩, -⟩)
        · cases hbs
          omega
        · cases he
      · intro h
        by_contra hlt
        exact h (.inl ⟨_, rfl, by omega⟩)

/-- **When `RecvData` writes within the buffer**: in every run, and for all
    answers of `recv`, exactly if the answer that is stored does not fill it. -/
theorem recvData_iff {servAddr : String} {servPort : ℕ} {timeout : ℤ} {h : List (Client × Op)}
    (h1 : 1 ≤ limit) (hr : RunOf Step (.new servAddr servPort timeout limit) h c)
    (hlen : ∀ i bs, results i = .ok bs → bs.length ≤ limit) :
    wp (Recv results) c.recvData (fun _ _ => True) 0 ↔ ¬ Fills limit results 3 0 :=
  wp_recvLoop_iff h1 hlen (allocated_of_run hr) 3 0

/-- A timeout, and an answer that leaves one byte for the terminator. -/
theorem recvData_iff_timeout :
    wp (Recv fun i => if i = 0 then .error EAGAIN else .ok [97])
      (Client.new "" 0 1 2).recvData (fun _ _ => True) 0 := by
  refine (@recvData_iff 2 _ (Client.new "" 0 1 2) "" 0 1 [] (by decide) .nil ?_).2 ?_
  · intro i bs h
    split_ifs at h
    cases h
    decide
  · rintro (⟨bs, h, -⟩ | ⟨-, ⟨bs, h, hlen⟩ | ⟨⟨e, h, -⟩, -⟩⟩)
    · cases h
    · cases h
      cases hlen
    · cases h

/-- An answer of one byte fills a buffer of one byte. -/
theorem recvData_full :
    ¬ wp (Recv fun _ => .ok [97]) (Client.new "" 0 1 1).recvData (fun _ _ => True) 0 := by
  intro h
  obtain ⟨_, h, -⟩ := h none 1 (.call ⟨rfl, rfl⟩ .ub)
  cases h

end CppExperiment.SyncBlockedClient.Buffer
