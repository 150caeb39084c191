/-
  `DoLoopIO` (Network/tiny_server): a server with one `select` loop.

  The state is that of the loop when it calls `select`; one action is one round
  of the loop, with the answers of the system calls made in it.  `select`
  leaves the ready sockets in the two sets it is given.

  `select_watches_iff`: the listening socket and all clients are in `read_fds`
  at every call to `select` exactly if every round is one of the few that leave
  them there.  A round that times out, or in which only a client is ready, is
  not; `timeout_forgets` is a failing run.
-/
import CppExperiment.Lib.Memory
import CppExperiment.Lib.Run

namespace CppExperiment.TinyServer

/-- A `SOCKET`. -/
abbrev Socket := ℕ

/-- `INVALID_SOCKET` -/
def invalidSocket : Socket := 2 ^ 64 - 1

/-! ## Sets of sockets -/

/-- The sockets of an `fd_set`, at most `fdSetSize`. -/
abbrev FdSet := List Socket

/-- `FD_SETSIZE` -/
def fdSetSize : ℕ := 64

/-- `FD_SET(s, &fds)`: a set that is full stays as it is. -/
def fdSet (s : Socket) (fds : FdSet) : FdSet :=
  if s ∈ fds then fds else if fds.length < fdSetSize then fds ++ [s] else fds

/-- `FD_CLR(s, &fds)` -/
def fdClr (s : Socket) (fds : FdSet) : FdSet := fds.erase s

variable {s c : Socket} {fds : FdSet}

theorem mem_fdSet : c ∈ fdSet s fds ↔ c ∈ fds ∨ c = s ∧ fds.length < fdSetSize := by
  unfold fdSet
  split_ifs with h hlen
  · constructor
    · exact .inl
    · rintro (hc | ⟨rfl, -⟩)
      · exact hc
      · exact h
  · rw [List.mem_append, List.mem_singleton]
    simp [hlen]
  · simp [hlen]

theorem fdClr_subset : fdClr s fds ⊆ fds := List.erase_subset

/-! ## The loop -/

/-- The variables of `DoLoopIO`, the clients, and what was sent to them. -/
structure Server where
  servSock : Socket
  readFds : FdSet
  exceptFd : FdSet
  allCliSockets : List Socket
  sent : List (Socket × List UInt8)

/-- `DoLoopIO` before its loop. -/
def Server.init (servSock : Socket) : Server :=
  ⟨servSock, fdSet servSock [], fdSet servSock [], [], []⟩

/-- `HandleData`: what `recv` received, `none` if it failed, is sent back up to
    the first NUL; `none` if there is no NUL in the buffer. -/
def handleData : (received : Option (List UInt8)) → Option (Bool × List UInt8)
  | none => some (false, [])
  | some text =>
    let recvBuf := text ++ List.replicate (1024 - text.length) 0
    if 0 ∈ recvBuf then some (true, cstr recvBuf) else none

/-- The loop over the clients from the index `i` on, with at most `n` of them
    left.  The client behind one that is erased moves to its index and is not
    looked at in this round. -/
def clientLoop (recv : ℕ → Option (List UInt8)) : (n i : ℕ) → Server → Option Server
  | 0, _, s => some s
  | n + 1, i, s =>
    match s.allCliSockets[i]? with
    | none => some s
    | some cs =>
      if cs ∈ s.readFds then
        match handleData (recv i) with
        | none => none
        | some (true, text) => clientLoop recv n (i + 1) { s with sent := s.sent ++ [(cs, text)] }
        | some (false, _) => clientLoop recv n (i + 1) { s with
            readFds := fdClr cs s.readFds
            allCliSockets := s.allCliSockets.eraseIdx i }
      else clientLoop recv n (i + 1) s

/-- A round of the loop: what `select` returns and leaves in the sets, the
    socket from `accept` and what is received from the client at each index. -/
inductive Round where
  | error (exceptFd : FdSet)
  | timeout
  | ready (readFds exceptFd : FdSet) (cliSock : Socket) (recv : ℕ → Option (List UInt8))

/-- One round; `none` if the program ends or the system does not answer so.  The
    socket from `accept` is never the listening one. -/
def step (s : Server) (a : Round) : Option Server :=
  if s.servSock = invalidSocket then none
  else match a with
  | .error exceptFd => some { s with readFds := fdSet s.servSock [], exceptFd := exceptFd }
  | .timeout => some { s with readFds := [], exceptFd := [] }
  | .ready readFds exceptFd cliSock recv =>
    if readFds.Sublist s.readFds ∧ exceptFd.Sublist s.exceptFd ∧ readFds ++ exceptFd ≠ [] ∧
        cliSock ≠ s.servSock then
      let s := { s with readFds := readFds, exceptFd := exceptFd }
      if s.servSock ∈ s.readFds then some { s with
          readFds := fdSet cliSock s.readFds
          allCliSockets := s.allCliSockets ++ [cliSock] }
      else clientLoop recv s.allCliSockets.length 0 s
    else none

/-! ## What `select` watches -/

/-- `read_fds` holds the listening socket and all clients. -/
def Watches (s : Server) : Prop := s.servSock ∈ s.readFds ∧ ∀ c ∈ s.allCliSockets, c ∈ s.readFds

/-- A round that leaves all sockets in `read_fds`: `select` fails while there is
    no client, or it finds the listening socket and all clients ready (but one
    that is accepted again) and there is room for the new one. -/
def KeepsAll (s : Server) : Round → Prop
  | .error _ => s.allCliSockets = []
  | .timeout => False
  | .ready readFds _ cliSock _ => s.servSock ∈ readFds ∧
      (∀ c ∈ s.allCliSockets, c ∈ readFds ∨ c = cliSock) ∧
      (cliSock ∈ readFds ∨ readFds.length < fdSetSize)

/-- The loop over the clients only takes sockets away. -/
theorem clientLoop_subset {recv : ℕ → Option (List UInt8)} {n i : ℕ} {s t : Server}
    (h : clientLoop recv n i s = some t) : t.servSock = s.servSock ∧ t.readFds ⊆ s.readFds ∧
      t.allCliSockets ⊆ s.allCliSockets := by
  induction n generalizing i s with
  | zero =>
    cases h
    exact ⟨rfl, List.Subset.refl _, List.Subset.refl _⟩
  | succ n ih =>
    rw [clientLoop] at h
    rcases hcs : s.allCliSockets[i]? with _ | cs
    · rw [hcs] at h
      cases h
      exact ⟨rfl, List.Subset.refl _, List.Subset.refl _⟩
    rw [hcs] at h
    dsimp only at h
    by_cases hready : cs ∈ s.readFds
    · rw [if_pos hready] at h
      rcases hd : handleData (recv i) with _ | ⟨_ | _, text⟩
      · rw [hd] at h
        cases h
      · rw [hd] at h
        obtain ⟨hserv, hread, hall⟩ := ih h
        exact ⟨hserv, List.Subset.trans hread fdClr_subset,
          List.Subset.trans hall (List.eraseIdx_sublist ..).subset⟩
      · rw [hd] at h
        exact ih (s := { s with sent := s.sent ++ [(cs, text)] }) h
    · rw [if_neg hready] at h
      exact ih h

/-- What a round does. -/
theorem step_cases {s t : Server} {a : Round} (hs : step s a = some t) :
    match a with
    | .error exceptFd => t = { s with readFds := fdSet s.servSock [], exceptFd := exceptFd }
    | .timeout => t = { s with readFds := [], exceptFd := [] }
    | .ready readFds exceptFd cliSock _ => cliSock ≠ s.servSock ∧
        ((s.servSock ∈ readFds ∧ t = ⟨s.servSock, fdSet cliSock readFds, exceptFd,
            s.allCliSockets ++ [cliSock], s.sent⟩) ∨
          (s.servSock ∉ readFds ∧ t.servSock = s.servSock ∧ t.readFds ⊆ readFds ∧
            t.allCliSockets ⊆ s.allCliSockets)) := by
  unfold step at hs
  split_ifs at hs
  cases a with
  | error exceptFd => exact (Option.some.inj hs).symm
  | timeout => exact (Option.some.inj hs).symm
  | ready readFds exceptFd cliSock recv =>
    dsimp only at hs
    split_ifs at hs with hsel hnew
    · exact ⟨hsel.2.2.2, .inl ⟨hnew, (Option.some.inj hs).symm⟩⟩
    · exact ⟨hsel.2.2.2, .inr ⟨hnew, clientLoop_subset hs⟩⟩

/-- The sockets after a new connection. -/
theorem watches_accept {servSock cliSock : Socket} {readFds exceptFd : FdSet}
    {clients : List Socket} {sent : List (Socket × List UInt8)} (hserv : servSock ∈ readFds) :
    Watches ⟨servSock, fdSet cliSock readFds, exceptFd, clients ++ [cliSock], sent⟩ ↔
      (∀ c ∈ clients, c ∈ readFds ∨ c = cliSock) ∧
        (cliSock ∈ readFds ∨ readFds.length < fdSetSize) := by
  simp only [Watches, mem_fdSet, List.mem_append, List.mem_singleton]
  constructor
  · rintro ⟨-, h⟩
    refine ⟨?_, ?_⟩
    · intro c hc
      rcases h c (.inl hc) with h | ⟨h, -⟩
      · exact .inl h
      · exact .inr h
    · rcases h cliSock (.inr rfl) with h | ⟨-, h⟩
      · exact .inl h
      · exact .inr h
  · rintro ⟨hall, hroom⟩
    refine ⟨.inl hserv, ?_⟩
    have hnew : cliSock ∈ readFds ∨ cliSock = cliSock ∧ readFds.length < fdSetSize :=
      hroom.imp_right fun h => ⟨rfl, h⟩
    rintro c (hc | rfl)
    · rcases hall c hc with h | rfl
      · exact .inl h
      · exact hnew
    · exact hnew

/-- The listening socket is not one of the clients. -/
theorem servSock_step {s t : Server} {a : Round} (h : s.servSock ∉ s.allCliSockets)
    (hs : step s a = some t) : t.servSock ∉ t.allCliSockets := by
  cases a with
  | error exceptFd =>
    have ht : t = { s with readFds := fdSet s.servSock [], exceptFd := exceptFd } := step_cases hs
    rw [ht]
    exact h
  | timeout =>
    have ht : t = { s with readFds := [], exceptFd := [] } := step_cases hs
    rw [ht]
    exact h
  | ready readFds exceptFd cliSock recv =>
    obtain ⟨hne, ⟨-, rfl⟩ | ⟨-, hsock, -, hall⟩⟩ := step_cases hs
    · rw [List.mem_append, List.mem_singleton]
      rintro (hc | hc)
      · exact h hc
      · exact hne hc.symm
    · intro hc
      exact h (hall (hsock ▸ hc))

/-- **One round** leaves all sockets in `read_fds` exactly under its
    condition. -/
theorem watches_step {s t : Server} {a : Round} (h : s.servSock ∉ s.allCliSockets)
    (hs : step s a = some t) : Watches t ↔ KeepsAll s a := by
  cases a with
  | error exceptFd =>
    have ht : t = { s with readFds := fdSet s.servSock [], exceptFd := exceptFd } := step_cases hs
    rw [ht]
    have hmem : ∀ c, c ∈ fdSet s.servSock [] ↔ c = s.servSock := by
      intro c
      rw [mem_fdSet]
      simp [fdSetSize]
    constructor
    · rintro ⟨-, hall⟩
      refine List.eq_nil_iff_forall_not_mem.2 ?_
      intro c hc
      rw [(hmem c).1 (hall c hc)] at hc
      exact h hc
    · intro hnil
      exact ⟨(hmem _).2 rfl, by simp [show s.allCliSockets = [] from hnil]⟩
  | timeout =>
    have ht : t = { s with readFds := [], exceptFd := [] } := step_cases hs
    rw [ht]
    simp [Watches, KeepsAll]
  | ready readFds exceptFd cliSock recv =>
    obtain ⟨-, ⟨hnew, rfl⟩ | ⟨hnew, hsock, hread, -⟩⟩ := step_cases hs
    · rw [watches_accept hnew]
      simp [KeepsAll, hnew]
    · constructor
      · rintro ⟨hserv, -⟩
        exact absurd (hread (hsock ▸ hserv)) hnew
      · rintro ⟨hserv, -⟩
        exact absurd hserv hnew

/-- **The watched sockets.**  In a run, the listening socket and all clients are
    in `read_fds` at every call to `select` exactly if every round leaves them
    there. -/
theorem select_watches_iff {servSock : Socket} {h : List (Server × Round)} {s : Server}
    (hr : Run step (Server.init servSock) h s) : Always Watches h s ↔ Steps KeepsAll h := by
  refine hr.always_iff (I := fun s => s.servSock ∉ s.allCliSockets) List.not_mem_nil ?_ ?_ ?_
  · have hroom : ([] : FdSet).length < fdSetSize := by decide
    refine ⟨mem_fdSet.2 (.inr ⟨rfl, hroom⟩), ?_⟩
    intro c hc
    cases hc
  · intro s a t h _ _ hs
    exact servSock_step h hs
  · intro s a t h _ hs
    exact watches_step h hs

/-- A first client connects. -/
theorem select_watches_first : ∃ h s, Run step (Server.init 3) h s ∧ s.allCliSockets = [4] ∧
    Always Watches h s := by
  have hr : Run step (Server.init 3) _ _ :=
    .snoc (a := .ready [3] [] 4 fun _ => none) .nil rfl
  refine ⟨_, _, hr, rfl, (select_watches_iff hr).2 ?_⟩
  rw [steps_cons]
  refine ⟨⟨by decide, nofun, .inr (by decide)⟩, ?_⟩
  intro x hx
  cases hx

/-- A client connects, and then sends data: the next call to `select` does not
    watch the listening socket.  A call after a timeout watches nothing. -/
theorem timeout_forgets :
    (∃ h s, Run step (Server.init 3) h s ∧ s.readFds = [4] ∧ s.allCliSockets = [4] ∧
      ¬ Watches s) ∧
    ∃ h s, Run step (Server.init 3) h s ∧ h.length = 1 ∧ s.readFds = [] ∧ ¬ Watches s := by
  have hdata : Run step (Server.init 3) _ _ :=
    .snoc (a := .ready [4] [] 5 fun _ => some [104, 105])
      (.snoc (a := .ready [3] [] 4 fun _ => none) .nil rfl) rfl
  have htime : Run step (Server.init 3) _ _ := .snoc (a := .timeout) .nil rfl
  refine ⟨⟨_, _, hdata, rfl, rfl, ?_⟩, _, _, htime, rfl, rfl, ?_⟩
  · intro hw
    exact absurd hw.1 (by decide)
  · intro hw
    exact absurd hw.1 (by decide)

end CppExperiment.TinyServer
