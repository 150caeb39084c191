/-
  What a round of `DoLoopIO` does for the clients (Network/tiny_server).

  `all_cli_sockets.erase(begin() + i)` is followed by `++i`: the client behind
  one that is dropped is passed over.  `HandleData` sends back what it has
  received as a C string, and `strlen` leaves the buffer when that was filled
  without a NUL.

  `clients_of_run`: in a round in which only clients are ready, the clients that
  are looked at get back what they have sent, up to its first NUL; those that
  failed are dropped; a client that failed remains iff it stands next to another
  one; and the round is undefined iff one of those looked at has filled the
  buffer.
-/
import CppExperiment.Lib.EraseSkip
import CppExperiment.TinyServer.Loop

namespace CppExperiment.TinyServer

/-- What `recv` gives for each socket; `none` if it fails. -/
abbrev Received := Socket → Option (List UInt8)

/-- `HandleData` finds a NUL in its buffer. -/
def Fits (text : List UInt8) : Prop := 0 ∈ text ∨ text.length < 1024

instance (text : List UInt8) : Decidable (Fits text) := inferInstanceAs (Decidable (_ ∨ _))

theorem handleData_some (text : List UInt8) :
    handleData (some text) = if Fits text then some (true, cstr text) else none := by
  rw [handleData]
  have hmem : (0 : UInt8) ∈ text ++ List.replicate (1024 - text.length) 0 ↔ Fits text := by
    rw [List.mem_append, List.mem_replicate, Fits]
    exact or_congr_right ⟨fun h => by omega, fun h => ⟨by omega, rfl⟩⟩
  have hcstr : cstr (text ++ List.replicate (1024 - text.length) 0) = cstr text := by
    cases 1024 - text.length with
    | zero => rw [List.replicate_zero, List.append_nil]
    | succ k => rw [List.replicate_succ, cstr_append_zero]
  simp only [hmem, hcstr]

variable {readFds exceptFd : FdSet} {data : Received} {recv : ℕ → Option (List UInt8)}
  {clients pre : List Socket} {s t : Server} {c : Socket}

/-- The client is ready, and `recv` fails. -/
def fails (readFds : FdSet) (data : Received) (c : Socket) : Bool :=
  c ∈ readFds && (data c).isNone

/-- The client is not ready, or `recv` fails, or `HandleData` is defined for what
    it has sent. -/
def sound (readFds : FdSet) (data : Received) (c : Socket) : Bool :=
  c ∉ readFds || match data c with
    | none => true
    | some text => Fits text

/-- What is sent back to the clients that are looked at. -/
def echoes (readFds : FdSet) (data : Received) (clients : List Socket) :
    List (Socket × List UInt8) :=
  (clients.filter (· ∈ readFds)).filterMap fun c => (data c).map fun text => (c, cstr text)

/-- The calls of `recv` in a round answer for the sockets they are made for. -/
def Answers (recv : ℕ → Option (List UInt8)) (data : Received) (i : ℕ) (seen : List Socket) :
    Prop :=
  ∀ j c, seen[j]? = some c → recv (i + j) = data c

theorem answers_cons {i : ℕ} {seen : List Socket} (h : Answers recv data i (c :: seen)) :
    recv i = data c ∧ Answers recv data (i + 1) seen := by
  refine ⟨h 0 c rfl, fun j d hd => ?_⟩
  have hj := h (j + 1) d (by simpa using hd)
  rwa [Nat.add_right_comm, Nat.add_assoc i j 1]

/-! ## One client -/

variable {n : ℕ} {rest : List Socket}

/-- A client that is not dropped. -/
theorem clientLoop_kept (hall : s.allCliSockets = pre ++ c :: rest)
    (hready : c ∈ s.readFds ↔ c ∈ readFds) (hrecv : recv pre.length = data c)
    (hc : ¬ fails readFds data c) :
    clientLoop recv (n + 1) pre.length s = if sound readFds data c then
        clientLoop recv n (pre.length + 1) { s with sent := s.sent ++ echoes readFds data [c] }
      else none := by
  have hget : s.allCliSockets[pre.length]? = some c := by
    rw [hall, List.getElem?_append_right le_rfl, Nat.sub_self, List.getElem?_cons_zero]
  rw [clientLoop, hget]
  dsimp only
  by_cases hmem : c ∈ readFds
  · rw [if_pos (hready.2 hmem), hrecv]
    cases hd : data c with
    | none => simp [fails, hmem, hd] at hc
    | some text =>
      rw [handleData_some]
      by_cases hf : Fits text
      · simp [sound, echoes, hmem, hd, hf]
      · simp [sound, hmem, hd, hf]
  · rw [if_neg (mt hready.1 hmem)]
    simp [sound, echoes, hmem]

/-- A client that is dropped. -/
theorem clientLoop_dropped (hall : s.allCliSockets = pre ++ c :: rest)
    (hready : c ∈ s.readFds ↔ c ∈ readFds) (hrecv : recv pre.length = data c)
    (hc : fails readFds data c) :
    clientLoop recv (n + 1) pre.length s = clientLoop recv n (pre.length + 1)
      { s with readFds := fdClr c s.readFds, allCliSockets := pre ++ rest } := by
  have hget : s.allCliSockets[pre.length]? = some c := by
    rw [hall, List.getElem?_append_right le_rfl, Nat.sub_self, List.getElem?_cons_zero]
  have herase : s.allCliSockets.eraseIdx pre.length = pre ++ rest := by
    rw [hall, List.eraseIdx_append_of_length_le le_rfl, Nat.sub_self, List.eraseIdx_cons_zero]
  simp only [fails, Bool.and_eq_true, decide_eq_true_eq, Option.isNone_iff_eq_none] at hc
  rw [clientLoop, hget]
  dsimp only
  rw [if_pos (hready.2 hc.1), hrecv, hc.2, herase]
  rfl

/-! ## All clients -/

/-- The server after the loop over the clients `rest`. -/
def served (readFds : FdSet) (data : Received) (s : Server) (pre rest : List Socket) : Server :=
  let seen := lookedAt (fails readFds data) rest
  { s with
    readFds := (seen.filter (fails readFds data)).foldl (fun fds c => fdClr c fds) s.readFds
    allCliSockets := pre ++ eraseSkip (fails readFds data) rest
    sent := s.sent ++ echoes readFds data seen }

theorem echoes_cons : echoes readFds data (c :: rest) =
    echoes readFds data [c] ++ echoes readFds data rest := by
  rw [← List.singleton_append, echoes, List.filter_append, List.filterMap_append]
  rfl

theorem echoes_fails (hc : fails readFds data c) : echoes readFds data [c] = [] := by
  simp only [fails, Bool.and_eq_true, decide_eq_true_eq, Option.isNone_iff_eq_none] at hc
  simp [echoes, hc.1, hc.2]

theorem sound_fails (hc : fails readFds data c) : sound readFds data c := by
  simp only [fails, Bool.and_eq_true, decide_eq_true_eq, Option.isNone_iff_eq_none] at hc
  simp [sound, hc.2]

theorem clientLoop_end {i : ℕ} (hi : s.allCliSockets.length ≤ i) :
    clientLoop recv n i s = some s := by
  cases n with
  | zero => rw [clientLoop]
  | succ n => rw [clientLoop, List.getElem?_eq_none hi]

/-- Dropping a client does not change whether another one is ready. -/
theorem mem_fdClr {d : Socket} (hd : d ≠ c) : d ∈ fdClr c s.readFds ↔ d ∈ s.readFds :=
  List.mem_erase_of_ne hd

/-- The loop goes on behind a client that is not dropped. -/
theorem clientLoop_kept_eq (hall : s.allCliSockets = pre ++ c :: rest)
    (hready : c ∈ s.readFds ↔ c ∈ readFds) (hrecv : recv pre.length = data c)
    (hc : ¬ fails readFds data c)
    (ih : ∀ u : Server, u.allCliSockets = (pre ++ [c]) ++ rest → u.readFds = s.readFds →
      clientLoop recv n (pre ++ [c]).length u =
        if (lookedAt (fails readFds data) rest).all (sound readFds data) then
          some (served readFds data u (pre ++ [c]) rest)
        else none) :
    clientLoop recv (n + 1) pre.length s =
      if (lookedAt (fails readFds data) (c :: rest)).all (sound readFds data) then
        some (served readFds data s pre (c :: rest))
      else none := by
  have hrec := ih { s with sent := s.sent ++ echoes readFds data [c] } (by simp [hall]) rfl
  rw [List.length_append, List.length_singleton] at hrec
  rw [clientLoop_kept hall hready hrecv hc, hrec, lookedAt_neg hc, List.all_cons]
  by_cases hs : sound readFds data c
  · rw [if_pos hs, hs, Bool.true_and]
    simp only [served, lookedAt_neg hc, eraseSkip_neg hc, List.filter_cons_of_neg hc,
      @echoes_cons _ _ _ (lookedAt _ _), List.append_assoc, List.singleton_append]
  · rw [Bool.not_eq_true] at hs
    simp only [hs, Bool.false_and, Bool.false_eq_true, if_false]

/-- **The loop over the clients.** -/
theorem clientLoop_eq (hall : s.allCliSockets = pre ++ rest) (hn : rest.length ≤ n)
    (hnodup : rest.Nodup) (hready : ∀ c ∈ rest, c ∈ s.readFds ↔ c ∈ readFds)
    (hrecv : Answers recv data pre.length (lookedAt (fails readFds data) rest)) :
    clientLoop recv n pre.length s =
      if (lookedAt (fails readFds data) rest).all (sound readFds data) then
        some (served readFds data s pre rest)
      else none := by
  induction rest using lookedAt.induct (fails readFds data) generalizing n pre s with
  | case1 =>
    rw [List.append_nil] at hall
    rw [clientLoop_end (by rw [hall])]
    simp [lookedAt, served, eraseSkip, echoes, ← hall]
  | case2 c =>
    obtain ⟨n, rfl⟩ := Nat.exists_eq_add_one_of_ne_zero (Nat.one_le_iff_ne_zero.1 hn)
    have hrc := (@answers_cons _ _ c _ [] hrecv).1
    by_cases hc : fails readFds data c
    · rw [clientLoop_dropped hall (hready c List.mem_cons_self) hrc hc, List.append_nil,
        clientLoop_end]
      · simp [lookedAt, served, eraseSkip, hc, sound_fails hc, echoes_fails hc]
      · exact Nat.le_succ _
    · refine clientLoop_kept_eq hall (hready c List.mem_cons_self) hrc hc fun u hu _ => ?_
      rw [List.append_nil] at hu
      rw [clientLoop_end (by rw [hu])]
      simp [lookedAt, served, eraseSkip, echoes, ← hu]
  | case3 c d rest hc ih =>
    obtain ⟨n, rfl⟩ := Nat.exists_eq_add_one_of_ne_zero (n := n) (by simp at hn; omega)
    rw [lookedAt_pos hc] at hrecv
    obtain ⟨hrc, hrest⟩ := answers_cons hrecv
    rw [clientLoop_dropped hall (hready c List.mem_cons_self) hrc hc]
    have hrec := @ih (pre ++ [d])
      { s with readFds := fdClr c s.readFds, allCliSockets := pre ++ d :: rest } n (by simp)
       (by simp at hn; omega) hnodup.of_cons.of_cons ?_ (by simpa using hrest)
    · rw [List.length_append, List.length_singleton] at hrec
      rw [hrec, lookedAt_pos hc, List.all_cons, sound_fails hc, Bool.true_and]
      simp only [served, lookedAt_pos hc, eraseSkip_pos hc, List.filter_cons_of_pos hc,
        @echoes_cons _ _ _ (lookedAt _ _), echoes_fails hc, List.nil_append, List.foldl_cons,
        List.append_assoc, List.singleton_append]
    · intro e he
      have hec : e ≠ c := by
        rintro rfl
        exact (List.nodup_cons.1 hnodup).1 (List.mem_cons_of_mem d he)
      rw [mem_fdClr hec]
      exact hready e (List.mem_cons_of_mem c (List.mem_cons_of_mem d he))
  | case4 c d rest hc ih =>
    obtain ⟨n, rfl⟩ := Nat.exists_eq_add_one_of_ne_zero (n := n) (by simp at hn; omega)
    rw [lookedAt_neg hc] at hrecv
    obtain ⟨hrc, hrest⟩ := answers_cons hrecv
    refine clientLoop_kept_eq hall (hready c List.mem_cons_self) hrc hc fun u hu hfds => ?_
    refine ih hu (by simpa using hn) hnodup.of_cons ?_ (by simpa using hrest)
    intro e he
    rw [hfds]
    exact hready e (List.mem_cons_of_mem c he)

/-! ## Runs -/

/-- A socket from `accept` is not that of a client. -/
def FreshSocket (s : Server) : Round → Prop
  | .ready readFds _ cliSock _ => s.servSock ∈ readFds → cliSock ∉ s.allCliSockets
  | _ => True

/-- The loop over the clients only drops some of them. -/
theorem clientLoop_sublist {i : ℕ} (h : clientLoop recv n i s = some t) :
    t.allCliSockets.Sublist s.allCliSockets := by
  induction n generalizing i s with
  | zero =>
    cases h
    exact .refl _
  | succ n ih =>
    rw [clientLoop] at h
    split at h
    · cases h
      exact .refl _
    · next cs _ =>
      split_ifs at h
      · split at h
        · cases h
        · have hsub := ih h
          exact hsub
        · exact (ih h).trans (List.eraseIdx_sublist ..)
      · exact ih h

theorem nodup_step {a : Round} (hs : s.allCliSockets.Nodup) (hf : FreshSocket s a)
    (hst : step s a = some t) : t.allCliSockets.Nodup := by
  unfold step at hst
  split at hst
  · cases hst
  cases a with
  | error exceptFd =>
    cases hst
    exact hs
  | timeout =>
    cases hst
    exact hs
  | ready readFds exceptFd cliSock recv =>
    dsimp only at hst
    split_ifs at hst with hsel hserv
    · cases hst
      exact List.nodup_append.2 ⟨hs, List.nodup_singleton _, by
        intro c hc d hd hcd
        rw [List.mem_singleton] at hd
        exact hf hserv (hd ▸ hcd ▸ hc)⟩
    · exact hs.sublist (clientLoop_sublist hst)

/-- `select` returns, and only clients are ready. -/
def ClientsReady (s : Server) (readFds exceptFd : FdSet) (cliSock : Socket) : Prop :=
  s.servSock ≠ invalidSocket ∧ readFds.Sublist s.readFds ∧ exceptFd.Sublist s.exceptFd ∧
    readFds ++ exceptFd ≠ [] ∧ cliSock ≠ s.servSock ∧ s.servSock ∉ readFds

theorem step_clientsReady {cliSock : Socket} (h : ClientsReady s readFds exceptFd cliSock) :
    step s (.ready readFds exceptFd cliSock recv) =
      clientLoop recv s.allCliSockets.length 0
        { s with readFds := readFds, exceptFd := exceptFd } := by
  obtain ⟨hvalid, hread, hexcept, hne, hcli, hserv⟩ := h
  rw [step, if_neg hvalid]
  dsimp only
  rw [if_pos ⟨hread, hexcept, hne, hcli⟩, if_neg hserv]

/-- **A round for the clients.** -/
theorem clients_of_run {servSock cliSock : Socket} {h : List (Server × Round)}
    (hr : Run step (Server.init servSock) h s) (hf : Steps FreshSocket h)
    (hready : ClientsReady s readFds exceptFd cliSock)
    (hrecv : Answers recv data 0 (lookedAt (fails readFds data) s.allCliSockets)) :
    (step s (.ready readFds exceptFd cliSock recv) = none ↔
        ∃ c ∈ lookedAt (fails readFds data) s.allCliSockets, c ∈ readFds ∧
          ∃ text, data c = some text ∧ ¬ Fits text) ∧
      ∀ t, step s (.ready readFds exceptFd cliSock recv) = some t →
        t.allCliSockets = eraseSkip (fails readFds data) s.allCliSockets ∧
        t.sent = s.sent ++ echoes readFds data (lookedAt (fails readFds data) s.allCliSockets) ∧
        ((∀ c ∈ t.allCliSockets, ¬ fails readFds data c) ↔
          s.allCliSockets.IsChain fun c d => ¬ (fails readFds data c ∧ fails readFds data d)) := by
  have hnodup : s.allCliSockets.Nodup :=
    hr.inv_of_steps (I := fun s => s.allCliSockets.Nodup) List.nodup_nil
      (fun _ _ _ hs hf hst => nodup_step hs hf hst) hf
  rw [step_clientsReady hready]
  have heq := @clientLoop_eq readFds data recv []
    { s with readFds := readFds, exceptFd := exceptFd } _ s.allCliSockets rfl le_rfl hnodup
    (fun c _ => Iff.rfl) hrecv
  rw [List.length_nil] at heq
  rw [heq]
  constructor
  · rw [ite_eq_right_iff, imp_iff_not (by simp), List.all_eq_true]
    push Not
    refine exists_congr fun c => and_congr_right fun _ => ?_
    cases hd : data c <;> simp [sound, hd]
  · intro t ht
    split_ifs at ht
    cases ht
    exact ⟨rfl, rfl, eraseSkip_clean_iff⟩

/-- Two clients fail: the second one remains. -/
theorem clients_of_run_two : ∃ h s t, Run step (Server.init 3) h s ∧
    step s (.ready [4, 5] [] 6 fun _ => none) = some t ∧ t.allCliSockets = [5] ∧
    ((∀ c ∈ t.allCliSockets, ¬ fails [4, 5] (fun _ => none) c) ↔
      s.allCliSockets.IsChain fun c d =>
        ¬ (fails [4, 5] (fun _ => none) c ∧ fails [4, 5] (fun _ => none) d)) := by
  have hr : Run step (Server.init 3) _ _ := .snoc (a := .ready [3, 4] [] 5 fun _ => none)
    (.snoc (a := .ready [3] [] 4 fun _ => none) .nil rfl) rfl
  have hround := @clients_of_run [4, 5] [] (fun _ => none) (fun _ => none) _ 3 6 _ hr ?_
    ⟨by decide, by decide, by decide, by decide, by decide, by decide⟩ (fun _ _ _ => rfl)
  · exact ⟨_, _, _, hr, rfl, rfl, (hround.2 _ rfl).2.2⟩
  · rw [steps_cons, steps_cons]
    refine ⟨fun _ => by decide, fun _ => by decide, ?_⟩
    intro x hx
    cases hx

end CppExperiment.TinyServer
