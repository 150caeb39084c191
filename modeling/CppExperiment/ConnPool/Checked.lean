/-
  What `GetConnectWithCheckConnectFlag` returns.

  A call of the client `k` is the step `checkConnect`, then steps of any
  clients, among them those of the call, then the step that returns a
  connection.  The mutex is free between the check and the pop.

  * `checked_returned`: the connection was valid in the call's check, or is new,
    unless the check was skipped or another client put the connection back in
    between.
  * `checked_returned_invalid`: both exceptions happen.
-/
import CppExperiment.ConnPool.Runs

namespace CppExperiment.ConnPool

variable {s t u : State} {k : ℕ} {a : Action} {g : List (State × Action)} {c : Conn}

/-- The client `k` is in a call. -/
def InCall (k : ℕ) (s : State) : Prop := s.pc k ≠ .idle

/-- The action in the state `u` ends a call of the client `k`, which returns the
    connection `c`. -/
inductive Returns (k : ℕ) (c : Conn) (u : State) : Action → Prop
  | pop {pool : Pool} : popConn u.pool = some (some c, pool) → Returns k c u (.getConnect k)
  | created : u.pc k = .created c → Returns k c u (.create k .ok)

/-! ## What a step does to the pool and to a call -/

theorem popConn_some {s pool : Pool} {p : Ptr} (h : popConn s = some (p, pool)) :
    p ∈ s.conns ∧ pool.conns ⊆ s.conns := by
  unfold popConn at h
  rcases hl : s.conns.getLast? with _ | q
  · rw [hl] at h; cases h
  · rw [hl] at h
    cases h
    exact ⟨List.mem_of_getLast? hl, List.dropLast_subset _⟩

/-- A connection comes into the pool by a put only, and into a call by `new`
    only. -/
structure Origin (s : State) (a : Action) (t : State) : Prop where
  entry : ∀ c, some c ∈ t.pool.conns →
    some c ∈ s.pool.conns ∨ ∃ j, s.pc j = .idle ∧ a = .putConnect j c
  created : ∀ j c, t.pc j = .created c → s.pc j = .created c ∨ a = .newConn j (some c)

theorem Origin.of_subset (hp : t.pool.conns ⊆ s.pool.conns) {q : Pc} (hq : ∀ c, q ≠ .created c)
    (hpc : t.pc = Function.update s.pc k q) : Origin s a t := by
  refine ⟨fun c hc => .inl (hp hc), ?_⟩
  intro j c hj
  rw [hpc] at hj
  by_cases hjk : j = k
  · subst hjk
    rw [Function.update_self] at hj
    exact absurd hj (hq c)
  · rw [Function.update_of_ne hjk] at hj
    exact .inl hj

theorem Origin.of_pc (hp : t.pool.conns ⊆ s.pool.conns) (hpc : t.pc = s.pc) : Origin s a t :=
  ⟨fun _ hc => .inl (hp hc), fun _ _ hj => .inl (hpc ▸ hj)⟩

theorem step_origin (hs : step s a = some t) : Origin s a t := by
  unfold step at hs
  split_ifs at hs
  cases a with
  | getConnect k =>
    simp only at hs
    split_ifs at hs
    rcases hp : popConn s.pool with _ | ⟨p, pool⟩
    · rw [hp] at hs; cases hs
      exact .of_subset (List.Subset.refl _) (by simp) rfl
    · rw [hp] at hs; cases hs
      refine .of_subset (k := k) (q := .idle) ?_ (by simp) (by simp)
      rw [State.gain_pool]
      exact (popConn_some hp).2
  | checkConnect k now now' valid =>
    simp only at hs
    split_ifs at hs
    rcases hr : checkConnect now now' valid s.pool s.heap with f | ⟨pool, heap⟩
    · rw [hr] at hs; cases hs
      exact .of_pc (List.Subset.refl _) rfl
    · rw [hr] at hs; cases hs
      exact .of_subset (checkConnect_ok hr).1 (by simp) rfl
  | newConn k p =>
    simp only at hs
    split_ifs at hs
    cases p with
    | none =>
      cases hs
      exact .of_subset (List.Subset.refl _) (by simp) rfl
    | some d =>
      simp only at hs
      split_ifs at hs
      cases hs
      refine ⟨fun c hc => .inl hc, ?_⟩
      intro j c hj
      by_cases hjk : j = k
      · subst hjk
        obtain rfl : d = c := by simpa using hj
        exact .inr rfl
      · exact .inl (by simpa [hjk] using hj)
  | create k r =>
    simp only at hs
    cases hpc : s.pc k with
    | created d =>
      rw [hpc] at hs
      simp only at hs
      rcases hr : afterNew s.heap d r with f | ⟨_ | q, heap⟩
      · rw [hr] at hs; cases hs
        exact .of_pc (List.Subset.refl _) rfl
      · rw [hr] at hs; cases hs
        exact .of_subset (List.Subset.refl _) (by simp) rfl
      · rw [hr] at hs; cases hs
        exact .of_subset (List.Subset.refl _) (by simp) rfl
    | _ => rw [hpc] at hs; cases hs
  | putConnect k d =>
    simp only at hs
    split_ifs at hs with hk
    by_cases hlen : s.pool.conns.length < maxConnNum
    · simp only [putConnect, if_pos hlen] at hs
      cases hs
      refine ⟨?_, fun _ _ hj => .inl hj⟩
      intro c hc
      rcases List.mem_append.1 hc with hc | hc
      · exact .inl hc
      · obtain rfl : c = d := by simpa using hc
        exact .inr ⟨k, hk.1, rfl⟩
    · rcases hf : free s.heap (some d) with f | ⟨h', p⟩
      · simp only [putConnect, if_neg hlen, hf] at hs
        cases hs
        exact .of_pc (List.Subset.refl _) rfl
      · simp only [putConnect, if_neg hlen, hf, ok_bind] at hs
        cases hs
        exact .of_pc (List.Subset.refl _) rfl
  | releaseConnect k d =>
    simp only at hs
    split_ifs at hs
    rcases hr : releaseConnect s.heap (some d) with f | ⟨heap, p⟩
    · rw [hr] at hs; cases hs
      exact .of_pc (List.Subset.refl _) rfl
    · rw [hr] at hs; cases hs
      exact .of_pc (List.Subset.refl _) rfl
  | releasePool k =>
    simp only at hs
    split_ifs at hs
    rcases hr : releaseAll s.pool.conns s.heap with f | ⟨qs, h'⟩
    · simp only [releasePool, hr] at hs
      cases hs
      exact .of_pc (List.Subset.refl _) rfl
    · simp only [releasePool, hr, ok_bind] at hs
      cases hs
      refine ⟨?_, fun _ _ hj => .inl hj⟩
      intro c hc
      have hc : some c ∈ qs := hc
      rw [releaseAll_null hr] at hc
      simp at hc

/-! ## From the check to the return -/

/-- What is in the pool while the client `k` is in a call was there before or
    has been put there by another client. -/
theorem entry_of_run (hr : Run step t g u) (hG : Steps (fun s _ => InCall k s) g) :
    ∀ c, some c ∈ u.pool.conns →
      some c ∈ t.pool.conns ∨ ∃ x ∈ g, ∃ j, j ≠ k ∧ x.2 = .putConnect j c := by
  refine hr.inv_hist (I := fun g u => ∀ c, some c ∈ u.pool.conns →
      some c ∈ t.pool.conns ∨ ∃ x ∈ g, ∃ j, j ≠ k ∧ x.2 = .putConnect j c) ?_ ?_ hG
  · exact fun c hc => .inl hc
  · intro g s a u ih hk hs c hc
    rcases (step_origin hs).entry c hc with hc | ⟨j, hj, rfl⟩
    · rcases ih c hc with hc | ⟨x, hx, hput⟩
      · exact .inl hc
      · exact .inr ⟨x, List.mem_cons_of_mem _ hx, hput⟩
    · refine .inr ⟨_, List.mem_cons_self, j, ?_, rfl⟩
      rintro rfl
      exact hk hj

/-- What a client is about to return after `Create()` came from `new`. -/
theorem created_of_run (hr : Run step t g u) (h0 : ∀ c, t.pc k ≠ .created c) :
    ∀ c, u.pc k = .created c → ∃ x ∈ g, x.2 = .newConn k (some c) := by
  refine hr.inv_hist (G := fun _ _ => True)
    (I := fun g u => ∀ c, u.pc k = .created c → ∃ x ∈ g, x.2 = .newConn k (some c)) ?_ ?_
    (fun _ _ => trivial)
  · exact fun c hc => absurd hc (h0 c)
  · intro g s a u ih _ hs c hc
    rcases (step_origin hs).created k c hc with hc | rfl
    · obtain ⟨x, hx, hnew⟩ := ih c hc
      exact ⟨x, List.mem_cons_of_mem _ hx, hnew⟩
    · exact ⟨_, List.mem_cons_self, rfl⟩

/-- The state after the check, if the client is in a call then. -/
theorem step_checkConnect {now now' : ℤ} {valid : Conn → Bool}
    (hs : step s (.checkConnect k now now' valid) = some t) (hk : InCall k t) :
    t.pc k = .checked ∧
      (now - s.pool.lastCheckTime < 1 ∨ ∀ c, some c ∈ t.pool.conns → valid c = true) := by
  unfold step at hs
  split_ifs at hs
  simp only at hs
  split_ifs at hs with hpc
  rcases hr : checkConnect now now' valid s.pool s.heap with f | ⟨pool, heap⟩
  · rw [hr] at hs; cases hs
    exact absurd hpc hk
  · rw [hr] at hs; cases hs
    exact ⟨by simp, (checkConnect_ok hr).2⟩

/-- **Checked connections.**  A connection that the call returns is one whose
    `GetSocketValid()` was true in the call's check or one newly created by the
    call, unless the check was skipped, because the last one was less than a
    second ago, or another client put the connection back after the check. -/
theorem checked_returned {now now' : ℤ} {valid : Conn → Bool}
    (hs : step s (.checkConnect k now now' valid) = some t) (hg : Run step t g u)
    (hk : Always (InCall k) g u) (hr : Returns k c u a) :
    valid c = true ∨ (∃ x ∈ g, x.2 = .newConn k (some c)) ∨ now - s.pool.lastCheckTime < 1 ∨
      ∃ x ∈ g, ∃ j, j ≠ k ∧ x.2 = .putConnect j c := by
  obtain ⟨hpc, hcheck⟩ := step_checkConnect hs (hg.first hk)
  cases hr with
  | pop hpop =>
    rcases entry_of_run hg hk.1 c (popConn_some hpop).1 with hc | hput
    · rcases hcheck with hnow | hvalid
      · exact .inr (.inr (.inl hnow))
      · exact .inl (hvalid c hc)
    · exact .inr (.inr (.inr hput))
  | created hc => exact .inr (.inl (created_of_run hg (by simp [hpc]) c hc))

/-- The pool holds a valid connection, and while the client 0 is in the call,
    client 1 releases an invalid one. -/
theorem checked_returned_other : ∃ h s t g u, Run step (State.init 0) h s ∧
    s.pool.conns = [some 7] ∧ step s (.checkConnect 0 5 5 (· == 7)) = some t ∧
    Run step t g u ∧ g.length = 1 ∧ Returns 0 7 u (.getConnect 0) ∧
    ((7 == 7) = true ∨ (∃ x ∈ g, x.2 = .newConn 0 (some 7)) ∨ 5 - s.pool.lastCheckTime < 1 ∨
      ∃ x ∈ g, ∃ j, j ≠ 0 ∧ x.2 = .putConnect j 7) := by
  have hr : Run step (State.init 0) _ _ := .snoc (a := .putConnect 1 7)
    (.snoc (a := .create 1 .ok) (.snoc (a := .newConn 1 (some 9)) (.snoc (a := .getConnect 1)
      (.snoc (a := .create 1 .ok) (.snoc (a := .newConn 1 (some 7))
        (.snoc (a := .getConnect 1) .nil rfl) rfl) rfl) rfl) rfl) rfl) rfl
  have key {s t u : State} {g : List (State × Action)}
      (hs : step s (.checkConnect 0 5 5 (· == 7)) = some t) (hg : Run step t g u)
      (hk : Always (InCall 0) g u) (hret : Returns 0 7 u (.getConnect 0)) :=
    checked_returned hs hg hk hret
  exact ⟨_, _, _, _, _, hr, rfl, rfl, .snoc (a := .releaseConnect 1 9) .nil rfl, rfl, .pop rfl,
    key rfl (.snoc .nil rfl) (by simp [Always, InCall]) (.pop rfl)⟩

/-- A check at the time of the last one is skipped, so that an invalid
    connection is returned; and after a check of the empty pool another client
    puts an invalid connection back. -/
theorem checked_returned_invalid :
    (∃ h s t v, Run step (State.init 0) h s ∧
      step s (.checkConnect 0 0 0 fun _ => false) = some t ∧ Returns 0 7 t (.getConnect 0) ∧
      step t (.getConnect 0) = some v) ∧
    ∃ h s t g u v, Run step (State.init 0) h s ∧ ¬ 5 - s.pool.lastCheckTime < 1 ∧
      step s (.checkConnect 0 5 5 fun _ => false) = some t ∧ Run step t g u ∧
      Always (InCall 0) g u ∧ (∀ x ∈ g, x.2 ≠ .newConn 0 (some 7)) ∧
      Returns 0 7 u (.getConnect 0) ∧ step u (.getConnect 0) = some v := by
  have hr : Run step (State.init 0) _ _ := .snoc (a := .create 1 .ok)
    (.snoc (a := .newConn 1 (some 7)) (.snoc (a := .getConnect 1) .nil rfl) rfl) rfl
  constructor
  · exact ⟨_, _, _, _, .snoc (a := .putConnect 1 7) hr rfl, rfl, .pop rfl, rfl⟩
  · exact ⟨_, _, _, _, _, _, hr, by decide, rfl, .snoc (a := .putConnect 1 7) .nil rfl,
      by simp [Always, InCall], by simp, .pop rfl, rfl⟩

/-- **One client.**  The whole call without another client's steps. -/
theorem getConnectWithCheckConnectFlag_returned {p s' : Pool} {h h' : Heap Conn}
    {now now' : ℤ} {valid : Conn → Bool} {q : Option Conn} {r : Created}
    (hr : getConnectWithCheckConnectFlag now now' valid p h q r = .ok (some c, s', h')) :
    valid c = true ∨ (q = some c ∧ r = .ok) ∨ now - p.lastCheckTime < 1 := by
  unfold getConnectWithCheckConnectFlag at hr
  rcases hc : checkConnect now now' valid p h with f | ⟨p₁, h₁⟩
  · rw [hc] at hr; cases hr
  rw [hc, ok_bind] at hr
  simp only [getConnect] at hr
  rcases hp : popConn p₁ with _ | ⟨e, p₂⟩
  · rw [hp] at hr
    right; left
    cases q with
    | none => cases hr
    | some d =>
      cases r with
      | ok => cases hr; exact ⟨rfl, rfl⟩
      | failed =>
        rcases hf : free (h₁.new d) (some d) with f | ⟨h₂, e⟩
        · simp only [createConn, afterNew, hf] at hr; cases hr
        · simp only [createConn, afterNew, hf, ok_bind] at hr; cases hr
      | thrown => cases hr
  · rw [hp] at hr
    cases hr
    rcases (checkConnect_ok hc).2 with hnow | hvalid
    · exact .inr (.inr hnow)
    · exact .inl (hvalid c (popConn_some hp).1)

end CppExperiment.ConnPool
