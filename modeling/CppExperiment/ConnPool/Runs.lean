/-
  What holds in every run of the connection pool.

  * `owns_of_run`: the state implements a ledger throughout, as long as
    `ReleasePool` is called on an empty pool only.
  * `one_owner`: without `ReleasePool`, and if `Create()` does not throw, every
    live connection is in one slot or with one client.
  * `entries_live_iff`: the entries of the pool are live connections throughout
    a run exactly if `ReleasePool` is only called on an empty pool;
    `releasePool_null` is the failing run.
-/
import CppExperiment.ConnPool.Ownership

namespace CppExperiment.ConnPool

variable {s t : State} {L : Ledger Owner Conn} {a : Action} {h : List (State × Action)} {now : ℤ}

theorem owns_step (hL : ∃ L, Owns s L) (he : EmptyRelease s a) (hs : step s a = some t) :
    ∃ L, Owns t L := by
  obtain ⟨L, ho⟩ := hL
  obtain ⟨L', -, ho', -⟩ := effect_refines ho (step_effect ho he hs)
  exact ⟨L', ho'⟩

/-- **Ownership.**  In a run that releases only empty pools, every state
    implements a ledger. -/
theorem owns_of_run (hr : Run step (State.init now) h s) (hG : Steps EmptyRelease h) :
    ∃ L, Owns s L :=
  hr.inv_of_steps ⟨_, owns_init now⟩ (fun _ _ _ hL he hs => owns_step hL he hs) hG

/-! ## One owner -/

/-- `ReleasePool` is not called and `Create()` returns. -/
def Regular (_ : State) : Action → Prop
  | .create _ r => r ≠ .thrown
  | .releasePool _ => False
  | _ => True

theorem Regular.emptyRelease (h : Regular s a) : EmptyRelease s a := by
  cases a <;> simp_all [Regular, EmptyRelease]

/-- Every live connection is in exactly one slot of the pool or held by exactly
    one client, and nothing else is in the pool or held. -/
structure OneOwner (s : State) : Prop where
  live : ∀ c ∈ s.heap.live, (s.pool.conns.count (some c) = 1 ∧ ∀ k, c ∉ s.held k) ∨
    (some c ∉ s.pool.conns ∧ ∃ k, (s.held k).count c = 1 ∧ ∀ j, j ≠ k → c ∉ s.held j)
  pooled : ∀ p ∈ s.pool.conns, ∃ c ∈ s.heap.live, p = some c
  held : ∀ k, ∀ c ∈ s.held k, c ∈ s.heap.live
  /-- in particular, nothing was freed twice -/
  fault : s.fault = none
  cap : s.pool.conns.length ≤ maxConnNum

theorem Owns.entries (ho : Owns s L) : ∀ p ∈ s.pool.conns, ∃ c ∈ s.heap.live, p = some c := by
  obtain ⟨cs, hcs, hl⟩ := ho.slots
  intro p hp
  rw [hcs] at hp
  obtain ⟨c, hc, rfl⟩ := List.mem_map.1 hp
  exact ⟨c, ho.live.mem (hl.owner hc), rfl⟩

theorem Owns.oneOwner (ho : Owns s L) (hlost : ∀ c, L c ≠ some .lost) : OneOwner s := by
  refine ⟨?_, ho.entries, fun k c hc => ho.held_live hc, ho.fault, ho.cap⟩
  intro c hc
  obtain ⟨cs, hcs, hl⟩ := ho.slots
  obtain ⟨o, hoc⟩ := Option.isSome_iff_exists.1 ((ho.live c).1 hc)
  cases o with
  | pool =>
    left
    constructor
    · rw [hcs, List.count_map_of_injective _ _ (Option.some_injective _)]
      exact List.count_eq_one_of_mem hl.nodup ((hl.mem c).2 hoc)
    · intro k hk
      rw [(ho.held k).owner hk] at hoc
      cases hoc
  | client k =>
    right
    refine ⟨?_, k, ?_, ?_⟩
    · intro hp
      rw [ho.mem_conns.1 hp] at hoc
      cases hoc
    · exact List.count_eq_one_of_mem (ho.held k).nodup (((ho.held k).mem c).2 hoc)
    · intro j hj hcj
      rw [(ho.held j).owner hcj] at hoc
      cases hoc
      exact hj rfl
  | lost => exact absurd hoc (hlost c)

/-- **One owner.**  Whatever the clients do, in whatever order their steps are
    taken, every live connection has exactly one owner, nothing is freed twice
    and the pool stays within its capacity. -/
theorem one_owner (hr : Run step (State.init now) h s) (hG : Steps Regular h) : OneOwner s := by
  have key : ∃ L, Owns s L ∧ ∀ c, L c ≠ some .lost := by
    refine hr.inv_of_steps (I := fun s => ∃ L, Owns s L ∧ ∀ c, L c ≠ some .lost)
      ⟨_, owns_init now, by simp⟩ ?_ hG
    rintro s a t ⟨L, ho, hlost⟩ hreg hs
    obtain ⟨L', -, ho', h⟩ := effect_refines ho (step_effect ho hreg.emptyRelease hs)
    rcases h with ⟨k, rfl⟩ | h
    · exact absurd rfl hreg
    · exact ⟨L', ho', fun c hc => hlost c (h c hc)⟩
  obtain ⟨L, ho, hlost⟩ := key
  exact ho.oneOwner hlost

/-- Two clients: one puts its connection back, the other holds one. -/
theorem one_owner_two_clients : ∃ h s, Run step (State.init 0) h s ∧
    s.pool.conns = [some 7] ∧ s.held 1 = [8] ∧ OneOwner s := by
  have hr : Run step (State.init 0) _ _ := .snoc (a := .putConnect 0 7)
    (.snoc (a := .create 1 .ok) (.snoc (a := .create 0 .ok) (.snoc (a := .newConn 1 (some 8))
      (.snoc (a := .newConn 0 (some 7)) (.snoc (a := .getConnect 1)
        (.snoc (a := .getConnect 0) .nil rfl) rfl) rfl) rfl) rfl) rfl) rfl
  exact ⟨_, _, hr, rfl, rfl, one_owner hr (by simp [Steps, Regular])⟩

/-! ## Live entries -/

/-- The pool holds live connections only; hence `CheckConnect` runs into no
    undefined behaviour, and `GetConnect` returns null only if it tried to
    create a connection and failed. -/
structure Sound (s : State) : Prop where
  fault : s.fault = none
  entries : ∀ p ∈ s.pool.conns, ∃ c ∈ s.heap.live, p = some c
  check : ∀ now now' valid, ∃ r, checkConnect now now' valid s.pool s.heap = .ok r
  get : ∀ p r pool heap, getConnect s.pool s.heap p r = .ok (none, pool, heap) →
    s.pool.conns = [] ∧ (p = none ∨ r ≠ .ok)

theorem Owns.sound (ho : Owns s L) : Sound s := by
  obtain ⟨cs, hcs, hl⟩ := ho.slots
  refine ⟨ho.fault, ho.entries, ?_, ?_⟩
  · intro now now' valid
    by_cases hnow : now - s.pool.lastCheckTime < 1
    · exact ⟨_, if_pos hnow⟩
    · obtain ⟨ds, -, hr⟩ := checkConnect_spec ho hcs hl now' valid hnow
      exact ⟨_, hr⟩
  · intro p r pool heap hg
    rcases List.eq_nil_or_concat cs with rfl | ⟨cs, c, rfl⟩
    · refine ⟨hcs, ?_⟩
      simp only [getConnect, popConn_nil hcs] at hg
      cases p with
      | none => exact .inl rfl
      | some p =>
        right
        rintro rfl
        simp only [createConn, afterNew, ok_bind] at hg
        cases hg
    · rw [List.concat_eq_append] at hcs
      have hpop := popConn_append (s := s.pool) (cs.map some) (some c) (by simp [hcs])
      simp only [getConnect, hpop] at hg
      cases hg

theorem releaseAll_null : ∀ {ps qs : List Ptr} {h h' : Heap Conn},
    releaseAll ps h = .ok (qs, h') → qs = ps.map fun _ => none
  | [], qs, h, h', he => by cases he; rfl
  | p :: ps, qs, h, h', he => by
    simp only [releaseAll, free] at he
    rcases hd : h.delete p with f | h₁
    · rw [hd] at he; cases he
    rw [hd] at he
    rcases hr : releaseAll ps h₁ with f | ⟨qs', h₂⟩
    · simp only [pure, Except.pure, ok_bind, hr] at he; cases he
    · simp only [pure, Except.pure, ok_bind, hr] at he
      cases he
      rw [releaseAll_null hr, List.map_cons]

/-- A pool that is not empty is left with null entries. -/
theorem releasePool_unsound {k : ℕ} (hs : step s (.releasePool k) = some t)
    (hf : s.fault = none) (hne : s.pool.conns ≠ []) : ¬ Sound t := by
  intro hsound
  unfold step at hs
  rw [if_neg (by simp [hf])] at hs
  simp only at hs
  split_ifs at hs with hpc
  rcases hr : releaseAll s.pool.conns s.heap with f | ⟨qs, h'⟩
  · simp only [releasePool, hr] at hs
    injection hs with hs
    have := hsound.fault; rw [← hs] at this; cases this
  · simp only [releasePool, hr, ok_bind] at hs
    injection hs with hs
    obtain ⟨p, ps, hps⟩ := List.exists_cons_of_ne_nil hne
    have hnull : none ∈ t.pool.conns := by
      rw [← hs]; show none ∈ qs
      rw [releaseAll_null hr, hps]; simp
    obtain ⟨c, -, hc⟩ := hsound.entries none hnull
    cases hc

/-- **Live entries.**  In a run, the pool holds live connections only (and what
    follows from it) in every state, exactly if `ReleasePool` is only called on
    an empty pool. -/
theorem entries_live_iff (hr : Run step (State.init now) h s) :
    Always Sound h s ↔ Steps EmptyRelease h := by
  refine hr.always_iff (I := fun s => ∃ L, Owns s L) ⟨_, owns_init now⟩ (owns_init now).sound ?_ ?_
  · intro s a t hL _ he hs
    exact owns_step hL he hs
  · intro s a t hL hP hs
    constructor
    · intro hPt
      cases a with
      | releasePool k =>
        by_contra hne
        exact releasePool_unsound hs hP.fault hne hPt
      | _ => trivial
    · intro he
      obtain ⟨L, ho⟩ := owns_step hL he hs
      exact ho.sound

/-- A connection is created, and the still empty pool is released. -/
theorem entries_live_empty : ∃ h s, Run step (State.init 0) h s ∧ h.length = 4 ∧
    (Always Sound h s ↔ Steps EmptyRelease h) := by
  have hr : Run step (State.init 0) _ _ := .snoc (a := .releasePool 0)
    (.snoc (a := .create 0 .ok) (.snoc (a := .newConn 0 (some 7))
      (.snoc (a := .getConnect 0) .nil rfl) rfl) rfl) rfl
  exact ⟨_, _, hr, rfl, entries_live_iff hr⟩

/-- A connection is created and put back, and the pool is released: its entry
    is null.  `CheckConnect` then dereferences a null pointer, and `GetConnect`
    returns null although nothing was created. -/
theorem releasePool_null : ∃ h s, Run step (State.init 0) h s ∧ s.pool.conns = [none] ∧
    checkConnect 5 5 (fun _ => true) s.pool s.heap = .error .nullDeref ∧
    getConnect s.pool s.heap (some 9) .ok = .ok (none, ⟨[], 0⟩, s.heap) := by
  refine ⟨_, _, .snoc (a := .releasePool 0) (.snoc (a := .putConnect 0 7)
    (.snoc (a := .create 0 .ok) (.snoc (a := .newConn 0 (some 7))
      (.snoc (a := .getConnect 0) .nil rfl) rfl) rfl) rfl) rfl, rfl, rfl, rfl⟩

end CppExperiment.ConnPool
