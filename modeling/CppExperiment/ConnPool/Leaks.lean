/-
  Connections that nobody can reach.

  `CreateConn` allocates an object and calls its `Create()`.  If that returns
  false, the object is freed; if it throws, the handler returns null and the
  object stays allocated, although neither the pool nor a client has a pointer
  to it.  `accounted_iff`: this is the only way to lose a connection.
-/
import CppExperiment.ConnPool.Runs

namespace CppExperiment.ConnPool

variable {s t : State} {L : Ledger Owner Conn} {a : Action} {h : List (State × Action)} {now : ℤ}

/-- Every allocated connection is in the pool or held by a client. -/
def Accounted (s : State) : Prop :=
  ∀ c ∈ s.heap.live, some c ∈ s.pool.conns ∨ ∃ k, c ∈ s.held k

/-- The step is not a `Create()` that throws. -/
def NoThrow (_ : State) (a : Action) : Prop := ∀ k, a ≠ .create k .thrown

theorem Owns.accounted_iff_no_lost (ho : Owns s L) : Accounted s ↔ ∀ c, L c ≠ some .lost := by
  constructor
  · intro hacc c hc
    rcases hacc c (ho.live.mem hc) with hp | ⟨k, hk⟩
    · rw [ho.mem_conns.1 hp] at hc; cases hc
    · rw [(ho.held k).owner hk] at hc; cases hc
  · intro hlost c hc
    obtain ⟨o, hoc⟩ := Option.isSome_iff_exists.1 ((ho.live c).1 hc)
    cases o with
    | pool => exact .inl (ho.mem_conns.2 hoc)
    | client k => exact .inr ⟨k, ((ho.held k).mem c).2 hoc⟩
    | lost => exact absurd hoc (hlost c)

/-- The object whose `Create()` throws is lost. -/
theorem not_accounted_of_thrown (ho : Owns s L) {k : ℕ} (he : Effect s (.create k .thrown) t) :
    ¬ Accounted t := by
  cases he with
  | @createThrown _ c hpc =>
    intro hacc
    have hc := ho.created k c hpc
    have hoc := (ho.held k).owner hc
    rcases hacc c (ho.held_live hc) with hp | ⟨j, hj⟩
    · rw [ho.mem_conns.1 hp] at hoc; cases hoc
    · rw [State.lose_held, State.setPc_held] at hj
      by_cases hjk : j = k
      · subst hjk
        rw [Function.update_self] at hj
        exact ((ho.held j).nodup.mem_erase_iff.1 hj).1 rfl
      · rw [Function.update_of_ne hjk] at hj
        rw [(ho.held j).owner hj] at hoc
        cases hoc
        exact hjk rfl

/-- A step loses a connection exactly if it is a `Create()` that throws. -/
theorem step_accounted_iff (ho : Owns s L) (hacc : Accounted s) (he : EmptyRelease s a)
    (hs : step s a = some t) : Accounted t ↔ NoThrow s a := by
  have heff := step_effect ho he hs
  constructor
  · rintro hacc' k rfl
    exact not_accounted_of_thrown ho heff hacc'
  · intro ha
    obtain ⟨L', -, ho', hlost⟩ := effect_refines ho heff
    rcases hlost with ⟨k, rfl⟩ | hlost
    · exact absurd rfl (ha k)
    · exact ho'.accounted_iff_no_lost.2 fun c hc => ho.accounted_iff_no_lost.1 hacc c (hlost c hc)

theorem createConn_null {m : Heap Conn} {p : Conn} (hp : p ∉ m.live) {r : Created} (hr : r ≠ .ok) :
    ∃ m', createConn m (some p) r = .ok (none, m') ∧ (m'.live = m.live ↔ r ≠ .thrown) := by
  cases r with
  | ok => exact absurd rfl hr
  | failed =>
    refine ⟨⟨(insert p m.live).erase p, p :: m.frees⟩, ?_, ?_⟩
    · have hlive : p ∈ (m.new p).live := Finset.mem_insert_self p m.live
      rw [createConn, afterNew, free_live hlive]
      rfl
    · simp [hp]
  | thrown =>
    refine ⟨m.new p, rfl, ?_⟩
    have hne : (m.new p).live ≠ m.live := fun he => hp (he ▸ Finset.mem_insert_self p m.live)
    simp [hne]

/-- **Lost connections.**  In a run, every allocated connection is in the pool or
    held by a client in every state, exactly if no `Create()` throws.  A call
    whose `Create()` fails returns null, and leaves the set of live connections
    as it was exactly if it does not throw. -/
theorem accounted_iff (hr : Run step (State.init now) h s) (hE : Steps EmptyRelease h) :
    (Always Accounted h s ↔ Steps NoThrow h) ∧
      ∀ (m : Heap Conn) (p : Conn) (r : Created), p ∉ m.live → r ≠ .ok →
        ∃ m', createConn m (some p) r = .ok (none, m') ∧ (m'.live = m.live ↔ r ≠ .thrown) := by
  refine ⟨?_, fun m p r hp hr => createConn_null hp hr⟩
  refine (hr.restrict hE).always_iff (I := fun s => ∃ L, Owns s L) ⟨_, owns_init now⟩ ?_ ?_ ?_
  · intro c hc
    cases hc
  · rintro s a t hL _ _ ⟨he, hs⟩
    exact owns_step hL he hs
  · rintro s a t ⟨L, ho⟩ hacc ⟨he, hs⟩
    exact step_accounted_iff ho hacc he hs

/-- The first connection is refused, the second one is created and put back. -/
theorem accounted_iff_refused : ∃ h s, Run step (State.init 0) h s ∧ s.pool.conns = [some 8] ∧
    (Always Accounted h s ↔ Steps NoThrow h) ∧
    ∀ (m : Heap Conn) (p : Conn) (r : Created), p ∉ m.live → r ≠ .ok →
      ∃ m', createConn m (some p) r = .ok (none, m') ∧ (m'.live = m.live ↔ r ≠ .thrown) := by
  have hr : Run step (State.init 0) _ _ := .snoc (a := .putConnect 0 8)
    (.snoc (a := .create 0 .ok) (.snoc (a := .newConn 0 (some 8)) (.snoc (a := .getConnect 0)
      (.snoc (a := .create 0 .failed) (.snoc (a := .newConn 0 (some 7))
        (.snoc (a := .getConnect 0) .nil rfl) rfl) rfl) rfl) rfl) rfl) rfl
  exact ⟨_, _, hr, rfl, accounted_iff hr (by simp [Steps, EmptyRelease])⟩

/-- `Create()` throws: the object 7 stays allocated, and nobody has it. -/
theorem accounted_thrown : (∃ h s, Run step (State.init 0) h s ∧ Steps EmptyRelease h ∧
      7 ∈ s.heap.live ∧ s.pool.conns = [] ∧ ∀ k, s.held k = []) ∧
    createConn ⟨∅, []⟩ (some 7) .thrown = .ok (none, ⟨{7}, []⟩) := by
  have hr : Run step (State.init 0) _ _ := .snoc (a := .create 0 .thrown)
    (.snoc (a := .newConn 0 (some 7)) (.snoc (a := .getConnect 0) .nil rfl) rfl) rfl
  refine ⟨⟨_, _, hr, by simp [Steps, EmptyRelease], by decide, rfl, ?_⟩, rfl⟩
  intro k
  by_cases hk : k = 0
  · subst hk; rfl
  · simp [hk, State.init]

end CppExperiment.ConnPool
