/-
  The order of the connections in the pool.

  The class keeps the connections in a stack, so that the one used last is
  used again first.  `GetConnect` and `PutConnect` work at the back of the
  vector, but the loop of `CheckConnect` moves the last entry to the place of an
  invalid one.  `lifo_of_run`: the discipline holds in every run in which each
  check keeps the order (`KeepsOrder`); after a check that does not, some
  sequence of `GetConnect` calls breaks it.
-/
import CppExperiment.ConnPool.Runs

namespace CppExperiment.ConnPool

variable {s t : State} {L : Ledger Owner Conn} {a : Action} {h : List (State × Action)} {now : ℤ}

/-- When the connection `c` was last put back, as a position in the history. -/
def putTime : List (State × Action) → Conn → ℕ
  | [], _ => 0
  | (_, .putConnect _ d) :: h, c => if d = c then h.length + 1 else putTime h c
  | _ :: h, c => putTime h c

/-- `GetConnect` from the pool, if it is not empty, returns the connection put
    back last among those in the pool. -/
def Lifo (h : List (State × Action)) (s : State) : Prop :=
  ∀ p pool, popConn s.pool = some (p, pool) →
    ∃ c, p = some c ∧ ∀ d, some d ∈ s.pool.conns → d ≠ c → putTime h d < putTime h c

/-- A check that frees connections finds at most one valid connection put back
    after the oldest invalid one; `ReleasePool` is not called. -/
def KeepsOrder (s : State) : Action → Prop
  | .checkConnect _ now _ valid => now - s.pool.lastCheckTime < 1 ∨
      OrderSafe (fun p => p.elim false valid) s.pool.conns
  | .releasePool _ => False
  | _ => True

theorem KeepsOrder.emptyRelease (h : KeepsOrder s a) : EmptyRelease s a := by
  cases a <;> simp_all [KeepsOrder, EmptyRelease]

theorem orderSafe_map {cs : List Conn} {valid : Conn → Bool} :
    OrderSafe (fun p : Ptr => p.elim false valid) (cs.map some) ↔ OrderSafe valid cs := by
  have hv : (fun p : Ptr => p.elim false valid) ∘ some = valid := rfl
  simp only [OrderSafe, fromDropped, List.dropWhile_map, List.filter_map, List.length_map, hv]

theorem putTime_le : ∀ (h : List (State × Action)) (c : Conn), putTime h c ≤ h.length
  | [], _ => le_rfl
  | (s, a) :: h, c => by
    have ih := putTime_le h c
    cases a with
    | putConnect k d =>
      simp only [putTime, List.length_cons]
      split_ifs
      · exact le_rfl
      · omega
    | _ => simp only [putTime, List.length_cons]; omega

theorem putTime_put (k : ℕ) (c d : Conn) :
    putTime ((s, .putConnect k c) :: h) d = if c = d then h.length + 1 else putTime h d := rfl

/-- A put of another connection keeps the order of some connections. -/
theorem pairwise_put {cs : List Conn} {k : ℕ} {c : Conn} (hc : ∀ d ∈ cs, c ≠ d)
    (hp : cs.Pairwise fun d e => putTime h d < putTime h e) : cs.Pairwise fun d e =>
      putTime ((s, .putConnect k c) :: h) d < putTime ((s, .putConnect k c) :: h) e := by
  refine hp.imp_of_mem ?_
  intro d e hd he hlt
  rwa [putTime_put, putTime_put, if_neg (hc d hd), if_neg (hc e he)]

/-- The pool is sorted by the time of the last put. -/
def Sorted (h : List (State × Action)) (s : State) : Prop :=
  ∃ cs : List Conn, s.pool.conns = cs.map some ∧
    cs.Pairwise fun c d => putTime h c < putTime h d

theorem Sorted.lifo (hs : Sorted h s) : Lifo h s := by
  obtain ⟨cs, hcs, hp⟩ := hs
  intro p pool hpop
  rcases List.eq_nil_or_concat cs with rfl | ⟨cs, c, rfl⟩
  · rw [popConn_nil hcs] at hpop; cases hpop
  · rw [List.concat_eq_append] at hcs hp
    rw [popConn_append (cs.map some) (some c) (by simp [hcs])] at hpop
    cases hpop
    refine ⟨c, rfl, ?_⟩
    intro d hd hne
    rw [hcs, List.mem_map_of_injective (Option.some_injective _), List.mem_append,
      List.mem_singleton] at hd
    exact (List.pairwise_append.1 hp).2.2 d (hd.resolve_right hne) c (by simp)

/-- The order of the entries after a check that frees connections. -/
theorem sorted_check_iff {cs : List Conn} {valid : Conn → Bool}
    (hp : cs.Pairwise fun c d => putTime h c < putTime h d) :
    ((sweep valid cs).Pairwise fun c d => putTime h c < putTime h d) ↔ OrderSafe valid cs :=
  sweep_pairwise_iff (fun _ _ => Nat.lt_asymm) hp

theorem Sorted.step (hs : Sorted h s) (ho : Owns s L) (he : Effect s a t) (hk : KeepsOrder s a) :
    Sorted ((s, a) :: h) t := by
  obtain ⟨cs, hcs, hp⟩ := hs
  cases he with
  | @pop k c cs' _ hcs' =>
    obtain rfl : cs = cs' ++ [c] := List.map_injective_iff.2 (Option.some_injective _) (hcs ▸ hcs')
    exact ⟨cs', rfl, (List.pairwise_append.1 hp).1⟩
  | @check k now now' valid cs' ds hnow hcs' _ =>
    obtain rfl : cs = cs' := List.map_injective_iff.2 (Option.some_injective _) (hcs ▸ hcs')
    have hsafe : OrderSafe valid cs := by
      rcases hk with hk | hk
      · exact absurd hk hnow
      · rwa [hcs, orderSafe_map] at hk
    exact ⟨_, rfl, (sorted_check_iff hp).2 hsafe⟩
  | @put k c _ hc _ =>
    have hne : ∀ d ∈ cs, c ≠ d := fun d hd => ho.not_pooled hcs hc hd
    refine ⟨cs ++ [c], by simp [hcs], List.pairwise_append.2 ⟨pairwise_put hne hp, by simp, ?_⟩⟩
    intro d hd e he
    obtain rfl := List.mem_singleton.1 he
    rw [putTime_put, putTime_put, if_neg (hne d hd), if_pos rfl]
    have := putTime_le h d; omega
  | putFull _ hc _ => exact ⟨cs, hcs, pairwise_put (fun d hd => ho.not_pooled hcs hc hd) hp⟩
  | _ => exact ⟨cs, hcs, hp⟩

theorem sorted_of_run (hr : Run step (State.init now) h s) (hG : Steps KeepsOrder h) :
    Sorted h s ∧ ∃ L, Owns s L := by
  refine hr.inv_hist (I := fun h s => Sorted h s ∧ ∃ L, Owns s L)
    ⟨⟨[], rfl, .nil⟩, _, owns_init now⟩ ?_ hG
  rintro h s a t ⟨hsort, L, ho⟩ hk hs
  have he := step_effect ho hk.emptyRelease hs
  obtain ⟨L', -, ho', -⟩ := effect_refines ho he
  exact ⟨hsort.step ho he hk, L', ho'⟩

/-! ## After a check that breaks the order -/

/-- The steps `g` are calls of `GetConnect` by the client `k`. -/
def Gets (k : ℕ) (g : List (State × Action)) : Prop := ∀ x ∈ g, x.2 = .getConnect k

theorem putTime_gets {k : ℕ} {g : List (State × Action)} (hg : Gets k g) (c : Conn) :
    putTime (g ++ h) c = putTime h c := by
  induction g with
  | nil => rfl
  | cons x g ih =>
    obtain ⟨s, a⟩ := x
    have ha : a = .getConnect k := hg (s, a) (by simp)
    rw [ha]
    exact ih fun x hx => hg x (by simp [hx])

theorem step_pop {k : ℕ} {cs : List Conn} {c : Conn} (hf : s.fault = none)
    (hpc : s.pc k = .idle ∨ s.pc k = .checked) (hcs : s.pool.conns = (cs ++ [c]).map some) :
    step s (.getConnect k) = some (({ s with pool := { s.pool with
      conns := cs.map some } }.setPc k .idle).gain k (some c)) := by
  unfold step
  rw [if_neg (by simp [hf])]
  simp only
  rw [if_pos hpc, popConn_append (cs.map some) (some c) (by simp [hcs])]

/-- The client `k` takes the last entries out of the pool one by one. -/
theorem run_gets {s₀ : State} {k : ℕ} (pre rest : List Conn) :
    ∀ {h : List (State × Action)} {s : State}, Run step s₀ h s → s.fault = none →
      (s.pc k = .idle ∨ s.pc k = .checked) → s.pool.conns = (pre ++ rest).map some →
      ∃ g u, Run step s₀ (g ++ h) u ∧ Gets k g ∧ u.pool.conns = pre.map some := by
  induction rest using List.reverseRecOn with
  | nil => exact fun {h s} hr _ _ hcs => ⟨[], s, hr, by simp [Gets], by simpa using hcs⟩
  | append_singleton rest c ih =>
    intro h s hr hf hpc hcs
    rw [← List.append_assoc] at hcs
    obtain ⟨g, u, hru, hg, hu⟩ := ih (.snoc hr (step_pop hf hpc hcs)) hf (by simp) rfl
    refine ⟨g ++ [(s, .getConnect k)], u, by simpa using hru, ?_, hu⟩
    simpa [Gets, or_imp, forall_and] using hg

/-- **The stack discipline.**  In a run whose checks keep the order, the pool
    is last in, first out.  This is exact: after a check that does not keep the
    order, a sequence of calls of `GetConnect` leads to a state in which
    `GetConnect` does not return the connection put back last. -/
theorem lifo_of_run (hr : Run step (State.init now) h s) (hG : Steps KeepsOrder h) :
    Lifo h s ∧ ∀ k now₁ now₂ valid t, step s (.checkConnect k now₁ now₂ valid) = some t →
      ¬ KeepsOrder s (.checkConnect k now₁ now₂ valid) →
      ∃ g u, Gets k g ∧
        Run step (State.init now) (g ++ (s, .checkConnect k now₁ now₂ valid) :: h) u ∧
        ¬ Lifo (g ++ (s, .checkConnect k now₁ now₂ valid) :: h) u := by
  obtain ⟨hsort, L, ho⟩ := sorted_of_run hr hG
  refine ⟨hsort.lifo, ?_⟩
  intro k now₁ now₂ valid t hs hk
  obtain ⟨cs, hcs, hp⟩ := hsort
  simp only [KeepsOrder, not_or, hcs, orderSafe_map] at hk
  obtain ⟨hnow, hunsafe⟩ := hk
  have hl := ho.lists_pool hcs
  have he := step_effect ho (a := .checkConnect k now₁ now₂ valid) trivial hs
  cases he with
  | throttled hlt => exact absurd hlt hnow
  | @check _ _ _ _ cs' ds _ hcs' _ =>
    obtain rfl : cs = cs' := List.map_injective_iff.2 (Option.some_injective _) (hcs ▸ hcs')
    -- some entry of the swept pool lies above one that was put back later
    obtain ⟨pre, c, rest, hsplit, d, hd, hlt⟩ :=
      exists_of_not_pairwise (mt (sorted_check_iff hp).1 hunsafe)
    have hnd : (pre ++ c :: rest).Nodup := by
      rw [← hsplit]; exact (sweep_perm valid cs).nodup_iff.2 (hl.nodup.filter _)
    have hdc : d ≠ c := fun h => (List.nodup_append.1 hnd).2.2 d hd c (by simp) h
    obtain ⟨g, u, hru, hg, hu⟩ :=
      run_gets (k := k) (pre ++ [c]) rest (.snoc hr hs) ho.fault (by simp) (by simp [hsplit])
    refine ⟨g, u, hg, hru, ?_⟩
    intro hlifo
    obtain ⟨c', hc', hmax⟩ := hlifo _ _ (popConn_append (pre.map some) (some c)
      (by simp [hu]))
    cases hc'
    have hlt' := hmax d (by simp [hu, hd]) hdc
    rw [putTime_gets hg, putTime_gets hg] at hlt'
    exact hlt hlt'

/-- Three connections are put back in the order 1, 2, 3; the check finds 1
    invalid, and `GetConnect` then returns 2, although 3 was put back last. -/
theorem checkConnect_breaks_order : ∃ h s, Run step (State.init 0) h s ∧
    s.pool.conns = [some 3, some 2] ∧ putTime h 2 < putTime h 3 ∧ ¬ Lifo h s := by
  have hr : Run step (State.init 0) _ _ :=
    .snoc (a := .checkConnect 0 9 9 fun c => c != 1)
    (.snoc (a := .putConnect 0 3) (.snoc (a := .putConnect 0 2) (.snoc (a := .putConnect 0 1)
    (.snoc (a := .create 0 .ok) (.snoc (a := .newConn 0 (some 3)) (.snoc (a := .getConnect 0)
    (.snoc (a := .create 0 .ok) (.snoc (a := .newConn 0 (some 2)) (.snoc (a := .getConnect 0)
    (.snoc (a := .create 0 .ok) (.snoc (a := .newConn 0 (some 1)) (.snoc (a := .getConnect 0)
    .nil rfl) rfl) rfl) rfl) rfl) rfl) rfl) rfl) rfl) rfl) rfl) rfl) rfl
  refine ⟨_, _, hr, rfl, by decide, ?_⟩
  intro hlifo
  obtain ⟨c, hc, hmax⟩ := hlifo (some 2) _ rfl
  cases hc
  exact absurd (hmax 3 (by decide) (by decide)) (by decide)

/-- A run whose check finds the connection put back last invalid. -/
theorem lifo_of_run_top : ∃ h s, Run step (State.init 0) h s ∧ s.pool.conns = [some 1] ∧
    Lifo h s := by
  have hr : Run step (State.init 0) _ _ :=
    .snoc (a := .checkConnect 0 9 9 fun c => c != 2)
    (.snoc (a := .putConnect 0 2) (.snoc (a := .putConnect 0 1)
    (.snoc (a := .create 0 .ok) (.snoc (a := .newConn 0 (some 2)) (.snoc (a := .getConnect 0)
    (.snoc (a := .create 0 .ok) (.snoc (a := .newConn 0 (some 1)) (.snoc (a := .getConnect 0)
    .nil rfl) rfl) rfl) rfl) rfl) rfl) rfl) rfl) rfl
  refine ⟨_, _, hr, rfl, (lifo_of_run hr ?_).1⟩
  simp only [steps_cons]
  exact ⟨.inr (by decide), trivial, trivial, trivial, trivial, trivial, trivial, trivial, trivial,
    by simp [Steps]⟩

end CppExperiment.ConnPool
