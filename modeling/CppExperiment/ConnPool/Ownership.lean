/-
  Who owns the connections of the pool.

  `Owns s L` relates a state of the pool and its clients to a ledger: the
  entries of `m_Conns` are exactly the connections owned by the pool, the
  connections held by a client exactly those it owns, and the live ones those
  with an owner.  Every step is a sequence of changes of ownership
  (`effect_refines`), except a `ReleasePool` of a pool that is not empty.
-/
import CppExperiment.ConnPool.Check

namespace CppExperiment.ConnPool

/-- The owners of connections; nobody can reach a `lost` one. -/
inductive Owner where
  | pool
  | client (k : ℕ)
  | lost

/-- The state implements the ledger. -/
structure Owns (s : State) (L : Ledger Owner Conn) : Prop where
  fault : s.fault = none
  slots : ∃ cs : List Conn, s.pool.conns = cs.map some ∧ L.Lists .pool cs
  held : ∀ k, L.Lists (.client k) (s.held k)
  live : L.Covers s.heap.live
  cap : s.pool.conns.length ≤ maxConnNum
  created : ∀ k c, s.pc k = .created c → c ∈ s.held k

theorem owns_init (now : ℤ) : Owns (State.init now) fun _ => none where
  fault := rfl
  slots := ⟨[], rfl, List.nodup_nil, by simp⟩
  held k := ⟨List.nodup_nil, by simp [State.init]⟩
  live c := by simp [State.init]
  cap := by simp [State.init, Pool.init]
  created k c h := by simp [State.init] at h

/-! ## The operations -/

theorem popConn_append {s : Pool} (cs : List Ptr) (p : Ptr) (h : s.conns = cs ++ [p]) :
    popConn s = some (p, { s with conns := cs }) := by
  simp [popConn, h]

theorem popConn_nil {s : Pool} (h : s.conns = []) : popConn s = none := by
  simp [popConn, h]

theorem releaseAll_nil (h : Heap Conn) : releaseAll [] h = .ok ([], h) := rfl

/-! ## What a step does -/

/-- The effect of a step from a state in which every entry of the pool and
    every held connection is live. -/
inductive Effect (s : State) : Action → State → Prop
  | pop {k : ℕ} {c : Conn} {cs : List Conn} : (s.pc k = .idle ∨ s.pc k = .checked) →
      s.pool.conns = (cs ++ [c]).map some →
      Effect s (.getConnect k)
        (({ s with pool := { s.pool with conns := cs.map some } }.setPc k .idle).gain k (some c))
  | miss {k : ℕ} : s.pool.conns = [] → Effect s (.getConnect k) (s.setPc k .creating)
  | throttled {k : ℕ} {now now' : ℤ} {valid : Conn → Bool} : now - s.pool.lastCheckTime < 1 →
      Effect s (.checkConnect k now now' valid) (s.setPc k .checked)
  | check {k : ℕ} {now now' : ℤ} {valid : Conn → Bool} {cs ds : List Conn} :
      ¬ now - s.pool.lastCheckTime < 1 → s.pool.conns = cs.map some →
      ds.Perm (cs.filter fun c => !valid c) →
      Effect s (.checkConnect k now now' valid)
        ({ s with
            pool := ⟨(sweep valid cs).map some, now'⟩
            heap := ⟨s.heap.live \ ds.toFinset, ds.reverse ++ s.heap.frees⟩ }.setPc k .checked)
  | newThrown {k : ℕ} : Effect s (.newConn k none) (s.setPc k .idle)
  | newConn {k : ℕ} {c : Conn} : c ∉ s.heap.live →
      Effect s (.newConn k (some c))
        (({ s with heap := s.heap.new c }.setPc k (.created c)).gain k (some c))
  | created {k : ℕ} {c : Conn} : s.pc k = .created c → Effect s (.create k .ok) (s.setPc k .idle)
  | createFailed {k : ℕ} {c : Conn} : s.pc k = .created c →
      Effect s (.create k .failed)
        (({ s with heap := ⟨s.heap.live.erase c, c :: s.heap.frees⟩ }.setPc k .idle).lose k c)
  | createThrown {k : ℕ} {c : Conn} : s.pc k = .created c →
      Effect s (.create k .thrown) ((s.setPc k .idle).lose k c)
  | put {k : ℕ} {c : Conn} : s.pc k = .idle → c ∈ s.held k → s.pool.conns.length < maxConnNum →
      Effect s (.putConnect k c)
        ({ s with pool := { s.pool with conns := s.pool.conns ++ [some c] } }.lose k c)
  | putFull {k : ℕ} {c : Conn} : s.pc k = .idle → c ∈ s.held k →
      ¬ s.pool.conns.length < maxConnNum →
      Effect s (.putConnect k c)
        ({ s with heap := ⟨s.heap.live.erase c, c :: s.heap.frees⟩ }.lose k c)
  | release {k : ℕ} {c : Conn} : s.pc k = .idle → c ∈ s.held k →
      Effect s (.releaseConnect k c)
        ({ s with heap := ⟨s.heap.live.erase c, c :: s.heap.frees⟩ }.lose k c)
  | releasePool {k : ℕ} : s.pool.conns = [] → Effect s (.releasePool k) s

/-- `ReleasePool` is called on an empty pool only. -/
def EmptyRelease (s : State) : Action → Prop
  | .releasePool _ => s.pool.conns = []
  | _ => True

variable {s t : State} {L : Ledger Owner Conn} {a : Action}

theorem Owns.held_live (h : Owns s L) {k : ℕ} {c : Conn} (hc : c ∈ s.held k) : c ∈ s.heap.live :=
  h.live.mem ((h.held k).owner hc)

/-- The entries of the pool as a list of connections. -/
theorem Owns.lists_pool (h : Owns s L) {cs : List Conn} (hcs : s.pool.conns = cs.map some) :
    L.Lists .pool cs := by
  obtain ⟨cs', hcs', hl⟩ := h.slots
  rwa [List.map_injective_iff.2 (Option.some_injective _) (hcs ▸ hcs' : cs.map some = cs'.map some)]

theorem Owns.mem_conns (h : Owns s L) {c : Conn} :
    some c ∈ s.pool.conns ↔ L c = some .pool := by
  obtain ⟨cs, hcs, hl⟩ := h.slots
  rw [hcs, List.mem_map_of_injective (Option.some_injective _), hl.mem]

/-- A held connection is not in the pool. -/
theorem Owns.not_pooled (h : Owns s L) {cs : List Conn} (hcs : s.pool.conns = cs.map some)
    {k : ℕ} {c d : Conn} (hc : c ∈ s.held k) (hd : d ∈ cs) : c ≠ d := by
  rintro rfl
  have := (h.lists_pool hcs).owner hd
  rw [(h.held k).owner hc] at this; cases this

theorem checkConnect_spec (h : Owns s L) {cs : List Conn} (hcs : s.pool.conns = cs.map some)
    (hl : L.Lists .pool cs) {now : ℤ} (now' : ℤ) (valid : Conn → Bool)
    (hnow : ¬ now - s.pool.lastCheckTime < 1) :
    ∃ ds : List Conn, ds.Perm (cs.filter fun c => !valid c) ∧
      checkConnect now now' valid s.pool s.heap = .ok (⟨(sweep valid cs).map some, now'⟩,
        ⟨s.heap.live \ ds.toFinset, ds.reverse ++ s.heap.frees⟩) := by
  obtain ⟨-, ds, -, hp, -, hr⟩ := exists_checkConnect valid now' hcs hl.nodup
    (fun c hc => h.live.mem (hl.owner hc)) hnow
  exact ⟨ds, hp, hr⟩

theorem step_effect (h : Owns s L) (he : EmptyRelease s a) (hs : step s a = some t) :
    Effect s a t := by
  obtain ⟨cs, hcs, hl⟩ := h.slots
  unfold step at hs
  rw [if_neg (by simp [h.fault])] at hs
  cases a with
  | getConnect k =>
    simp only at hs
    split_ifs at hs with hpc
    rcases List.eq_nil_or_concat cs with rfl | ⟨cs, c, rfl⟩
    · simp only [popConn_nil hcs, Option.some.injEq] at hs
      subst hs; exact .miss hcs
    · rw [List.concat_eq_append] at hcs
      rw [popConn_append (cs.map some) (some c) (by simp [hcs])] at hs
      simp only [Option.some.injEq] at hs
      subst hs; exact .pop hpc hcs
  | checkConnect k now now' valid =>
    simp only at hs
    split_ifs at hs with hpc
    by_cases hnow : now - s.pool.lastCheckTime < 1
    · simp only [checkConnect, if_pos hnow, Option.some.injEq] at hs
      subst hs; exact .throttled hnow
    · obtain ⟨ds, hp, hr⟩ := checkConnect_spec h hcs hl now' valid hnow
      simp only [hr, Option.some.injEq] at hs
      subst hs; exact .check hnow hcs hp
  | newConn k p =>
    simp only at hs
    split_ifs at hs with hpc
    cases p with
    | none => simp only [Option.some.injEq] at hs; subst hs; exact .newThrown
    | some c =>
      simp only at hs
      split_ifs at hs with hc
      simp only [Option.some.injEq] at hs; subst hs; exact .newConn hc
  | create k r =>
    simp only at hs
    cases hpc : s.pc k with
    | created c =>
      have hc := h.held_live (h.created k c hpc)
      rw [hpc] at hs
      cases r with
      | ok => simp only [afterNew, Option.some.injEq] at hs; subst hs; exact .created hpc
      | failed =>
        simp only [afterNew, free_live hc, ok_bind] at hs
        injection hs with hs; subst hs; exact .createFailed hpc
      | thrown => simp only [afterNew, Option.some.injEq] at hs; subst hs; exact .createThrown hpc
    | _ => rw [hpc] at hs; cases hs
  | putConnect k c =>
    simp only at hs
    split_ifs at hs with hpc
    by_cases hlen : s.pool.conns.length < maxConnNum
    · simp only [putConnect, if_pos hlen, Option.some.injEq] at hs
      subst hs; exact .put hpc.1 hpc.2 hlen
    · simp only [putConnect, if_neg hlen, free_live (h.held_live hpc.2), ok_bind] at hs
      injection hs with hs; subst hs; exact .putFull hpc.1 hpc.2 hlen
  | releaseConnect k c =>
    simp only at hs
    split_ifs at hs with hpc
    simp only [releaseConnect, free_live (h.held_live hpc.2), Option.some.injEq] at hs
    subst hs; exact .release hpc.1 hpc.2
  | releasePool k =>
    simp only at hs
    split_ifs at hs with hpc
    have he : s.pool.conns = [] := he
    simp only [releasePool, he, releaseAll_nil, ok_bind] at hs
    injection hs with hs
    have : s = t := by rw [← hs, ← he]
    subst this; exact .releasePool he

/-! ## Steps change owners -/

/-- Nothing becomes lost, except where `Create()` throws. -/
def LosesOnThrow (a : Action) (L L' : Ledger Owner Conn) : Prop :=
  (∃ k, a = .create k .thrown) ∨ ∀ d, L' d = some .lost → L d = some .lost

theorem Owns.pc_created (h : Owns s L) {k : ℕ} {q : Pc} {held : ℕ → List Conn}
    (hq : ∀ c, q = .created c → c ∈ held k) (hne : ∀ j, j ≠ k → held j = s.held j) :
    ∀ j c, Function.update s.pc k q j = .created c → c ∈ held j := by
  intro j c hj
  by_cases hjk : j = k
  · subst hjk; rw [Function.update_self] at hj; exact hq c hj
  · rw [Function.update_of_ne hjk] at hj; rw [hne j hjk]; exact h.created j c hj

/-- The lists of all clients after `c` has gone from the client `k`. -/
theorem lists_lose {held : ℕ → List Conn} {k : ℕ} {c : Conn} {x : Option Owner}
    (h : ∀ j, L.Lists (.client j) (held j)) (hc : c ∈ held k) (hx : ∀ j, x ≠ some (.client j)) :
    ∀ j, Ledger.Lists (Function.update L c x) (.client j)
      (Function.update held k ((held k).erase c) j) := by
  intro j
  by_cases hj : j = k
  · subst hj
    rw [Function.update_self]
    exact ((h j).perm (List.perm_cons_erase hc)).take (hx j)
  · rw [Function.update_of_ne hj]
    refine (h j).other (fun ho => hj ?_) (hx j)
    rw [(h k).owner hc] at ho; cases ho; rfl

/-- The lists of all clients after the client `k` has received `c`. -/
theorem lists_gain {held : ℕ → List Conn} {k : ℕ} {c : Conn}
    (h : ∀ j, L.Lists (.client j) (held j)) (hc : ∀ j, L c ≠ some (.client j)) :
    ∀ j, Ledger.Lists (Function.update L c (some (.client k))) (.client j)
      (Function.update held k (c :: held k) j) := by
  intro j
  by_cases hj : j = k
  · subst hj; rw [Function.update_self]; exact (h j).give (hc j)
  · rw [Function.update_of_ne hj]
    exact (h j).other (hc j) (by simp [Ne.symm hj])

theorem lost_update {c d : Conn} {x : Option Owner} (hx : x ≠ some .lost)
    (h : Function.update L c x d = some .lost) : L d = some .lost := by
  by_cases hd : d = c
  · subst hd; rw [Function.update_self] at h; exact absurd h hx
  · rwa [Function.update_of_ne hd] at h

theorem created_lose (h : Owns s L) {k : ℕ} {c : Conn} (hk : t.pc k = .idle)
    (hj : ∀ j, j ≠ k → t.pc j = s.pc j)
    (hheld : t.held = Function.update s.held k ((s.held k).erase c)) :
    ∀ j d, t.pc j = .created d → d ∈ t.held j := by
  intro j d hd
  by_cases hjk : j = k
  · subst hjk; rw [hk] at hd; cases hd
  · rw [hheld, Function.update_of_ne hjk]; exact h.created j d (hj j hjk ▸ hd)

/-- The client `k` gives up `c`, which the new state no longer has on the
    heap. -/
theorem Owns.drop (h : Owns s L) {k : ℕ} {c : Conn} (hc : c ∈ s.held k) (hk : t.pc k = .idle)
    (hj : ∀ j, j ≠ k → t.pc j = s.pc j) (hp : t.pool = s.pool)
    (hh : t.heap.live = s.heap.live.erase c)
    (hheld : t.held = Function.update s.held k ((s.held k).erase c)) (hf : t.fault = s.fault) :
    ∃ L', L.Moves L' ∧ Owns t L' ∧ LosesOnThrow a L L' := by
  have ho := (h.held k).owner hc
  obtain ⟨cs, hcs, hl⟩ := h.slots
  refine ⟨_, .single (.free ho), ⟨hf ▸ h.fault, ⟨cs, hp ▸ hcs, hl.other (by simp [ho]) (by simp)⟩,
    ?_, ?_, hp ▸ h.cap, created_lose h hk hj hheld⟩, .inr fun d => lost_update (by simp)⟩
  · rw [hheld]; exact lists_lose h.held hc (by simp)
  · rw [hh]; exact h.live.erase c

/-- **Every step is a sequence of changes of ownership**, and loses a
    connection only where `Create()` throws. -/
theorem effect_refines (h : Owns s L) (he : Effect s a t) :
    ∃ L', L.Moves L' ∧ Owns t L' ∧ LosesOnThrow a L L' := by
  obtain ⟨cs, hcs, hl⟩ := h.slots
  -- a client that only moves on in its call changes no owner
  have hsame : ∀ (k : ℕ) (q : Pc), (∀ c, q ≠ .created c) →
      ∃ L', L.Moves L' ∧ Owns (s.setPc k q) L' ∧ LosesOnThrow a L L' := by
    intro k q hq
    have hcreated : ∀ j c, Function.update s.pc k q j = .created c → c ∈ s.held j :=
      h.pc_created (fun c hc => absurd hc (hq c)) fun _ _ => rfl
    exact ⟨L, .refl, ⟨h.fault, h.slots, h.held, h.live, h.cap, hcreated⟩, .inr fun _ hd => hd⟩
  cases he with
  | @pop k c cs' hpc hcs' =>
    have hcs'' : cs = cs' ++ [c] := List.map_injective_iff.2 (Option.some_injective _) (hcs ▸ hcs')
    have hl : L.Lists .pool (c :: cs') :=
      hl.perm (by rw [hcs'']; exact List.perm_append_singleton c cs')
    have ho := hl.owner (List.mem_cons_self ..)
    refine ⟨_, .single (.transfer (.client k) ho), ⟨h.fault, ⟨cs', rfl, hl.take (by simp)⟩,
      lists_gain h.held (by simp [ho]), h.live.transfer ho, ?_, ?_⟩,
      .inr fun d => lost_update (by simp)⟩
    · have := h.cap; rw [hcs'] at this
      simp only [List.length_map, List.length_append, List.length_singleton] at this
      simp only [State.gain_pool, State.setPc_pool, List.length_map]; omega
    · exact h.pc_created (fun d hd => by cases hd) fun j hj => by simp [hj]
  | miss _ => exact hsame _ _ (by simp)
  | throttled _ => exact hsame _ _ (by simp)
  | @check k now now' valid cs' ds _ hcs' hp =>
    obtain rfl : cs = cs' := List.map_injective_iff.2 (Option.some_injective _) (hcs ▸ hcs')
    have hds : ∀ d ∈ ds, L d = some .pool := fun d hd =>
      hl.owner (List.mem_of_mem_filter (hp.mem_iff.1 hd))
    have hsw := sweep_perm valid cs
    refine ⟨L.freeAll ds, Ledger.freeAll_moves (hp.nodup_iff.2 (hl.nodup.filter _))
      fun d hd => by simp [hds d hd], ⟨h.fault, ⟨sweep valid cs, rfl, ?_⟩, fun j => ?_,
      h.live.freeAll ds, ?_, ?_⟩, .inr fun d hd => ?_⟩
    · refine hl.freeAll_own (hsw.nodup_iff.2 (hl.nodup.filter _)) fun c => ?_
      rw [hsw.mem_iff, hp.mem_iff, List.mem_filter, List.mem_filter]
      cases valid c <;> simp
    · exact (h.held j).freeAll_other fun d hd => by simp [hds d hd]
    · have := h.cap
      rw [hcs, List.length_map] at this
      have hle := List.length_filter_le valid cs
      simp only [State.setPc_pool, List.length_map, hsw.length_eq]; omega
    · exact h.pc_created (fun d hd => by cases hd) fun _ _ => rfl
    · simp only [Ledger.freeAll] at hd; split_ifs at hd; exact hd
  | newThrown => exact hsame _ _ (by simp)
  | @newConn k c hc =>
    have ho : L c = none := by simpa using (h.live c).not.1 hc
    refine ⟨_, .single (.alloc (.client k) ho), ⟨h.fault, ⟨cs, hcs, hl.other (by simp [ho])
      (by simp)⟩, lists_gain h.held (by simp [ho]), h.live.insert c _, h.cap, ?_⟩,
      .inr fun d => lost_update (by simp)⟩
    exact h.pc_created (fun d hd => by cases hd; simp) fun j hj => by simp [hj]
  | created _ => exact hsame _ _ (by simp)
  | @createFailed k c hpc =>
    exact h.drop (h.created k c hpc) (by simp) (fun j hj => by simp [hj]) rfl rfl rfl rfl
  | @createThrown k c hpc =>
    have hc := h.created k c hpc
    have ho := (h.held k).owner hc
    exact ⟨_, .single (.transfer .lost ho), ⟨h.fault, ⟨cs, hcs, hl.other (by simp [ho]) (by simp)⟩,
      lists_lose h.held hc (by simp), h.live.transfer ho, h.cap,
      created_lose h (by simp) (fun j hj => by simp [hj]) rfl⟩, .inl ⟨k, rfl⟩⟩
  | @put k c hpc hc hlen =>
    have ho := (h.held k).owner hc
    exact ⟨_, .single (.transfer .pool ho), ⟨h.fault, ⟨cs ++ [c], by simp [hcs],
      (hl.give (by simp [ho])).perm (List.perm_append_singleton c cs).symm⟩,
      lists_lose h.held hc (by simp), h.live.transfer ho, by simp; omega,
      created_lose h hpc (fun _ _ => rfl) rfl⟩, .inr fun d => lost_update (by simp)⟩
  | @putFull k c hpc hc _ => exact h.drop hc hpc (fun _ _ => rfl) rfl rfl rfl rfl
  | @release k c hpc hc => exact h.drop hc hpc (fun _ _ => rfl) rfl rfl rfl rfl
  | releasePool _ => exact ⟨L, .refl, h, .inr fun _ hd => hd⟩

end CppExperiment.ConnPool
