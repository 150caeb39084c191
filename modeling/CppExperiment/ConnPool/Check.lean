/-
  The loop of `CConnPool::CheckConnect` (CommonTools/ConnPool.h).

  `Checks` is a run of the loop without a bound on its iterations, with the
  connections it asks for their validity.  On distinct live entries the loop
  sweeps the vector (`exists_checks`).

  * `checkConnect_removes`: it ends, asks every entry once, frees the invalid
    ones and leaves the valid ones.
  * `checkConnect_ok`: whatever the entries are, nothing new comes into the
    vector, and the connections that are left after a check are valid.
-/
import CppExperiment.ConnPool.Pool

namespace CppExperiment.ConnPool

/-- A run of the loop from the index `i` to its end, which asks the connections
    `asked` in this order. -/
inductive Checks (valid : Conn → Bool) :
    ℕ → List Ptr → Heap Conn → List Conn → List Ptr → Heap Conn → Prop
  | done {i : ℕ} {conns : List Ptr} {h : Heap Conn} : conns.length ≤ i →
      Checks valid i conns h [] conns h
  | keep {i : ℕ} {conns conns' : List Ptr} {h h' : Heap Conn} {p : Ptr} {c : Conn}
      {asked : List Conn} : conns[i]? = some p → h.deref p = .ok c → valid c = true →
      Checks valid (i + 1) conns h asked conns' h' →
      Checks valid i conns h (c :: asked) conns' h'
  | drop {i : ℕ} {conns conns' : List Ptr} {h h₁ h' : Heap Conn} {p q : Ptr} {c : Conn}
      {asked : List Conn} : conns[i]? = some p → h.deref p = .ok c → valid c = false →
      free h p = .ok (h₁, q) →
      Checks valid i ((conns.set i (conns.getLast?.getD none)).dropLast) h₁ asked conns' h' →
      Checks valid i conns h (c :: asked) conns' h'

variable {valid : Conn → Bool} {i n : ℕ} {conns conns' : List Ptr} {h h' : Heap Conn}
  {asked cs : List Conn} {s : Pool} {now now' : ℤ}

/-- The run is what the bounded loop does, if the bound is not too small. -/
theorem Checks.checkLoop_eq (hr : Checks valid i conns h asked conns' h')
    (hn : asked.length ≤ n) : checkLoop valid n i conns h = .ok (conns', h') := by
  induction hr generalizing n with
  | done hle =>
    cases n with
    | zero => rfl
    | succ n => rw [checkLoop, List.getElem?_eq_none hle]
  | keep hget hderef hv _ ih =>
    rw [List.length_cons] at hn
    obtain ⟨n, rfl⟩ := Nat.exists_eq_succ_of_ne_zero (Nat.ne_zero_of_lt hn)
    rw [checkLoop, hget]
    simp only [hderef, ok_bind]
    rw [if_pos hv]
    exact ih (Nat.le_of_succ_le_succ hn)
  | drop hget hderef hv hfree _ ih =>
    rw [List.length_cons] at hn
    obtain ⟨n, rfl⟩ := Nat.exists_eq_succ_of_ne_zero (Nat.ne_zero_of_lt hn)
    rw [checkLoop, hget]
    simp only [hderef, ok_bind]
    rw [if_neg (by simp [hv]), hfree, ok_bind]
    exact ih (Nat.le_of_succ_le_succ hn)

/-! ## Distinct live entries -/

theorem free_live {h : Heap Conn} {c : Conn} (hc : c ∈ h.live) :
    free h (some c) = .ok (⟨h.live.erase c, c :: h.frees⟩, none) := by
  simp only [free, Heap.delete_live hc]; rfl

/-- Freeing an entry in place: the last entry takes its place. -/
theorem swap_last (pre : List Ptr) (x : Ptr) (rest : List Ptr) :
    ((pre ++ x :: rest).set pre.length ((pre ++ x :: rest).getLast?.getD none)).dropLast =
      pre ++ rotateLast rest := by
  rw [List.set_append_right _ _ le_rfl, Nat.sub_self, List.set_cons_zero]
  rcases List.eq_nil_or_concat rest with rfl | ⟨ys, b, rfl⟩
  · simp [rotateLast]
  · rw [List.concat_eq_append, rotateLast_append]
    have hlast : (pre ++ x :: (ys ++ [b])).getLast? = some b := by
      rw [← List.cons_append, ← List.append_assoc, List.getLast?_append]; simp
    rw [hlast, Option.getD_some, ← List.cons_append, ← List.append_assoc, List.dropLast_concat]

theorem rotateLast_map {α β : Type*} (f : α → β) (xs : List α) :
    rotateLast (xs.map f) = (rotateLast xs).map f := by
  rcases List.eq_nil_or_concat xs with rfl | ⟨ys, b, rfl⟩
  · rfl
  · simp [List.concat_eq_append, rotateLast_append]

/-- **The loop on distinct live entries**: it ends, sweeps the entries, asks each
    of them once and frees the invalid ones, each once. -/
theorem exists_checks (valid : Conn → Bool) : ∀ (n : ℕ) (pre rest : List Conn) (h : Heap Conn),
    rest.length ≤ n → rest.Nodup → (∀ c ∈ rest, c ∈ h.live) →
    ∃ asked ds : List Conn, asked.Perm rest ∧ ds.Perm (rest.filter fun c => !valid c) ∧
      Checks valid pre.length ((pre ++ rest).map some) h asked
        ((pre ++ sweep valid rest).map some) ⟨h.live \ ds.toFinset, ds.reverse ++ h.frees⟩
  | _, pre, [], h, _, _, _ => by
    have hdone : Checks valid pre.length ((pre ++ []).map some) h [] ((pre ++ []).map some) h :=
      .done (by simp)
    exact ⟨[], [], .refl _, .refl _, by simpa using hdone⟩
  | 0, _, _ :: _, _, hn, _, _ => absurd hn (by simp)
  | n + 1, pre, x :: rest, h, hn, hnd, hl => by
    have hget : ((pre ++ x :: rest).map some)[pre.length]? = some (some x) := by simp
    obtain ⟨hx, hnd⟩ := List.nodup_cons.1 hnd
    rw [List.length_cons] at hn
    have hderef := Heap.deref_live (hl x List.mem_cons_self)
    cases hv : valid x with
    | true =>
      obtain ⟨asked, ds, hasked, hp, hr⟩ := exists_checks valid n (pre ++ [x]) rest h
        (Nat.le_of_succ_le_succ hn) hnd fun c hc => hl c (List.mem_cons_of_mem x hc)
      refine ⟨x :: asked, ds, hasked.cons x, by rwa [List.filter_cons_of_neg (by simp [hv])], ?_⟩
      rw [sweep_keep rest hv]
      simp only [List.length_append, List.length_singleton, List.append_assoc,
        List.singleton_append] at hr
      exact .keep hget hderef hv hr
    | false =>
      have hrot := rotateLast_perm rest
      have hl' : ∀ c ∈ rotateLast rest, c ∈ h.live.erase x := by
        intro c hc
        have hc := hrot.mem_iff.1 hc
        exact Finset.mem_erase.2 ⟨fun he => hx (he ▸ hc), hl c (List.mem_cons_of_mem x hc)⟩
      obtain ⟨asked, ds, hasked, hp, hr⟩ := exists_checks valid n pre (rotateLast rest)
        ⟨h.live.erase x, x :: h.frees⟩ (by rw [hrot.length_eq]; omega) (hrot.nodup_iff.2 hnd) hl'
      refine ⟨x :: asked, x :: ds, (hasked.trans hrot).cons x, ?_, ?_⟩
      · rw [List.filter_cons_of_pos (by simp [hv])]
        exact (hp.trans (hrot.filter _)).cons x
      · have hset : (((pre ++ x :: rest).map some).set pre.length
            (((pre ++ x :: rest).map some).getLast?.getD none)).dropLast =
              (pre ++ rotateLast rest).map some := by
          have := swap_last (pre.map some) (some x) (rest.map some)
          rw [rotateLast_map, List.length_map] at this
          rw [List.map_append, List.map_cons, this, List.map_append]
        have hheap : (⟨h.live.erase x \ ds.toFinset, ds.reverse ++ x :: h.frees⟩ : Heap Conn) =
            ⟨h.live \ (x :: ds).toFinset, (x :: ds).reverse ++ h.frees⟩ := by
          congr 1
          · rw [List.toFinset_cons, Finset.erase_sdiff_comm, Finset.sdiff_insert]
          · rw [List.reverse_cons, List.append_assoc, List.singleton_append]
        rw [sweep_drop rest hv, ← hheap]
        refine .drop hget hderef hv (free_live (hl x List.mem_cons_self)) ?_
        rwa [hset]

/-- **`CheckConnect` on distinct live entries**, when it does check. -/
theorem exists_checkConnect (valid : Conn → Bool) (now' : ℤ) (hcs : s.conns = cs.map some)
    (hnd : cs.Nodup) (hl : ∀ c ∈ cs, c ∈ h.live) (hnow : ¬ now - s.lastCheckTime < 1) :
    ∃ asked ds : List Conn, asked.Perm cs ∧ ds.Perm (cs.filter fun c => !valid c) ∧
      Checks valid 0 s.conns h asked ((sweep valid cs).map some)
        ⟨h.live \ ds.toFinset, ds.reverse ++ h.frees⟩ ∧
      checkConnect now now' valid s h = .ok (⟨(sweep valid cs).map some, now'⟩,
        ⟨h.live \ ds.toFinset, ds.reverse ++ h.frees⟩) := by
  obtain ⟨asked, ds, hasked, hds, hr⟩ := exists_checks valid cs.length [] cs h le_rfl hnd hl
  rw [List.nil_append, List.nil_append, List.length_nil, ← hcs] at hr
  have hlen : asked.length ≤ s.conns.length := by
    rw [hasked.length_eq, hcs, List.length_map]
  refine ⟨asked, ds, hasked, hds, hr, ?_⟩
  rw [checkConnect, if_neg hnow, hr.checkLoop_eq hlen, ok_bind]
  rfl

theorem count_filter_perm {α : Type*} [DecidableEq α] {xs ys : List α} {p : α → Bool}
    (hp : ys.Perm (xs.filter p)) (hnd : xs.Nodup) (c : α) :
    ys.count c = if c ∈ xs ∧ p c = true then 1 else 0 := by
  rw [hp.count_eq, (hnd.filter p).count]
  simp only [List.mem_filter]

/-- **`CheckConnect` removes exactly the invalid connections.**  The loop ends,
    and it asks every connection of the pool once, frees every invalid one once
    and leaves every valid one once, and nothing else. -/
theorem checkConnect_removes (hcs : s.conns = cs.map some) (hnd : cs.Nodup)
    (hl : ∀ c ∈ cs, c ∈ h.live) (hnow : ¬ now - s.lastCheckTime < 1) :
    ∃ (asked freed left : List Conn) (h' : Heap Conn),
      h'.live = h.live \ freed.toFinset ∧ h'.frees = freed.reverse ++ h.frees ∧
      Checks valid 0 s.conns h asked (left.map some) h' ∧
      checkConnect now now' valid s h = .ok (⟨left.map some, now'⟩, h') ∧
      ∀ c, asked.count c = (if c ∈ cs then 1 else 0) ∧
        freed.count c = (if c ∈ cs ∧ valid c = false then 1 else 0) ∧
        left.count c = if c ∈ cs ∧ valid c = true then 1 else 0 := by
  obtain ⟨asked, ds, hasked, hds, hr, he⟩ := exists_checkConnect valid now' hcs hnd hl hnow
  refine ⟨asked, ds, sweep valid cs, _, rfl, rfl, hr, he, ?_⟩
  intro c
  refine ⟨?_, ?_, count_filter_perm (sweep_perm valid cs) hnd c⟩
  · rw [hasked.count_eq, hnd.count]
  · rw [count_filter_perm hds hnd c]
    simp only [Bool.not_eq_true']

/-- Four connections, only the third one is valid. -/
theorem checkConnect_removes_four : ∃ (asked freed left : List Conn) (h' : Heap Conn),
    h'.live = {1, 2, 3, 4} \ freed.toFinset ∧ h'.frees = freed.reverse ++ [] ∧
    Checks (· == 3) 0 [some 1, some 2, some 3, some 4] ⟨{1, 2, 3, 4}, []⟩ asked
      (left.map some) h' ∧
    checkConnect 5 6 (· == 3) ⟨[some 1, some 2, some 3, some 4], 0⟩ ⟨{1, 2, 3, 4}, []⟩ =
      .ok (⟨left.map some, 6⟩, h') ∧
    ∀ c, asked.count c = (if c ∈ [1, 2, 3, 4] then 1 else 0) ∧
      freed.count c = (if c ∈ [1, 2, 3, 4] ∧ (c == 3) = false then 1 else 0) ∧
      left.count c = if c ∈ [1, 2, 3, 4] ∧ (c == 3) = true then 1 else 0 :=
  have hnow : ¬ (5 : ℤ) - 0 < 1 := by decide
  checkConnect_removes (s := ⟨[1, 2, 3, 4].map some, 0⟩) (h := ⟨{1, 2, 3, 4}, []⟩) rfl
    (by decide) (by decide) hnow

/-! ## Any entries -/

theorem eq_of_deref {p : Ptr} {c : Conn} (hd : h.deref p = .ok c) : p = some c := by
  cases p with
  | none => cases hd
  | some d =>
    simp only [Heap.deref] at hd
    split_ifs at hd
    rw [Except.ok.inj hd]

/-- What the bounded loop does without undefined behaviour is a run. -/
theorem checks_of_checkLoop : ∀ {n i : ℕ} {conns : List Ptr} {h : Heap Conn},
    checkLoop valid n i conns h = .ok (conns', h') → conns.length ≤ i + n →
    ∃ asked, Checks valid i conns h asked conns' h'
  | 0, i, conns, h, hr, hn => by
    cases hr
    exact ⟨[], .done hn⟩
  | n + 1, i, conns, h, hr, hn => by
    rw [checkLoop] at hr
    rcases hget : conns[i]? with _ | p
    · rw [hget] at hr
      cases hr
      exact ⟨[], .done (List.getElem?_eq_none_iff.1 hget)⟩
    have hi := (List.getElem?_eq_some_iff.1 hget).1
    simp only [hget] at hr
    rcases hd : h.deref p with f | c
    · rw [hd] at hr; cases hr
    rw [hd, ok_bind] at hr
    split_ifs at hr with hv
    · obtain ⟨asked, hr⟩ := checks_of_checkLoop hr (by omega)
      exact ⟨c :: asked, .keep hget hd hv hr⟩
    · rcases hf : free h p with f | ⟨h₁, q⟩
      · rw [hf] at hr; cases hr
      rw [hf, ok_bind] at hr
      obtain ⟨asked, hr⟩ := checks_of_checkLoop hr (by
        rw [List.length_dropLast, List.length_set]; omega)
      exact ⟨c :: asked, .drop hget hd (by simpa using hv) hf hr⟩

/-- Nothing new comes into the vector. -/
theorem Checks.subset (hr : Checks valid i conns h asked conns' h') : conns' ⊆ conns := by
  induction hr with
  | done _ => exact List.Subset.refl _
  | keep _ _ _ _ ih => exact ih
  | @drop i conns _ _ _ _ p _ _ _ hget _ _ _ _ ih =>
    intro x hx
    rcases List.mem_or_eq_of_mem_set (List.mem_of_mem_dropLast (ih hx)) with hx | rfl
    · exact hx
    · have hne : conns ≠ [] := by rintro rfl; cases hget
      rw [List.getLast?_eq_some_getLast hne]
      exact List.getLast_mem hne

/-- What is left is valid, if everything before the start is. -/
theorem Checks.left_valid (hr : Checks valid i conns h asked conns' h')
    (hpre : ∀ c, some c ∈ conns.take i → valid c = true) :
    ∀ c, some c ∈ conns' → valid c = true := by
  induction hr with
  | done hle => rwa [List.take_of_length_le hle] at hpre
  | keep hget hd hv _ ih =>
    refine ih ?_
    intro d hmem
    rw [List.take_add_one, hget, List.mem_append] at hmem
    rcases hmem with hmem | hmem
    · exact hpre d hmem
    · rw [eq_of_deref hd] at hmem
      obtain rfl : d = _ := by simpa using hmem
      exact hv
  | drop _ _ _ _ _ ih =>
    refine ih ?_
    intro d hmem
    rw [List.dropLast_eq_take, List.length_set, List.take_take,
      List.take_set_of_le (Nat.min_le_left ..)] at hmem
    exact hpre d (List.take_subset_take_left _ (Nat.min_le_left ..) hmem)

/-- `CheckConnect` without undefined behaviour: it brings nothing into the pool,
    and leaves only valid connections if it does check. -/
theorem checkConnect_ok {s' : Pool} (hr : checkConnect now now' valid s h = .ok (s', h')) :
    s'.conns ⊆ s.conns ∧
      (now - s.lastCheckTime < 1 ∨ ∀ c, some c ∈ s'.conns → valid c = true) := by
  unfold checkConnect at hr
  split_ifs at hr with hnow
  · cases hr
    exact ⟨List.Subset.refl _, .inl hnow⟩
  · rcases hl : checkLoop valid s.conns.length 0 s.conns h with f | ⟨conns', h₁⟩
    · rw [hl] at hr; cases hr
    rw [hl] at hr
    cases hr
    obtain ⟨asked, hc⟩ := checks_of_checkLoop hl (by omega)
    exact ⟨hc.subset, .inr (hc.left_valid (by simp))⟩

end CppExperiment.ConnPool
