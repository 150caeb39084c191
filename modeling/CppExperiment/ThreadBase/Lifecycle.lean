/-
  `dai::ThreadBase` (CommonTools/ThreadBase.cc): `Start`, `Stop` and `Join`.

  One thread makes the calls; the threads that `Start` creates run `ThreadProc`.
  An action is a call, the second half of `Start`, or a step of a created
  thread, in any order.  `Start` looks at the run flag only: a thread that was
  stopped but not joined is still joinable when `m_Thread` is replaced, which
  terminates the program.

  `safe_of_run`: all is well in every run in which each `Start` that follows a
  `Stop` comes after a `Join`, and otherwise the program terminates;
  `start_without_join` is a failing run.
-/
import CppExperiment.Lib.Run

namespace CppExperiment.ThreadBase

/-- Where a created thread is in `ThreadProc`. -/
inductive Phase where
  /-- up to `InitThread()` -/
  | starting
  /-- before `while (m_ShouldRun)` -/
  | checking
  /-- in `Run()` -/
  | running
  | finished
  deriving DecidableEq

/-- A created thread. -/
structure Worker where
  phase : Phase
  /-- `Stop` has been called for it -/
  stopped : Bool
  /-- it has entered `Run()` after that because the flag was set -/
  resumed : Bool

/-- A new thread. -/
def Worker.new : Worker := ⟨.starting, false, false⟩

/-- A step of `ThreadProc`. -/
def Worker.step (shouldRun : Bool) (w : Worker) : Option Worker :=
  match w.phase with
  | .starting => some { w with phase := .checking }
  | .checking =>
    if shouldRun then some { w with phase := .running, resumed := w.resumed || w.stopped }
    else some { w with phase := .finished }
  | .running => some { w with phase := .checking }
  | .finished => none

/-- The object, the threads it has created and the calling thread. -/
structure Thread where
  /-- `m_ShouldRun` -/
  shouldRun : Bool
  /-- the thread of `m_Thread`, if it is joinable -/
  handle : Option ℕ
  /-- the threads, numbered by their creation -/
  workers : ℕ → Option Worker
  created : ℕ
  /-- the caller is in `Start`, after the flag was set -/
  inStart : Bool
  /-- `std::terminate` was called -/
  terminated : Bool

def Thread.init : Thread := ⟨false, none, fun _ => none, 0, false, false⟩

namespace Thread

/-- `Start`, up to the creation of the thread. -/
def start (s : Thread) : Thread :=
  if s.shouldRun then s else { s with shouldRun := true, inStart := true }

/-- The rest of `Start`: assigning to a joinable `std::thread` terminates the
    program. -/
def spawn (s : Thread) : Thread :=
  { s with
    workers := Function.update s.workers s.created (some .new)
    created := s.created + 1
    handle := some s.created
    inStart := false
    terminated := s.handle.isSome }

/-- `Stop` -/
def stop (s : Thread) : Thread :=
  { s with
    shouldRun := false
    workers := fun k => (s.workers k).map fun w => { w with stopped := true } }

/-- `Join`; `none` as long as it waits. -/
def join (s : Thread) : Option Thread :=
  match s.handle with
  | none => some s
  | some k =>
    if (s.workers k).any (·.phase = .finished) then some { s with handle := none } else none

/-- A step of the thread `k`. -/
def work (s : Thread) (k : ℕ) : Option Thread := do
  let w ← s.workers k
  let w ← w.step s.shouldRun
  return { s with workers := Function.update s.workers k (some w) }

end Thread

/-- What happens next. -/
inductive Action where
  /-- `Start` is called: it returns or sets the flag -/
  | start
  /-- `Start` creates a thread and assigns it to `m_Thread` -/
  | spawn
  | stop
  /-- `Join` returns -/
  | join
  /-- a step of a created thread -/
  | work (k : ℕ)

/-- One action; `none` if it is not possible. -/
def step (s : Thread) (a : Action) : Option Thread :=
  if s.terminated then none
  else match a, s.inStart with
  | .start, false => some s.start
  | .spawn, true => some s.spawn
  | .stop, false => some s.stop
  | .join, false => s.join
  | .work k, _ => s.work k
  | _, _ => none

/-! ## The order of the calls -/

variable {s t : Thread} {a : Action} {h : List (Thread × Action)}

/-- The last call of `Start` or `Stop` was a `Start`. -/
def started : List (Thread × Action) → Bool
  | [] => false
  | (_, .start) :: _ => true
  | (_, .stop) :: _ => false
  | _ :: h => started h

/-- `Join` has been called since the last call of `Start`, if there was one. -/
def joined : List (Thread × Action) → Bool
  | [] => true
  | (_, .start) :: _ => false
  | (_, .join) :: _ => true
  | _ :: h => joined h

/-- Every `Start` follows a `Start` without a `Stop` in between, or a `Join`. -/
def JoinsFirst : List (Thread × Action) → Prop
  | [] => True
  | (_, .start) :: h => (started h = true ∨ joined h = true) ∧ JoinsFirst h
  | _ :: h => JoinsFirst h

theorem JoinsFirst.tail {x : Thread × Action} (hj : JoinsFirst (x :: h)) : JoinsFirst h := by
  obtain ⟨s, a⟩ := x
  cases a with
  | start => exact hj.2
  | spawn => exact hj
  | stop => exact hj
  | join => exact hj
  | work k => exact hj

/-- `m_Thread` was not replaced while it was joinable, and no thread for which
    `Stop` was called has been resumed. -/
structure Safe (s : Thread) : Prop where
  terminated : s.terminated = false
  resumed : ∀ k w, s.workers k = some w → w.resumed = false

/-! ## The invariant -/

/-- A created thread: only the one of `m_Thread` can still run, and if the flag
    is set, it does, and has not been stopped. -/
structure WorkerOk (s : Thread) (k : ℕ) (w : Worker) : Prop where
  resumed : w.resumed = false
  finished : s.handle ≠ some k → w.phase = .finished
  flag : s.handle = some k → s.shouldRun = true → w.phase ≠ .finished ∧ w.stopped = false

/-- The state after the calls in `h`. -/
structure Inv (h : List (Thread × Action)) (s : Thread) : Prop where
  terminated : s.terminated = false
  flag : s.shouldRun = started h
  /-- in `Start`, nothing is joinable and all threads have finished -/
  inStart : s.inStart = true → s.handle = none ∧ s.shouldRun = true ∧ joined h = false
  handle : s.inStart = false → s.handle.isNone = joined h
  runs : s.inStart = false → s.shouldRun = true → s.handle ≠ none
  workers : ∀ k w, s.workers k = some w → WorkerOk s k w
  fresh : ∀ k, s.created ≤ k → s.workers k = none
  handle_lt : ∀ k, s.handle = some k → k < s.created

theorem inv_init : Inv [] Thread.init :=
  ⟨rfl, rfl, nofun, fun _ => rfl, nofun, nofun, fun _ _ => rfl, nofun⟩

theorem Inv.safe (hi : Inv h s) : Safe s :=
  ⟨hi.terminated, fun k w hw => (hi.workers k w hw).resumed⟩

/-- A step of a created thread keeps what holds of it. -/
theorem WorkerOk.step {k : ℕ} {w w' : Worker} (hw : WorkerOk s k w)
    (hs : w.step s.shouldRun = some w') : WorkerOk s k w' := by
  unfold Worker.step at hs
  by_cases hk : s.handle = some k
  · have hflag := hw.flag hk
    cases hp : w.phase with
    | starting =>
      rw [hp] at hs
      cases hs
      exact ⟨hw.resumed, fun h => absurd hk h, fun _ hrun => ⟨nofun, (hflag hrun).2⟩⟩
    | checking =>
      simp only [hp] at hs
      split_ifs at hs with hrun
      · cases hs
        refine ⟨?_, fun h => absurd hk h, fun _ _ => ⟨nofun, (hflag hrun).2⟩⟩
        simp [hw.resumed, (hflag hrun).2]
      · cases hs
        exact ⟨hw.resumed, fun h => absurd hk h, fun _ h => absurd h hrun⟩
    | running =>
      rw [hp] at hs
      cases hs
      exact ⟨hw.resumed, fun h => absurd hk h, fun _ hrun => ⟨nofun, (hflag hrun).2⟩⟩
    | finished => rw [hp] at hs; cases hs
  · rw [hw.finished hk] at hs
    cases hs

theorem inv_start (hi : Inv h s) (hin : s.inStart = false)
    (hj : started h = true ∨ joined h = true) : Inv ((s, .start) :: h) s.start := by
  unfold Thread.start
  split_ifs with hrun
  · -- the flag is set: nothing happens
    have hsome : s.handle.isNone = false := by
      rw [← Bool.not_eq_true, Option.isNone_iff_eq_none]
      exact hi.runs hin hrun
    exact ⟨hi.terminated, hrun, fun h => absurd h (by simp [hin]),
      fun _ => hsome, hi.runs, hi.workers, hi.fresh, hi.handle_lt⟩
  · have hjoin : joined h = true := by
      rcases hj with hst | hjoin
      · exact absurd (hi.flag.trans hst) hrun
      · exact hjoin
    have hnone : s.handle = none := by simpa [hjoin] using hi.handle hin
    refine ⟨hi.terminated, rfl, fun _ => ⟨hnone, rfl, rfl⟩, nofun, nofun, ?_, hi.fresh,
      hi.handle_lt⟩
    intro k w hw
    have hok := hi.workers k w hw
    exact ⟨hok.resumed, hok.finished, fun h => absurd h (by simp [hnone])⟩

theorem inv_spawn (hi : Inv h s) (hin : s.inStart = true) : Inv ((s, .spawn) :: h) s.spawn := by
  obtain ⟨hnone, hrun, hjoin⟩ := hi.inStart hin
  refine ⟨by simp [Thread.spawn, hnone], hi.flag, nofun, fun _ => hjoin.symm, fun _ _ => nofun,
    ?_, ?_, ?_⟩
  · intro k w hw
    change Function.update s.workers s.created (some .new) k = some w at hw
    by_cases hk : k = s.created
    · subst hk
      rw [Function.update_self] at hw
      cases hw
      exact ⟨rfl, fun h => absurd rfl h, fun _ _ => ⟨nofun, rfl⟩⟩
    · rw [Function.update_of_ne hk] at hw
      have hok := hi.workers k w hw
      refine ⟨hok.resumed, fun _ => hok.finished (by simp [hnone]), ?_⟩
      intro h
      cases h
      exact absurd rfl hk
  · intro k hk
    change s.created + 1 ≤ k at hk
    change Function.update s.workers s.created (some .new) k = none
    rw [Function.update_of_ne (by omega)]
    exact hi.fresh k (by omega)
  · intro k hk
    cases hk
    exact Nat.lt_succ_self _

theorem inv_stop (hi : Inv h s) (hin : s.inStart = false) : Inv ((s, .stop) :: h) s.stop := by
  refine ⟨hi.terminated, rfl, fun h => absurd h (by simp [Thread.stop, hin]),
    fun _ => hi.handle hin, nofun, ?_, ?_, hi.handle_lt⟩
  · intro k w hw
    obtain ⟨w', hw', rfl⟩ := Option.map_eq_some_iff.1 hw
    have hok := hi.workers k w' hw'
    exact ⟨hok.resumed, hok.finished, nofun⟩
  · intro k hk
    exact Option.map_eq_none_iff.2 (hi.fresh k hk)

theorem inv_join (hi : Inv h s) (hin : s.inStart = false) (hs : s.join = some t) :
    Inv ((s, .join) :: h) t := by
  unfold Thread.join at hs
  cases hh : s.handle with
  | none =>
    rw [hh] at hs
    cases hs
    exact ⟨hi.terminated, hi.flag, fun h => absurd h (by simp [hin]),
      fun _ => by simp [hh, joined], hi.runs, hi.workers, hi.fresh, hi.handle_lt⟩
  | some k =>
    simp only [hh] at hs
    split_ifs at hs with hfin
    cases hs
    obtain ⟨w, hw, hp⟩ := (Option.any_eq_true _ _).1 hfin
    have hp : w.phase = .finished := by simpa using hp
    -- a thread that has finished has seen the flag unset
    have hrun : s.shouldRun = false := by
      rw [← Bool.not_eq_true]
      intro hrun
      exact ((hi.workers k w hw).flag hh hrun).1 hp
    refine ⟨hi.terminated, hi.flag, fun h => absurd h (by simp [hin]), fun _ => rfl,
      fun _ h => absurd h (by simp [hrun]), ?_, hi.fresh, nofun⟩
    intro j v hv
    have hok := hi.workers j v hv
    refine ⟨hok.resumed, fun _ => ?_, nofun⟩
    by_cases hj : j = k
    · subst hj
      have hvw : some v = some w := hv.symm.trans hw
      cases hvw
      exact hp
    · exact hok.finished (by rw [hh]; simp [Ne.symm hj])

theorem inv_work {k : ℕ} (hi : Inv h s) (hs : s.work k = some t) : Inv ((s, .work k) :: h) t := by
  obtain ⟨w, hw, hs⟩ := Option.bind_eq_some_iff.1 hs
  obtain ⟨w', hstep, hs⟩ := Option.bind_eq_some_iff.1 hs
  cases hs
  refine ⟨hi.terminated, hi.flag, hi.inStart, hi.handle, hi.runs, ?_, ?_, hi.handle_lt⟩
  · intro j v hv
    change Function.update s.workers k (some w') j = some v at hv
    by_cases hj : j = k
    · subst hj
      rw [Function.update_self] at hv
      cases hv
      obtain ⟨h1, h2, h3⟩ := (hi.workers j w hw).step hstep
      exact ⟨h1, h2, h3⟩
    · rw [Function.update_of_ne hj] at hv
      obtain ⟨h1, h2, h3⟩ := hi.workers j v hv
      exact ⟨h1, h2, h3⟩
  · intro j hj
    have hjk : j ≠ k := by
      rintro rfl
      rw [hi.fresh j hj] at hw
      cases hw
    change Function.update s.workers k (some w') j = none
    rw [Function.update_of_ne hjk]
    exact hi.fresh j hj

theorem inv_step (hi : Inv h s) (hj : JoinsFirst ((s, a) :: h)) (hs : step s a = some t) :
    Inv ((s, a) :: h) t := by
  unfold step at hs
  rw [if_neg (by simp [hi.terminated])] at hs
  cases hin : s.inStart with
  | false =>
    rw [hin] at hs
    cases a with
    | start => cases hs; exact inv_start hi hin hj.1
    | spawn => cases hs
    | stop => cases hs; exact inv_stop hi hin
    | join => exact inv_join hi hin hs
    | work k => exact inv_work hi hs
  | true =>
    rw [hin] at hs
    cases a with
    | spawn => cases hs; exact inv_spawn hi hin
    | work k => exact inv_work hi hs
    | _ => cases hs

/-- **Start, stop and join.**  In a run in which every `Start` follows a `Start`
    without a `Stop` in between, or a `Join`, `m_Thread` is never replaced while
    it is joinable and no stopped thread is resumed.  A `Start` that does not
    terminates the program. -/
theorem safe_of_run (hr : Run step Thread.init h s) (hj : JoinsFirst h) :
    Always Safe h s ∧ ∀ t, step s .start = some t → ¬ JoinsFirst ((s, .start) :: h) →
      ∃ u, step t .spawn = some u ∧ u.terminated = true := by
  obtain ⟨hi, hal⟩ := hr.always_of_hist (G := JoinsFirst) (I := Inv) inv_init
    (fun _ _ hj => hj.tail) (fun _ _ _ _ hi hj hs => inv_step hi hj hs) (fun _ _ hi => hi.safe) hj
  refine ⟨hal, ?_⟩
  intro t hs hnot
  have hcalls : ¬ (started h = true ∨ joined h = true) := fun h => hnot ⟨h, hj⟩
  rw [not_or] at hcalls
  unfold step at hs
  rw [if_neg (by simp [hi.terminated])] at hs
  cases hin : s.inStart with
  | true => rw [hin] at hs; cases hs
  | false =>
    rw [hin] at hs
    cases hs
    have hrun : ¬ s.shouldRun = true := by rw [hi.flag]; exact hcalls.1
    have hsome : s.handle.isSome = true := by
      have := hi.handle hin
      rw [Bool.eq_false_iff.2 hcalls.2] at this
      simpa using this
    refine ⟨s.start.spawn, ?_, ?_⟩
    · simp [step, Thread.start, hrun, hi.terminated]
    · simpa [Thread.start, hrun, Thread.spawn] using hsome

/-- A thread is started, stopped, joined and started again. -/
theorem safe_of_run_joined : ∃ h s, Run step Thread.init h s ∧ s.handle = some 1 ∧
    Always Safe h s := by
  have hr : Run step Thread.init _ _ := .snoc (a := .spawn) (.snoc (a := .start)
    (.snoc (a := .join) (.snoc (a := .work 0) (.snoc (a := .work 0) (.snoc (a := .stop)
      (.snoc (a := .spawn) (.snoc (a := .start) .nil rfl) rfl) rfl) rfl) rfl) rfl) rfl) rfl
  exact ⟨_, _, hr, rfl, (safe_of_run hr ⟨.inr rfl, .inr rfl, trivial⟩).1⟩

/-- A thread is started, stopped and started again without a `Join`: the stopped
    thread is resumed, and the program terminates. -/
theorem start_without_join : ∃ h s, Run step Thread.init h s ∧ s.terminated = true ∧
    (∃ w, s.workers 0 = some w ∧ w.resumed = true) ∧ ¬ Safe s := by
  have hr : Run step Thread.init _ _ := .snoc (a := .spawn) (.snoc (a := .work 0)
    (.snoc (a := .start) (.snoc (a := .work 0) (.snoc (a := .stop)
      (.snoc (a := .spawn) (.snoc (a := .start) .nil rfl) rfl) rfl) rfl) rfl) rfl) rfl
  refine ⟨_, _, hr, rfl, ⟨_, rfl, rfl⟩, ?_⟩
  intro hsafe
  cases hsafe.terminated

end CppExperiment.ThreadBase
