/-
  The repeating timer of `AsioClient`.

  `start_repeating_timer` and `stop_timer` are called by the main thread, the
  handler of a wait runs on the `io_context`: it calls the callback and arms the
  timer again if its error code says success.  Cancelling the timer aborts the
  waits that are pending; a wait that has expired before is not changed, its
  handler is queued with success.

  `stop_timer_iff`: a call of `stop_timer` stops the timer, whatever happens
  afterwards, exactly if no such handler is queued or running; in
  `expired_handler_rearms` one is queued.
-/
import CppExperiment.Lib.Run

namespace CppExperiment.AsioClient.RepeatTimer

/-- The timer and its handlers. -/
structure Timer where
  /-- `timer_` is not null -/
  created : Bool
  /-- waits that are armed and have not expired -/
  pending : ℕ
  /-- handlers that are ready to run; `true` is success -/
  queued : List Bool
  /-- a handler runs, between `callback()` and `repeat_timer` -/
  repeating : Bool

namespace Timer

def init : Timer := ⟨false, 0, [], false⟩

/-- `timer_->cancel()`: the pending waits are aborted. -/
def cancel (t : Timer) : Timer :=
  { t with pending := 0, queued := t.queued ++ List.replicate t.pending false }

/-- `repeat_timer`: `expires_from_now` cancels, `async_wait` arms. -/
def repeatTimer (t : Timer) : Timer := { t.cancel with pending := 1 }

/-- `start_repeating_timer`: the old timer is destroyed, with its waits. -/
def startRepeatingTimer (t : Timer) : Timer := { t.cancel with created := true }.repeatTimer

/-- `stop_timer` -/
def stopTimer (t : Timer) : Timer := if t.created then t.cancel else t

end Timer

/-- What happens next: a call of the main thread, the expiry of a wait, or a
    step of the thread that runs the `io_context`. -/
inductive Action where
  | start
  | stop
  | expire
  /-- the handler at an index of the queue is run, up to its callback -/
  | handle (i : ℕ)
  /-- the running handler calls `repeat_timer` -/
  | rearm
  deriving DecidableEq

/-- One action; `none` if it is not possible. -/
def step (t : Timer) : Action → Option Timer
  | .start => some t.startRepeatingTimer
  | .stop => some t.stopTimer
  | .expire =>
    if 0 < t.pending then some { t with pending := t.pending - 1, queued := t.queued ++ [true] }
    else none
  | .handle i =>
    if t.repeating then none
    else match t.queued[i]? with
      | some ok => some { t with queued := t.queued.eraseIdx i, repeating := ok }
      | none => none
  | .rearm => if t.repeating then some { t with repeating := false }.repeatTimer else none

variable {t u : Timer} {a : Action} {g h : List (Timer × Action)}

/-- What a step does. -/
theorem step_cases (hs : step t a = some u) :
    match a with
    | .start => u = t.startRepeatingTimer
    | .stop => u = t.stopTimer
    | .expire => 0 < t.pending ∧
        u = { t with pending := t.pending - 1, queued := t.queued ++ [true] }
    | .handle i => t.repeating = false ∧ ∃ ok, t.queued[i]? = some ok ∧
        u = { t with queued := t.queued.eraseIdx i, repeating := ok }
    | .rearm => t.repeating = true ∧ u = { t with repeating := false }.repeatTimer := by
  cases a with
  | start => exact (Option.some.inj hs).symm
  | stop => exact (Option.some.inj hs).symm
  | expire =>
    simp only [step] at hs
    split_ifs at hs with hp
    exact ⟨hp, (Option.some.inj hs).symm⟩
  | handle i =>
    simp only [step] at hs
    split_ifs at hs with hrep
    rcases hq : t.queued[i]? with _ | ok
    · rw [hq] at hs; cases hs
    · rw [hq] at hs
      exact ⟨eq_false_of_ne_true hrep, ok, hq, (Option.some.inj hs).symm⟩
  | rearm =>
    simp only [step] at hs
    split_ifs at hs with hrep
    exact ⟨hrep, (Option.some.inj hs).symm⟩

/-! ## Stopping -/

/-- The handler that runs calls the callback. -/
def callsBack (t : Timer) : Action → Bool
  | .handle i => t.queued[i]?.getD false
  | _ => false

/-- How often the callback is called. -/
def callbacks (h : List (Timer × Action)) : ℕ := h.countP fun x => callsBack x.1 x.2

/-- After the steps `g` since `stop_timer`: no wait has been armed, the callback
    has been called at most once, and no wait is pending that would keep the
    `io_context` running. -/
structure Stopped (g : List (Timer × Action)) (u : Timer) : Prop where
  arms : ∀ x ∈ g, x.2 ≠ .rearm
  once : callbacks g ≤ 1
  done : u.pending = 0

/-- No handler with success is queued, and none is running. -/
structure Idle (t : Timer) : Prop where
  queued : true ∉ t.queued
  repeating : t.repeating = false

/-- The timer is not started anew. -/
def NotStarted (_ : Timer) (a : Action) : Prop := a ≠ .start

/-- Without a timer there is nothing to handle. -/
def Created (t : Timer) : Prop :=
  t.created = true ∨ t.pending = 0 ∧ t.queued = [] ∧ t.repeating = false

theorem created_step (hc : Created t) (hs : step t a = some u) : Created u := by
  cases a with
  | start =>
    have hu : u = t.startRepeatingTimer := step_cases hs
    rw [hu]
    exact .inl rfl
  | stop =>
    have hu : u = t.stopTimer := step_cases hs
    rw [hu]
    unfold Timer.stopTimer
    split_ifs with h
    · exact .inl h
    · exact hc
  | expire =>
    obtain ⟨hp, rfl⟩ := step_cases hs
    rcases hc with hc | ⟨h0, -, -⟩
    · exact .inl hc
    · exact absurd h0 hp.ne'
  | handle i =>
    obtain ⟨-, ok, hq, rfl⟩ := step_cases hs
    rcases hc with hc | ⟨-, hnil, -⟩
    · exact .inl hc
    · rw [hnil] at hq; cases hq
  | rearm =>
    obtain ⟨hr, rfl⟩ := step_cases hs
    rcases hc with hc | ⟨-, -, h0⟩
    · exact .inl hc
    · rw [h0] at hr; cases hr

/-- Nothing is pending, and no handler will call the callback. -/
structure Done (t : Timer) : Prop extends Idle t where
  pending : t.pending = 0

theorem done_stopTimer (hc : Created t) (hi : Idle t) : Done t.stopTimer := by
  unfold Timer.stopTimer
  split_ifs with h
  · refine ⟨⟨?_, hi.repeating⟩, rfl⟩
    rw [Timer.cancel, List.mem_append, List.mem_replicate]
    rintro (hq | ⟨-, hq⟩)
    · exact hi.queued hq
    · cases hq
  · rcases hc with hc | ⟨h0, -, -⟩
    · exact absurd hc h
    · exact ⟨hi, h0⟩

/-- A timer that is done stays so until it is started. -/
theorem done_step (hd : Done t) (ha : NotStarted t a) (hs : step t a = some u) :
    Done u ∧ a ≠ .rearm ∧ callsBack t a = false := by
  cases a with
  | start => exact absurd rfl ha
  | stop =>
    have hu : u = t.stopTimer := step_cases hs
    rw [hu]
    refine ⟨?_, nofun, rfl⟩
    unfold Timer.stopTimer
    split_ifs
    · rw [Timer.cancel, hd.pending, List.replicate_zero, List.append_nil]
      exact ⟨⟨hd.queued, hd.repeating⟩, rfl⟩
    · exact hd
  | expire => exact absurd hd.pending (step_cases hs).1.ne'
  | handle i =>
    obtain ⟨-, ok, hq, rfl⟩ := step_cases hs
    have hok : ok = false := by
      rw [← Bool.not_eq_true]
      rintro rfl
      exact hd.queued (List.mem_of_getElem? hq)
    refine ⟨⟨⟨?_, hok⟩, hd.pending⟩, nofun, ?_⟩
    · intro hm
      exact hd.queued (List.mem_of_mem_eraseIdx hm)
    · rw [callsBack, hq, hok]; rfl
  | rearm => exact absurd ((step_cases hs).1.symm.trans hd.repeating) (Ne.symm Bool.false_ne_true)

theorem stopped_of_done (hd : Done t) (hr : Run step t g u) (hg : Steps NotStarted g) :
    Stopped g u := by
  have key : Done u ∧ (∀ x ∈ g, x.2 ≠ .rearm) ∧ callbacks g = 0 := by
    refine hr.inv_hist (I := fun g u => Done u ∧ (∀ x ∈ g, x.2 ≠ .rearm) ∧ callbacks g = 0)
      ⟨hd, nofun, rfl⟩ ?_ hg
    rintro g t a u ⟨hd, harm, hcalls⟩ ha hs
    obtain ⟨hd', hne, hcall⟩ := done_step hd ha hs
    refine ⟨hd', ?_, ?_⟩
    · intro x hx
      rcases List.mem_cons.1 hx with rfl | hx
      · exact hne
      · exact harm x hx
    · rw [callbacks, List.countP_cons_of_neg (by simp [hcall])]
      exact hcalls
  exact ⟨key.2.1, by rw [key.2.2]; exact Nat.zero_le 1, key.1.pending⟩

/-- The running handler arms a wait. -/
theorem rearm_of_repeating (hr : t.repeating = true) : ∃ u, step t .rearm = some u := by
  rw [step, if_pos hr]
  exact ⟨_, rfl⟩

theorem rearms_of_not_idle (hi : ¬ Idle t) :
    ∃ g u, Run step t.stopTimer g u ∧ Steps NotStarted g ∧ ¬ Stopped g u := by
  by_cases hrep : t.repeating = true
  · -- the handler that runs goes on
    have hrep' : t.stopTimer.repeating = true := by
      unfold Timer.stopTimer
      split_ifs <;> exact hrep
    obtain ⟨u, hu⟩ := rearm_of_repeating hrep'
    refine ⟨_, u, .snoc .nil hu, by simp [Steps, NotStarted], ?_⟩
    intro hst
    exact hst.arms _ (List.mem_singleton_self _) rfl
  · -- a handler that is queued with success is run first
    have hq : true ∈ t.queued := by
      by_contra hq
      exact hi ⟨hq, by simpa using hrep⟩
    have hq' : true ∈ t.stopTimer.queued := by
      unfold Timer.stopTimer
      split_ifs
      · exact List.mem_append_left _ hq
      · exact hq
    have hrep' : ¬ t.stopTimer.repeating = true := by
      unfold Timer.stopTimer
      split_ifs <;> exact hrep
    obtain ⟨i, hi⟩ := List.getElem?_of_mem hq'
    have hs : step t.stopTimer (.handle i) = some
        { t.stopTimer with queued := t.stopTimer.queued.eraseIdx i, repeating := true } := by
      rw [step, if_neg hrep', hi]
    obtain ⟨u, hu⟩ := rearm_of_repeating
      (t := { t.stopTimer with queued := t.stopTimer.queued.eraseIdx i, repeating := true }) rfl
    refine ⟨_, u, .snoc (.snoc .nil hs) hu, by simp [Steps, NotStarted], ?_⟩
    intro hst
    exact hst.arms _ List.mem_cons_self rfl

/-- **Stopping the timer.**  In every reachable state, a call of `stop_timer`
    stops the timer, for every order of what happens afterwards, exactly if no
    handler with success is queued or running. -/
theorem stop_timer_iff (hr : Run step Timer.init h t) :
    (∀ g u, Run step t.stopTimer g u → Steps NotStarted g → Stopped g u) ↔ Idle t := by
  constructor
  · intro hall
    by_contra hi
    obtain ⟨g, u, hru, hg, hst⟩ := rearms_of_not_idle hi
    exact hst (hall g u hru hg)
  · intro hi g u hru hg
    have hc : Created t := hr.inv (.inr ⟨rfl, rfl, rfl⟩) fun _ _ _ hc hs => created_step hc hs
    exact stopped_of_done (done_stopTimer hc hi) hru hg

/-- The timer is stopped while its first wait is pending. -/
theorem stop_timer_pending : ∃ h t, Run step Timer.init h t ∧ t.pending = 1 ∧
    ∀ g u, Run step t.stopTimer g u → Steps NotStarted g → Stopped g u := by
  have hr : Run step Timer.init _ _ := .snoc (a := .start) .nil rfl
  exact ⟨_, _, hr, rfl, (stop_timer_iff hr).2 ⟨by decide, rfl⟩⟩

/-- The first wait has expired when the timer is stopped: its handler arms the
    timer again, and the callback is called for the second time. -/
theorem expired_handler_rearms : ∃ h t g u, Run step Timer.init h t ∧
    Run step t.stopTimer g u ∧ Steps NotStarted g ∧ callbacks g = 2 ∧ ¬ Stopped g u := by
  have hr : Run step Timer.init _ _ := .snoc (a := .expire) (.snoc (a := .start) .nil rfl) rfl
  have hru : Run step (Timer.stopTimer ⟨true, 0, [true], false⟩) _ _ :=
    .snoc (a := .handle 0) (.snoc (a := .expire) (.snoc (a := .rearm)
      (.snoc (a := .handle 0) .nil rfl) rfl) rfl) rfl
  refine ⟨_, _, _, _, hr, hru, by simp [Steps, NotStarted], rfl, ?_⟩
  intro hst
  exact absurd hst.once (by decide)

end CppExperiment.AsioClient.RepeatTimer
