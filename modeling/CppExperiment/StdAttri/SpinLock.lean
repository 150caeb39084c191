/-
  `SpinLock` and its use (Standard/std_attri/LockFreeTest.h).

  The lock is an `atomic_flag`; `lock` calls `test_and_set` until it returns
  false.  `test_use_spinlock` starts threads that each print a line with the next
  number of `geneartor` while they hold the lock.

  * `Use.one_holder_iff`: in any use of the lock by any threads, it has at most one
    holder and `try_lock` succeeds exactly if it has none, iff every `unlock` is
    one by the holder, or of a lock that is free.
  * `lines_of_run`: whatever the order in which the threads run, the output
    consists of whole lines numbered from 1, a line for each thread that has
    finished, and the start of the line of the thread that holds the lock.
-/
import CppExperiment.Lib.Turns

namespace CppExperiment.StdAttri

/-- `my_lock_free::SpinLock`: the flag `m_lock`. -/
structure SpinLock where
  flag : Bool
  deriving DecidableEq

namespace SpinLock

/-- A lock of static storage: the flag is clear. -/
def init : SpinLock := ⟨false⟩

/-- `m_lock.test_and_set()`: the old value, and the flag is set. -/
def testAndSet (lock : SpinLock) : Bool × SpinLock := (lock.flag, ⟨true⟩)

/-- One round of the loop of `lock()`: whether `lock()` returns. -/
def lockRound (lock : SpinLock) : Bool × SpinLock :=
  let (isSet, lock) := lock.testAndSet
  (!isSet, lock)

/-- `try_lock()` -/
def tryLock (lock : SpinLock) : Bool × SpinLock :=
  let (isSet, lock) := lock.testAndSet
  (!isSet, lock)

/-- `unlock()` -/
def unlock (_ : SpinLock) : SpinLock := ⟨false⟩

end SpinLock

/-! ## Any use of a lock -/

/-- A lock and the threads that hold it: a call of `lock` or `try_lock` has
    succeeded, and the thread has not called `unlock` since. -/
structure Use (T : Type) where
  lock : SpinLock
  holds : T → Bool

namespace Use

variable {T : Type} [DecidableEq T]

def init : Use T := ⟨.init, fun _ => false⟩

/-- A step of a thread. -/
inductive Action (T : Type)
  | lockRound (t : T)
  | tryLock (t : T)
  | unlock (t : T)

/-- A thread has tried to take the lock. -/
def tried (s : Use T) (t : T) (r : Bool × SpinLock) : Use T :=
  ⟨r.2, if r.1 then Function.update s.holds t true else s.holds⟩

/-- One step; every step is possible at any time. -/
def step (s : Use T) : Action T → Option (Use T)
  | .lockRound t => some (s.tried t s.lock.lockRound)
  | .tryLock t => some (s.tried t s.lock.tryLock)
  | .unlock t => some ⟨s.lock.unlock, Function.update s.holds t false⟩

/-- At most one thread holds the lock, and `try_lock` tells whether one does. -/
def OneHolder (s : Use T) : Prop :=
  (∀ t u, s.holds t → s.holds u → t = u) ∧ (s.lock.tryLock.1 ↔ ∀ t, ¬ s.holds t)

/-- A call of `unlock` by the holder, or of a free lock. -/
def Rightful (s : Use T) : Action T → Prop
  | .unlock t => s.holds t ∨ ∀ u, ¬ s.holds u
  | _ => True

variable {s u : Use T}

theorem oneHolder_tried {t : T} (hs : OneHolder s) : OneHolder (s.tried t s.lock.tryLock) := by
  obtain ⟨⟨flag⟩, holds⟩ := s
  obtain ⟨huniq, htry⟩ := hs
  cases flag with
  | true => exact ⟨huniq, htry⟩
  | false =>
    have hfree : ∀ v, ¬ holds v := htry.1 rfl
    constructor
    · intro v w hv hw
      simp only [tried, SpinLock.tryLock, SpinLock.testAndSet, Bool.not_false, if_true,
        Function.update_apply] at hv hw
      split_ifs at hv hw with hvt hwt hwt
      · exact hvt.trans hwt.symm
      · exact absurd hw (hfree w)
      · exact absurd hv (hfree v)
      · exact absurd hv (hfree v)
    · simp only [tried, SpinLock.tryLock, SpinLock.testAndSet, Bool.not_false, if_true,
        Bool.not_true, Bool.false_eq_true, false_iff, not_forall, not_not]
      exact ⟨t, Function.update_self ..⟩

theorem oneHolder_unlock {t : T} (hs : OneHolder s) :
    OneHolder (⟨s.lock.unlock, Function.update s.holds t false⟩ : Use T) ↔
      Rightful s (.unlock t) := by
  have hoff : (∀ v, ¬ Function.update s.holds t false v) ↔ Rightful s (.unlock t) := by
    constructor
    · intro h
      by_cases ht : s.holds t
      · exact .inl ht
      refine .inr fun v hv => h v ?_
      have hvt : v ≠ t := fun hvt => ht (hvt ▸ hv)
      rwa [Function.update_of_ne hvt]
    · intro h v hv
      rw [Function.update_apply] at hv
      split_ifs at hv with hvt
      rcases h with ht | hfree
      · exact hvt (hs.1 v t hv ht)
      · exact hfree v hv
  rw [← hoff]
  constructor
  · intro h
    exact h.2.1 rfl
  · intro h
    exact ⟨fun v _ hv => absurd hv (h v), fun _ => h, fun _ => rfl⟩

/-- **One holder.** -/
theorem one_holder_iff {h : List (Use T × Action T)} (hr : Run step init h s) :
    Always OneHolder h s ↔ Steps Rightful h := by
  have h0 : OneHolder (init : Use T) := by
    refine ⟨fun t _ ht => ?_, fun _ _ ht => ?_, fun _ => rfl⟩
    · cases ht
    · cases ht
  refine RunOf.always_iff (I := fun _ => True) trivial h0 (fun _ _ _ _ _ _ _ => trivial) ?_ hr
  rintro s (t | t | t) _ - hs ⟨⟩
  · exact iff_of_true (oneHolder_tried hs) trivial
  · exact iff_of_true (oneHolder_tried hs) trivial
  · exact oneHolder_unlock hs

/-- A thread that does not hold the lock unlocks it, and a second one takes it. -/
theorem one_holder_two : ∃ h, ∃ s : Use ℕ, Run step init h s ∧ s.holds 0 ∧ s.holds 1 ∧
    (Always OneHolder h s ↔ Steps Rightful h) := by
  have hr : Run step (init : Use ℕ) _ _ := .snoc (a := .lockRound 1) (.snoc (a := .unlock 1)
    (.snoc (a := .tryLock 0) .nil rfl) rfl) rfl
  exact ⟨_, _, hr, by decide, by decide, one_holder_iff hr⟩

end Use

/-! ## `test_use_spinlock` -/

/-- What is inserted into `cout`. -/
inductive Token
  /-- `this_thread::get_id()` -/
  | id (t : ℕ)
  /-- `" index = "` -/
  | label
  | index (n : ℤ)
  | endl
  deriving DecidableEq

/-- Where a thread is in `myFunc`, between its `lock` and its `unlock`. -/
inductive Place
  | id
  | label
  /-- before `++geneartor` reads -/
  | load
  /-- before `++geneartor` writes the successor of what it has read -/
  | store (r : ℤ)
  | index
  | endl
  | unlock
  deriving DecidableEq

/-- `geneartor` and the output. -/
abbrev Data := ℤ × List Token

/-- One step of the thread `t` in the section that is guarded by the lock. -/
def exec (t : ℕ) : Place → Data → Option (Place × Data)
  | .id, (geneartor, out) => some (.label, geneartor, out ++ [.id t])
  | .label, (geneartor, out) => some (.load, geneartor, out ++ [.label])
  | .load, (geneartor, out) => some (.store geneartor, geneartor, out)
  | .store r, (_, out) => some (.index, r + 1, out)
  | .index, (geneartor, out) => some (.endl, geneartor, out ++ [.index geneartor])
  | .endl, (geneartor, out) => some (.unlock, geneartor, out ++ [.endl])
  | .unlock, _ => none

/-- Where a thread is in `myFunc`. -/
inductive Pc
  | lock
  | inside (l : Place)
  | finished
  deriving DecidableEq

/-- The program: the lock, `geneartor` and the output, and the threads that have
    been created so far, numbered by their creation. -/
structure Program where
  lock : SpinLock
  data : Data
  created : ℕ
  pc : ℕ → Option Pc

/-- What happens next. -/
inductive Action
  /-- `thread(myFunc).detach()` -/
  | create
  /-- a step of a thread -/
  | work (t : ℕ)

namespace Program

/-- Before `test_use_spinlock`. -/
def init : Program := ⟨.init, (0, []), 0, fun _ => none⟩

/-- A thread has come to `p`. -/
def setPc (s : Program) (t : ℕ) (p : Pc) : Program :=
  { s with pc := Function.update s.pc t (some p) }

/-- A step of the thread `t` of `myFunc`. -/
def work (s : Program) (t : ℕ) : Option Program :=
  match s.pc t with
  | none => none
  | some .lock =>
    let (returns, lock) := s.lock.lockRound
    some (if returns then { s with lock := lock }.setPc t (.inside .id)
      else { s with lock := lock })
  | some (.inside l) =>
    match exec t l s.data with
    | some (l, data) => some ({ s with data := data }.setPc t (.inside l))
    | none => some ({ s with lock := s.lock.unlock }.setPc t .finished)
  | some .finished => none

/-- One step of `test_use_spinlock` with `n` threads. -/
def step (n : ℕ) (s : Program) : Action → Option Program
  | .create =>
    if s.created < n then
      some ({ s with created := s.created + 1 }.setPc s.created .lock)
    else none
  | .work t => s.work t

variable {n t u : ℕ} {p : Pc} {s v : Program} {a : Turns ℕ Place Data} {l : Place}

@[simp] theorem setPc_lock : (s.setPc t p).lock = s.lock := rfl
@[simp] theorem setPc_data : (s.setPc t p).data = s.data := rfl
@[simp] theorem setPc_created : (s.setPc t p).created = s.created := rfl
@[simp] theorem setPc_pc_self : (s.setPc t p).pc t = some p := Function.update_self ..

theorem setPc_pc_of_ne (h : u ≠ t) : (s.setPc t p).pc u = s.pc u := Function.update_of_ne h _ _

/-! ### The sections take turns -/

/-- The program does what the sections do when they take turns. -/
structure Follows (n : ℕ) (s : Program) (a : Turns ℕ Place Data) : Prop where
  data : a.data = s.data
  flag : s.lock.flag = a.inside.isSome
  inside : ∀ t l, s.pc t = some (.inside l) ↔ a.inside = some (t, l)
  finished : ∀ t, s.pc t = some .finished ↔ t ∈ a.left
  nodup : a.left.Nodup
  created : ∀ t, s.pc t ≠ none → t < s.created
  bound : s.created ≤ n

theorem follows_init : Follows n init (.init (0, [])) where
  data := rfl
  flag := rfl
  inside _ _ := ⟨nofun, nofun⟩
  finished _ := ⟨nofun, nofun⟩
  nodup := .nil
  created _ h := absurd rfl h
  bound := Nat.zero_le n

/-- The thread that has come to a new place had been created. -/
theorem Follows.created_setPc (hs : Follows n s a) (ht : s.pc t ≠ none) :
    ∀ u, (s.setPc t p).pc u ≠ none → u < s.created := by
  intro u hu
  by_cases hut : u = t
  · exact hut ▸ hs.created t ht
  · rw [setPc_pc_of_ne hut] at hu
    exact hs.created u hu

theorem follows_create (hs : Follows n s a) (hn : s.created < n) :
    Follows n ({ s with created := s.created + 1 }.setPc s.created .lock) a := by
  have hnew : s.pc s.created = none := by
    by_contra h
    exact (hs.created _ h).ne rfl
  refine ⟨hs.data, hs.flag, fun t l => ?_, fun t => ?_, hs.nodup, fun t ht => ?_, hn⟩
  · rw [← hs.inside]
    by_cases htc : t = s.created
    · subst htc
      simp [hnew]
    · rw [setPc_pc_of_ne htc]
  · rw [← hs.finished]
    by_cases htc : t = s.created
    · subst htc
      simp [hnew]
    · rw [setPc_pc_of_ne htc]
  · by_cases htc : t = s.created
    · exact htc ▸ Nat.lt_succ_self s.created
    · rw [setPc_pc_of_ne htc] at ht
      exact Nat.lt_succ_of_lt (hs.created t ht)

/-- A thread that comes into its section: the lock was free. -/
theorem follows_enter (hs : Follows n s a) (ht : s.pc t = some .lock)
    (hf : s.lock.flag = false) :
    Follows n ({ s with lock := ⟨true⟩ }.setPc t (.inside .id))
      { a with inside := some (t, .id) } := by
  have hno : a.inside = none := by simpa [hf] using hs.flag
  refine ⟨hs.data, rfl, fun u l => ?_, fun u => ?_, hs.nodup, fun u hu => ?_, hs.bound⟩
  · by_cases hut : u = t
    · subst hut
      simp [eq_comm]
    · rw [setPc_pc_of_ne hut]
      have hi := hs.inside u l
      simp only [hno, reduceCtorEq, iff_false] at hi
      simp [hi, Ne.symm hut]
  · rw [← hs.finished]
    by_cases hut : u = t
    · subst hut
      simp [ht]
    · rw [setPc_pc_of_ne hut]
  · exact hs.created_setPc (by simp [ht]) u hu

theorem follows_exec {l' : Place} {d : Data} (hs : Follows n s a)
    (ht : s.pc t = some (.inside l)) :
    Follows n ({ s with data := d }.setPc t (.inside l'))
      { a with inside := some (t, l'), data := d } := by
  have hin : a.inside = some (t, l) := (hs.inside t l).1 ht
  refine ⟨rfl, by simpa [hin] using hs.flag, fun u l'' => ?_, fun u => ?_, hs.nodup,
    fun u hu => ?_, hs.bound⟩
  · by_cases hut : u = t
    · subst hut
      simp
    · rw [setPc_pc_of_ne hut]
      have hi := hs.inside u l''
      simp only [hin, Option.some.injEq, Prod.mk.injEq, Ne.symm hut, false_and, iff_false] at hi
      simp [hi, Ne.symm hut]
  · rw [← hs.finished]
    by_cases hut : u = t
    · subst hut
      simp [ht]
    · rw [setPc_pc_of_ne hut]
  · exact hs.created_setPc (by simp [ht]) u hu

theorem follows_leave (hs : Follows n s a) (ht : s.pc t = some (.inside l)) :
    Follows n ({ s with lock := s.lock.unlock }.setPc t .finished)
      { a with inside := none, left := a.left ++ [t] } := by
  have hin : a.inside = some (t, l) := (hs.inside t l).1 ht
  have hleft : t ∉ a.left := by
    rw [← hs.finished, ht]
    simp
  refine ⟨hs.data, rfl, fun u l' => ?_, fun u => ?_, ?_, fun u hu => ?_, hs.bound⟩
  · by_cases hut : u = t
    · subst hut
      simp
    · rw [setPc_pc_of_ne hut]
      have hi := hs.inside u l'
      simp only [hin, Option.some.injEq, Prod.mk.injEq, Ne.symm hut, false_and, iff_false] at hi
      simp [hi]
  · rw [List.mem_append, List.mem_singleton, ← hs.finished]
    by_cases hut : u = t
    · subst hut
      simp
    · rw [setPc_pc_of_ne hut]
      simp [hut]
  · exact List.nodup_append.2 ⟨hs.nodup, List.nodup_singleton t, by
      simp only [List.mem_singleton]
      rintro u hu v rfl rfl
      exact hleft hu⟩
  · exact hs.created_setPc (by simp [ht]) u hu

/-- A step of the program leaves the sections as they are, or is one of theirs. -/
theorem follows_step {b : Action} (hs : Follows n s a) (h : step n s b = some v) :
    Follows n v a ∨ ∃ c a', Turns.step exec .id a c = some a' ∧ Follows n v a' := by
  cases b with
  | create =>
    rw [step] at h
    split_ifs at h with hn
    cases h
    exact .inl (follows_create hs hn)
  | work t =>
    rw [step, work] at h
    split at h
    · cases h
    · next ht =>
      simp only [SpinLock.lockRound, SpinLock.testAndSet] at h
      cases hf : s.lock.flag with
      | true =>
        -- the thread goes on waiting
        simp only [hf, Bool.not_true, Bool.false_eq_true, if_false, Option.some.injEq] at h
        have hv : v = s := by rw [← h, ← hf]
        exact .inl (hv ▸ hs)
      | false =>
        simp only [hf, Bool.not_false, if_true, Option.some.injEq] at h
        have hno : a.inside = none := by simpa [hf] using hs.flag
        refine .inr ⟨.enter t, _, ?_, h ▸ follows_enter hs ht hf⟩
        simp only [Turns.step, hno]
    · next l ht =>
      have hin : a.inside = some (t, l) := (hs.inside t l).1 ht
      split at h
      · next l' d he =>
        cases h
        exact .inr ⟨.work, _, Turns.step_work hin (hs.data ▸ he), follows_exec hs ht⟩
      · next he =>
        cases h
        exact .inr ⟨.leave, _, Turns.step_leave hin (hs.data ▸ he), follows_leave hs ht⟩
    · cases h

end Program

/-! ### What the sections print -/

/-- What the thread `t` prints with the number `k`. -/
def line (t : ℕ) (k : ℤ) : List Token := [.id t, .label, .index k, .endl]

/-- The lines of the threads `ts`, numbered from 1. -/
def lines (ts : List ℕ) : List Token :=
  (ts.zipIdx 1).flatMap fun x => line x.1 x.2

/-- The number of tokens that a thread has printed at a place. -/
def Place.printed : Place → ℕ
  | .id => 0
  | .label => 1
  | .load | .store _ | .index => 2
  | .endl => 3
  | .unlock => 4

/-- Whether `geneartor` has been incremented. -/
def Place.counted : Place → Bool
  | .id | .label | .load | .store _ => false
  | .index | .endl | .unlock => true

theorem lines_append_singleton (ts : List ℕ) (t : ℕ) :
    lines (ts ++ [t]) = lines ts ++ line t (ts.length + 1) := by
  simp [lines, List.zipIdx_append, add_comm]

variable {t : ℕ} {ts : List ℕ} {l : Place} {d e : Data}

/-- A part of a section: the start of its line, and what it has read is what it
    found. -/
theorem part_eq (h : Part exec .id t d l e) :
    e = (if l.counted then d.1 + 1 else d.1, d.2 ++ (line t (d.1 + 1)).take l.printed) ∧
      ∀ r, l = .store r → r = d.1 := by
  induction h with
  | first => simp [Place.counted, Place.printed]
  | @next l l' e e' _ hst ih =>
    obtain ⟨he, hr⟩ := ih
    subst he
    cases l <;> simp only [exec, Option.some.injEq, Prod.mk.injEq, reduceCtorEq] at hst
    all_goals
      obtain ⟨rfl, rfl⟩ := hst
      simp_all [Place.counted, Place.printed, line]

/-- Whole sections print whole lines. -/
theorem whole_eq (h : Whole exec .id (0, []) ts d) : d = ((ts.length : ℤ), lines ts) := by
  induction h with
  | nil => rfl
  | @snoc ts t l d e _ hp hend ih =>
    cases l <;> simp only [exec, reduceCtorEq] at hend
    obtain ⟨rfl, -⟩ := part_eq hp
    subst ih
    rw [lines_append_singleton]
    simp [Place.counted, Place.printed, line]

/-- No more threads are inside or finished than have been created. -/
theorem Program.Follows.length_le {n : ℕ} {s : Program} {a : Turns ℕ Place Data}
    (hs : s.Follows n a) : (a.inside.map Prod.fst).toList.length + a.left.length ≤ n := by
  have hnodup : ((a.inside.map Prod.fst).toList ++ a.left).Nodup := by
    refine List.nodup_append.2 ⟨?_, hs.nodup, ?_⟩
    · cases a.inside <;> simp
    · intro t ht u hu htu
      rw [Option.mem_toList, Option.map_eq_some_iff] at ht
      obtain ⟨⟨t', l⟩, hin, rfl⟩ := ht
      have h1 := (hs.inside t' l).2 hin
      have h2 := (hs.finished u).2 hu
      rw [← htu, h1] at h2
      cases h2
  have hsub : (a.inside.map Prod.fst).toList ++ a.left ⊆ List.range s.created := by
    intro t ht
    rw [List.mem_range]
    apply hs.created
    rcases List.mem_append.1 ht with ht | ht
    · rw [Option.mem_toList, Option.map_eq_some_iff] at ht
      obtain ⟨⟨t', l⟩, hin, rfl⟩ := ht
      simp [(hs.inside t' l).2 hin]
    · simp [(hs.finished t).2 ht]
  have hle := (hnodup.subperm hsub).length_le
  rw [List.length_append, List.length_range] at hle
  exact hle.trans hs.bound

/-- **The output.**  In every run of `test_use_spinlock` with `n` threads there
    are whole lines, numbered from 1, of exactly the threads that have finished;
    either nobody holds the lock, or one thread does, and it has printed the
    start of the next line. -/
theorem lines_of_run {n : ℕ} {h : List (Program × Action)} {s : Program}
    (hr : Run (Program.step n) .init h s) :
    ∃ ts : List ℕ, ts.Nodup ∧ (∀ t, s.pc t = some .finished ↔ t ∈ ts) ∧ s.data.1 ≤ n ∧
      ((s.lock.flag = false ∧ (∀ t l, s.pc t ≠ some (.inside l)) ∧
          s.data = ((ts.length : ℤ), lines ts)) ∨
        ∃ t l, s.lock.flag = true ∧ (∀ u l', s.pc u = some (.inside l') ↔ u = t ∧ l' = l) ∧
          s.data.2 = lines ts ++ (line t (ts.length + 1)).take l.printed) := by
  obtain ⟨h', a, hr', hs⟩ := RunOf.simulates Program.follows_init
    (fun _ _ _ _ hs hst => Program.follows_step hs hst) hr
  have hsec := Turns.whole_of_run hr'
  have hlen := hs.length_le
  refine ⟨a.left, hs.nodup, hs.finished, ?_⟩
  rw [Turns.Sections] at hsec
  split at hsec
  · next hin =>
    have hd : s.data = ((a.left.length : ℤ), lines a.left) := hs.data ▸ whole_eq hsec
    refine ⟨?_, .inl ⟨by simp [hs.flag, hin], fun t l ht => ?_, hd⟩⟩
    · simp only [hin, Option.map_none, Option.toList_none, List.length_nil] at hlen
      rw [hd]
      dsimp only
      omega
    · have := (hs.inside t l).1 ht
      simp [hin] at this
  · next t l hin =>
    obtain ⟨d, hw, hp⟩ := hsec
    obtain ⟨hd, -⟩ := part_eq hp
    obtain rfl := whole_eq hw
    rw [hs.data] at hd
    refine ⟨?_, .inr ⟨t, l, by simp [hs.flag, hin], fun u l' => ?_, by rw [hd]⟩⟩
    · simp only [hin, Option.map_some, Option.toList_some, List.length_singleton] at hlen
      rw [hd]
      dsimp only
      split_ifs <;> omega
    · rw [hs.inside, hin, Option.some.injEq, Prod.mk.injEq, eq_comm, @eq_comm _ l]

/-- The second thread waits until the first one has printed its line. -/
theorem lines_of_run_two : ∃ h s, Run (Program.step 2) .init h s ∧ s.data.2 = line 0 1 ++ [.id 1] ∧
    ∃ ts : List ℕ, ts.Nodup ∧ (∀ t, s.pc t = some .finished ↔ t ∈ ts) ∧ s.data.1 ≤ (2 : ℕ) ∧
      ((s.lock.flag = false ∧ (∀ t l, s.pc t ≠ some (.inside l)) ∧
          s.data = ((ts.length : ℤ), lines ts)) ∨
        ∃ t l, s.lock.flag = true ∧ (∀ u l', s.pc u = some (.inside l') ↔ u = t ∧ l' = l) ∧
          s.data.2 = lines ts ++ (line t (ts.length + 1)).take l.printed) := by
  have hr : Run (Program.step 2) .init _ _ := .snoc (a := .work 1) (.snoc (a := .work 1)
    (.snoc (a := .work 0) (.snoc (a := .work 0) (.snoc (a := .work 0) (.snoc (a := .work 0)
    (.snoc (a := .work 0) (.snoc (a := .work 1) (.snoc (a := .work 0) (.snoc (a := .work 0)
    (.snoc (a := .work 0) (.snoc (a := .create) (.snoc (a := .create) .nil
    rfl) rfl) rfl) rfl) rfl) rfl) rfl) rfl) rfl) rfl) rfl) rfl) rfl
  exact ⟨_, _, hr, rfl, lines_of_run hr⟩

end CppExperiment.StdAttri
