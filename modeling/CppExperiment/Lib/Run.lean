/-
  Runs of a state machine.

  A machine is a step relation.  Often it is a partial function `step`, where
  `step s a = none` says that the action `a` is not possible in the state `s`,
  and the actions carry whatever the environment decides, so that a run is
  fixed by its actions.

  * `RunOf R s₀ h s`: `h` is the history of a run from `s₀` to `s`, its steps
    with the state before each, the latest first.  `Run step s₀ h s` is a run
    of a partial function.
  * `RunOf.inv`, `RunOf.inv_of_steps`: invariants of runs, also of runs whose
    steps all meet a condition; `RunOf.always`, `RunOf.steps`, `RunOf.steps_iff`
    are what holds in every state and of every step.
  * `RunOf.inv_hist`, `RunOf.always_of_hist`: invariants that speak about the
    history of the run.
  * `RunOf.simulates`: a run of a machine is a run of another one that can do
    each of its steps.
  * `RunOf.always_iff`: a property holds in every state of a run iff every step
    of the run meets a condition, for a condition that is exact at each step.
-/
import Mathlib

namespace CppExperiment

variable {S A : Type*}

/-- A run from `s₀`: its steps (latest first) and the state it reaches. -/
inductive RunOf (R : S → A → S → Prop) (s₀ : S) : List (S × A) → S → Prop
  | nil : RunOf R s₀ [] s₀
  | snoc {h : List (S × A)} {s : S} {a : A} {t : S} :
      RunOf R s₀ h s → R s a t → RunOf R s₀ ((s, a) :: h) t

/-- A run of a partial function. -/
abbrev Run (step : S → A → Option S) : S → List (S × A) → S → Prop :=
  RunOf fun s a t => step s a = some t

/-- Every step of the history meets the condition `G`. -/
def Steps (G : S → A → Prop) (h : List (S × A)) : Prop := ∀ x ∈ h, G x.1 x.2

/-- `P` holds in every state of the run with history `h` that ends in `s`. -/
def Always (P : S → Prop) (h : List (S × A)) (s : S) : Prop := (∀ x ∈ h, P x.1) ∧ P s

theorem steps_cons {G : S → A → Prop} {s : S} {a : A} {h : List (S × A)} :
    Steps G ((s, a) :: h) ↔ G s a ∧ Steps G h := by
  simp [Steps]

theorem steps_and {P G : S → A → Prop} {h : List (S × A)} :
    Steps (fun s a => P s a ∧ G s a) h ↔ Steps P h ∧ Steps G h := forall₂_and

theorem always_cons {P : S → Prop} {s t : S} {a : A} {h : List (S × A)} :
    Always P ((s, a) :: h) t ↔ Always P h s ∧ P t := by
  simp only [Always, List.forall_mem_cons]; tauto

variable {R : S → A → S → Prop} {s₀ : S}

/-- What holds in every state of a run holds in the first one. -/
theorem RunOf.first {P : S → Prop} {h : List (S × A)} {s : S} (hr : RunOf R s₀ h s)
    (hP : Always P h s) : P s₀ := by
  induction hr with
  | nil => exact hP.2
  | snoc _ _ ih => exact ih (always_cons.1 hP).1

/-- A run whose steps all meet `G` is a run of the steps that do. -/
theorem RunOf.restrict {G : S → A → Prop} {h : List (S × A)} {s : S} (hr : RunOf R s₀ h s)
    (hG : Steps G h) : RunOf (fun s a t => G s a ∧ R s a t) s₀ h s := by
  induction hr with
  | nil => exact .nil
  | snoc _ hst ih =>
    obtain ⟨hg, hG⟩ := steps_cons.1 hG
    exact .snoc (ih hG) ⟨hg, hst⟩

/-- An invariant of the steps that meet `G` holds after every run of such
    steps. -/
theorem RunOf.inv_of_steps {G : S → A → Prop} {I : S → Prop} (h0 : I s₀)
    (hs : ∀ s a t, I s → G s a → R s a t → I t) {h : List (S × A)} {s : S}
    (hr : RunOf R s₀ h s) (hG : Steps G h) : I s := by
  induction hr with
  | nil => exact h0
  | snoc _ hst ih =>
    obtain ⟨hg, hG⟩ := steps_cons.1 hG
    exact hs _ _ _ (ih hG) hg hst

/-- An invariant of the steps holds after every run. -/
theorem RunOf.inv {I : S → Prop} (h0 : I s₀) (hs : ∀ s a t, I s → R s a t → I t)
    {h : List (S × A)} {s : S} (hr : RunOf R s₀ h s) : I s :=
  hr.inv_of_steps (G := fun _ _ => True) h0 (fun s a t hi _ => hs s a t hi) (fun _ _ => trivial)

/-- What holds of every step from a state with the invariant holds of every
    step of a run. -/
theorem RunOf.steps {I : S → Prop} {P : S → A → Prop} (h0 : I s₀)
    (hs : ∀ s a t, I s → R s a t → I t) (hP : ∀ s a t, I s → R s a t → P s a)
    {h : List (S × A)} {s : S} (hr : RunOf R s₀ h s) : Steps P h := by
  induction hr with
  | nil => intro x hx; cases hx
  | @snoc h s a t hr hst ih => exact steps_cons.2 ⟨hP s a t (hr.inv h0 hs) hst, ih⟩

/-- An invariant of the steps holds in every state of a run. -/
theorem RunOf.always {I : S → Prop} (h0 : I s₀) (hs : ∀ s a t, I s → R s a t → I t)
    {h : List (S × A)} {s : S} (hr : RunOf R s₀ h s) : Always I h s :=
  ⟨hr.steps (P := fun s _ => I s) h0 hs fun _ _ _ hi _ => hi, hr.inv h0 hs⟩

/-- Two conditions that are the same for each step from a state with the
    invariant. -/
theorem RunOf.steps_iff {I : S → Prop} {P G : S → A → Prop} (h0 : I s₀)
    (hs : ∀ s a t, I s → R s a t → I t) (hP : ∀ s a t, I s → R s a t → (P s a ↔ G s a))
    {h : List (S × A)} {s : S} (hr : RunOf R s₀ h s) : Steps P h ↔ Steps G h :=
  forall₂_congr (hr.steps (P := fun s a => P s a ↔ G s a) h0 hs hP)

/-- An invariant that speaks about the history, along steps that meet `G`. -/
theorem RunOf.inv_hist {G : S → A → Prop} {I : List (S × A) → S → Prop} (h0 : I [] s₀)
    (hs : ∀ h s a t, I h s → G s a → R s a t → I ((s, a) :: h) t)
    {h : List (S × A)} {s : S} (hr : RunOf R s₀ h s) (hG : Steps G h) : I h s := by
  induction hr with
  | nil => exact h0
  | snoc _ hst ih =>
    obtain ⟨hg, hG⟩ := steps_cons.1 hG
    exact hs _ _ _ _ (ih hG) hg hst

/-- An invariant that speaks about the history, in runs whose history meets a
    condition throughout; what the invariant implies holds in every state. -/
theorem RunOf.always_of_hist {G : List (S × A) → Prop} {I : List (S × A) → S → Prop} {P : S → Prop}
    (h0 : I [] s₀) (hG : ∀ x h, G (x :: h) → G h)
    (hs : ∀ h s a t, I h s → G ((s, a) :: h) → R s a t → I ((s, a) :: h) t)
    (hP : ∀ h s, I h s → P s) {h : List (S × A)} {s : S} (hr : RunOf R s₀ h s) (hg : G h) :
    I h s ∧ Always P h s := by
  induction hr with
  | nil => exact ⟨h0, nofun, hP _ _ h0⟩
  | snoc _ hst ih =>
    obtain ⟨hi, hal⟩ := ih (hG _ _ hg)
    have hi' := hs _ _ _ _ hi hg hst
    exact ⟨hi', always_cons.2 ⟨hal, hP _ _ hi'⟩⟩

/-- **Simulation.**  If `B` relates the first states, and each step is one of
    another machine from the related state, or leaves the states related, then
    every run is a run of the other machine. -/
theorem RunOf.simulates {S' A' : Type*} {R' : S' → A' → S' → Prop} {s₀' : S'} {B : S → S' → Prop}
    (h0 : B s₀ s₀')
    (hs : ∀ s a t s', B s s' → R s a t → B t s' ∨ ∃ a' t', R' s' a' t' ∧ B t t')
    {h : List (S × A)} {s : S} (hr : RunOf R s₀ h s) : ∃ h' s', RunOf R' s₀' h' s' ∧ B s s' := by
  induction hr with
  | nil => exact ⟨[], s₀', .nil, h0⟩
  | snoc _ hst ih =>
    obtain ⟨h', s', hr', hb⟩ := ih
    rcases hs _ _ _ _ hb hst with ht | ⟨a', t', hst', ht⟩
    · exact ⟨h', s', hr', ht⟩
    · exact ⟨_, t', .snoc hr' hst', ht⟩

/-- **Exact conditions.**  If, from states where the invariant `I` and `P`
    hold, a step keeps `P` exactly when it meets `G` (and then keeps `I`), then
    `P` holds throughout a run exactly when all its steps meet `G`. -/
theorem RunOf.always_iff {G : S → A → Prop} {I P : S → Prop} (h0 : I s₀) (hP0 : P s₀)
    (hI : ∀ s a t, I s → P s → G s a → R s a t → I t)
    (hP : ∀ s a t, I s → P s → R s a t → (P t ↔ G s a))
    {h : List (S × A)} {s : S} (hr : RunOf R s₀ h s) : Always P h s ↔ Steps G h := by
  have key : (Always P h s ↔ Steps G h) ∧ (Steps G h → I s) := by
    induction hr with
    | nil => exact ⟨⟨fun _ _ hx => by simp at hx, fun _ => ⟨by simp, hP0⟩⟩, fun _ => h0⟩
    | @snoc h s a t _ hst ih =>
      obtain ⟨ih, ihI⟩ := ih
      constructor
      · rw [always_cons, steps_cons]
        constructor
        · rintro ⟨hal, ht⟩
          have hG := ih.1 hal
          exact ⟨(hP s a t (ihI hG) hal.2 hst).1 ht, hG⟩
        · rintro ⟨hg, hG⟩
          have hal := ih.2 hG
          exact ⟨hal, (hP s a t (ihI hG) hal.2 hst).2 hg⟩
      · intro hG
        obtain ⟨hg, hG⟩ := steps_cons.1 hG
        exact hI s a t (ihI hG) (ih.2 hG).2 hg hst
  exact key.1

end CppExperiment
