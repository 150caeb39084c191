/-
  Sections that are run one at a time.

  Threads run a section over shared data in small steps: `exec t l d` is the
  step of the thread `t` at the place `l` of its section, `none` at its end.  In
  the machine `Turns` a thread enters only while no other is inside.

  * `Part`, `Whole`: the data in the middle of a section, and after whole
    sections, one after another.
  * `Turns.whole_of_run`: after every run the data are what the whole sections
    of the threads that have left make of them, in the order in which they left,
    and then a part of the section of the thread that is inside.
-/
import CppExperiment.Lib.Run

namespace CppExperiment

variable {T L D : Type*}

section
variable (exec : T → L → D → Option (L × D)) (first : L)

/-- The places and the data that the section of `t` comes to from the data `d`. -/
inductive Part (t : T) (d : D) : L → D → Prop
  | first : Part t d first d
  | next {l l' : L} {e e' : D} : Part t d l e → exec t l e = some (l', e') → Part t d l' e'

/-- The data that whole sections of the threads `ts` make of `d₀`. -/
inductive Whole (d₀ : D) : List T → D → Prop
  | nil : Whole d₀ [] d₀
  | snoc {ts : List T} {t : T} {l : L} {d e : D} :
      Whole d₀ ts d → Part exec first t d l e → exec t l e = none → Whole d₀ (ts ++ [t]) e

end

/-- The thread inside, with its place in the section, the threads that have left
    (in this order), and the data. -/
structure Turns (T L D : Type*) where
  inside : Option (T × L)
  left : List T
  data : D

namespace Turns

/-- Nobody has been inside. -/
def init (d : D) : Turns T L D := ⟨none, [], d⟩

/-- What happens next. -/
inductive Action (T : Type*)
  | enter (t : T)
  | work
  | leave

variable (exec : T → L → D → Option (L × D)) (first : L)

/-- One step; `none` if it is not possible. -/
def step (s : Turns T L D) : Action T → Option (Turns T L D)
  | .enter t =>
    match s.inside with
    | none => some { s with inside := some (t, first) }
    | some _ => none
  | .work =>
    match s.inside with
    | none => none
    | some (t, l) =>
      (exec t l s.data).map fun (l', d) => { s with inside := some (t, l'), data := d }
  | .leave =>
    match s.inside with
    | none => none
    | some (t, l) =>
      if (exec t l s.data).isNone then some { s with inside := none, left := s.left ++ [t] }
      else none

variable {exec : T → L → D → Option (L × D)} {first : L} {d₀ : D} {s u : Turns T L D}

theorem step_work {t : T} {l l' : L} {d : D} (hi : s.inside = some (t, l))
    (he : exec t l s.data = some (l', d)) :
    step exec first s .work = some { s with inside := some (t, l'), data := d } := by
  simp only [step, hi, he, Option.map_some]

theorem step_leave {t : T} {l : L} (hi : s.inside = some (t, l)) (he : exec t l s.data = none) :
    step exec first s .leave = some { s with inside := none, left := s.left ++ [t] } := by
  simp only [step, hi, he, Option.isNone_none, if_true]

/-- The data are what the sections so far make of `d₀`. -/
def Sections (exec : T → L → D → Option (L × D)) (first : L) (d₀ : D) (s : Turns T L D) : Prop :=
  match s.inside with
  | none => Whole exec first d₀ s.left s.data
  | some (t, l) => ∃ d, Whole exec first d₀ s.left d ∧ Part exec first t d l s.data

theorem step_sections {a : Action T} (hs : Sections exec first d₀ s)
    (h : step exec first s a = some u) : Sections exec first d₀ u := by
  obtain ⟨inside, left, data⟩ := s
  cases a with
  | enter t =>
    cases inside with
    | none =>
      cases h
      exact ⟨data, hs, .first⟩
    | some x => cases h
  | work =>
    rcases inside with - | ⟨t, l⟩
    · cases h
    obtain ⟨d, hw, hp⟩ := hs
    rcases he : exec t l data with - | ⟨l', d'⟩
    · simp [step, he] at h
    rw [step_work rfl he] at h
    cases h
    exact ⟨d, hw, hp.next he⟩
  | leave =>
    rcases inside with - | ⟨t, l⟩
    · cases h
    obtain ⟨d, hw, hp⟩ := hs
    cases he : exec t l data with
    | none =>
      rw [step_leave rfl he] at h
      cases h
      exact hw.snoc hp he
    | some x => simp [step, he] at h

/-- **Sections are atomic.** -/
theorem whole_of_run {h : List (Turns T L D × Action T)}
    (hr : Run (step exec first) (init d₀) h s) : Sections exec first d₀ s := by
  refine hr.inv (I := Sections exec first d₀) ?_ fun _ _ _ hs hst => step_sections hs hst
  exact Whole.nil

end Turns

end CppExperiment
