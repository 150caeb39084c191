/-
  Runs of operations on `pobo::Date` objects.

  Some operations copy the cached day number, some compute it from the fields,
  and the arithmetic operators compute the fields from it.

  `coherent_of_run`: as long as no day number below 0 is turned into a date,
  the cached number of every object is that of its fields, and the operators
  produce valid dates, whatever the objects have been constructed from.
-/
import CppExperiment.Lib.Run
import CppExperiment.Pobo.Date

namespace CppExperiment.Pobo.Runs

variable {O : Type} [DecidableEq O]

/-- The live objects. -/
abbrev Objects (O : Type) := O → Option Date

/-- The operations.  A constructor or a binary operator makes the object `o`. -/
inductive Op (O : Type)
  /-- `Date(int, int, int)`; the other constructors find the three numbers in
      a text, or in the time of day -/
  | init (o : O) (year month day : ℤ)
  | copy (o date : O)
  | assign (o date : O)
  | add (o date : O) (days : ℤ)
  | sub (o date : O) (days : ℤ)
  | addAssign (o : O) (days : ℤ)
  | subAssign (o : O) (days : ℤ)
  | destroy (o : O)

/-- The object that an arithmetic operator produces. -/
def Op.produces : Op O → Option O
  | .add o _ _ | .sub o _ _ | .addAssign o _ | .subAssign o _ => some o
  | _ => none

/-- One operation; `none` if it is about objects that do not exist, or if the
    day number for `from_days` is negative. -/
def step (s : Objects O) : Op O → Option (Objects O)
  | .init o year month day =>
    if s o = none then some (Function.update s o (some (Date.init year month day))) else none
  | .copy o date => do
    let d ← s date
    if s o = none then some (Function.update s o (some d.copy)) else none
  | .assign o date => do
    let d ← s date
    let e ← s o
    some (Function.update s o (some (e.assign d)))
  | .add o date days => do
    let d ← s date
    if s o = none ∧ 0 ≤ d.days + days then some (Function.update s o (some (d.add days))) else none
  | .sub o date days => do
    let d ← s date
    if s o = none ∧ 0 ≤ d.days - days then some (Function.update s o (some (d.sub days))) else none
  | .addAssign o days => do
    let d ← s o
    if 0 ≤ d.days + days then some (Function.update s o (some (d.addAssign days))) else none
  | .subAssign o days => do
    let d ← s o
    if 0 ≤ d.days - days then some (Function.update s o (some (d.subAssign days))) else none
  | .destroy o => if s o ≠ none then some (Function.update s o none) else none

/-- The cached number of every object is that of its fields. -/
def Coherent (s : Objects O) : Prop := ∀ o d, s o = some d → d.days = d.toDays

/-- The object that an operator produces is a valid date. -/
def ProducesValid (s : Objects O) (a : Op O) : Prop :=
  ∀ o t, a.produces = some o → step s a = some t → ∃ d, t o = some d ∧ ∃ c : CivilDay, d.Shows c

variable {s t : Objects O} {a : Op O}

/-- **`from_days`** makes valid dates, with the number of their fields. -/
theorem fromDays_coherent (d : Date) {n : ℤ} (hn : 0 ≤ n) :
    (d.fromDays n).days = (d.fromDays n).toDays ∧ ∃ c : CivilDay, (d.fromDays n).Shows c := by
  obtain ⟨c, hc, rfl⟩ := exists_toDays hn
  rw [fromDays_toDays hc]
  exact ⟨rfl, c, rfl, rfl, rfl⟩

/-- What an operation does to the objects: one is constructed from numbers, is
    a copy of another one, comes from `from_days`, or goes. -/
theorem step_cases (hs : step s a = some t) :
    (∃ o year month day, t = Function.update s o (some (Date.init year month day)) ∧
        a.produces = none) ∨
      (∃ o date d, s date = some d ∧ t = Function.update s o (some d) ∧ a.produces = none) ∨
      (∃ o d n, 0 ≤ n ∧ t = Function.update s o (some (Date.fromDays d n)) ∧
        a.produces = some o) ∨
      ∃ o, t = Function.update s o none ∧ a.produces = none := by
  cases a with
  | init o year month day =>
    obtain ⟨-, ht⟩ := Option.ite_none_right_eq_some.1 hs
    exact .inl ⟨o, year, month, day, (Option.some.inj ht).symm, rfl⟩
  | copy o date =>
    obtain ⟨d, hd, hs⟩ := Option.bind_eq_some_iff.1 hs
    obtain ⟨-, ht⟩ := Option.ite_none_right_eq_some.1 hs
    exact .inr (.inl ⟨o, date, d, hd, (Option.some.inj ht).symm, rfl⟩)
  | assign o date =>
    obtain ⟨d, -, hs⟩ := Option.bind_eq_some_iff.1 hs
    obtain ⟨e, -, ht⟩ := Option.bind_eq_some_iff.1 hs
    exact .inl ⟨o, d.year, d.month, d.day, (Option.some.inj ht).symm, rfl⟩
  | add o date days =>
    obtain ⟨d, -, hs⟩ := Option.bind_eq_some_iff.1 hs
    obtain ⟨⟨-, hn⟩, ht⟩ := Option.ite_none_right_eq_some.1 hs
    exact .inr (.inr (.inl ⟨o, d.copy, _, hn, (Option.some.inj ht).symm, rfl⟩))
  | sub o date days =>
    obtain ⟨d, -, hs⟩ := Option.bind_eq_some_iff.1 hs
    obtain ⟨⟨-, hn⟩, ht⟩ := Option.ite_none_right_eq_some.1 hs
    exact .inr (.inr (.inl ⟨o, d.copy, _, hn, (Option.some.inj ht).symm, rfl⟩))
  | addAssign o days =>
    obtain ⟨d, -, hs⟩ := Option.bind_eq_some_iff.1 hs
    obtain ⟨hn, ht⟩ := Option.ite_none_right_eq_some.1 hs
    exact .inr (.inr (.inl ⟨o, d, _, hn, (Option.some.inj ht).symm, rfl⟩))
  | subAssign o days =>
    obtain ⟨d, -, hs⟩ := Option.bind_eq_some_iff.1 hs
    obtain ⟨hn, ht⟩ := Option.ite_none_right_eq_some.1 hs
    exact .inr (.inr (.inl ⟨o, d, _, hn, (Option.some.inj ht).symm, rfl⟩))
  | destroy o =>
    obtain ⟨-, ht⟩ := Option.ite_none_right_eq_some.1 hs
    exact .inr (.inr (.inr ⟨o, (Option.some.inj ht).symm, rfl⟩))

/-- An object changes to a coherent one, or goes. -/
theorem Coherent.update (h : Coherent s) (o : O) {x : Option Date}
    (hx : ∀ d, x = some d → d.days = d.toDays) : Coherent (Function.update s o x) :=
  (Function.forall_update_iff s fun _ y => ∀ d, y = some d → d.days = d.toDays).2
    ⟨hx, fun o' _ => h o'⟩

/-- **One operation** keeps the two representations together. -/
theorem Coherent.step (h : Coherent s) (hs : step s a = some t) : Coherent t := by
  rcases step_cases hs with ⟨o, year, month, day, rfl, -⟩ | ⟨o, date, d, hd, rfl, -⟩ |
    ⟨o, d, n, hn, rfl, -⟩ | ⟨o, rfl, -⟩
  · refine h.update o ?_
    rintro _ ⟨⟩
    rfl
  · refine h.update o ?_
    rintro _ ⟨⟩
    exact h date d hd
  · refine h.update o ?_
    rintro _ ⟨⟩
    exact (fromDays_coherent d hn).1
  · exact h.update o nofun

/-- The operators produce valid dates. -/
theorem producesValid (s : Objects O) (a : Op O) : ProducesValid s a := by
  intro o t ho hs
  rcases step_cases hs with ⟨o', year, month, day, rfl, hn⟩ | ⟨o', date, d, hd, rfl, hn⟩ |
    ⟨o', d, n, h0, rfl, hn⟩ | ⟨o', rfl, hn⟩
  · rw [ho] at hn; cases hn
  · rw [ho] at hn; cases hn
  · obtain rfl := Option.some.inj (ho.symm.trans hn)
    exact ⟨d.fromDays n, Function.update_self .., (fromDays_coherent d h0).2⟩
  · rw [ho] at hn; cases hn

/-- **Dates throughout a run.**  In every state of every run of constructions,
    assignments and arithmetic in which `from_days` gets no negative number,
    the cached day number of each object is `to_days` of its fields, and every
    object that an arithmetic operator has just produced is a valid date. -/
theorem coherent_of_run {h : List (Objects O × Op O)} (hr : Run step (fun _ => none) h s) :
    Always Coherent h s ∧ Steps ProducesValid h := by
  have h0 : Coherent (fun _ => none : Objects O) := nofun
  exact ⟨hr.always h0 fun _ _ _ hi hs => hi.step hs, fun x _ => producesValid x.1 x.2⟩

/-- `Date a(2023, 14, 31), b = a + 1; b -= 60;` -/
theorem coherent_of_run_unnormalised : ∃ (h : List (Objects ℕ × Op ℕ)) (s : Objects ℕ),
    Run step (fun _ => none) h s ∧ s 2 = some ⟨2023, 1, 3, 738828⟩ ∧ Always Coherent h s := by
  have hr : Run step (fun _ => none : Objects ℕ) _ _ :=
    ((RunOf.nil.snoc (a := .init 1 2023 14 31) rfl).snoc (a := .add 2 1 1) rfl).snoc
      (a := .subAssign 2 60) rfl
  exact ⟨_, _, hr, by decide, (coherent_of_run hr).1⟩

end CppExperiment.Pobo.Runs
