/-
  `use_weak_ptr::Res` (Standard/std_stl/TestMemory.hpp).

  A `Res` owns a vector through `spr`, until `Release`, and watches it through
  `wptr`; `GetRes` makes further owners.

  `res_of_run`: in every run, `Assign` writes into the vector and `GetRes` returns
  it exactly as long as the `Res` has not been released or somebody still holds
  what `GetRes` has returned; after that, never again.
-/
import CppExperiment.Lib.Run
import CppExperiment.Lib.SharedPtr

namespace CppExperiment.StdStl

/-- A `Res`: the owners of its vector are `spr` (which is `none`) and the results
    of `GetRes`, which are variables of the type `V`. -/
structure Res (V : Type) where
  shared : Shared (Option V)
  /-- the block that `wptr` watches -/
  wptr : ℕ
  /-- the vector -/
  content : List ℤ

namespace Res

variable {V : Type} [DecidableEq V]

/-- The constructor. -/
def init : Res V where
  shared := Shared.init.create.adopt 0 none
  wptr := 0
  content := []

/-- `wptr.expired()` -/
def Expired (s : Res V) : Prop := s.shared.useCount s.wptr = 0

instance (s : Res V) : Decidable s.Expired := inferInstanceAs (Decidable (_ = _))

/-- `v = GetRes()`: `wptr.lock()`, which is null if the pointer has expired. -/
def getRes (s : Res V) (v : V) : Res V :=
  if s.Expired then s else { s with shared := s.shared.share s.wptr (some v) }

/-- `Assign(a)` -/
def assign (s : Res V) (a : ℤ) : Res V :=
  if s.Expired then s
  else { s with shared := s.shared.use (s.shared.object s.wptr), content := s.content ++ [a] }

/-- `Release()`: `spr = nullptr` -/
def release (s : Res V) : Res V := { s with shared := s.shared.drop none }

/-- What is done with the `Res`. -/
inductive Action (V : Type)
  | getRes (v : V)
  | assign (a : ℤ)
  | release
  /-- the end of the life of a result of `GetRes` -/
  | drop (v : V)

/-- One step; a variable is given a value while it is empty. -/
def step (s : Res V) : Action V → Option (Res V)
  | .getRes v => if s.shared.owner (some v) = none then some (s.getRes v) else none
  | .assign a => some (s.assign a)
  | .release => some s.release
  | .drop v => some { s with shared := s.shared.drop (some v) }

/-- `Release` has been called. -/
def Released (h : List (Res V × Action V)) : Prop := ∃ x ∈ h, x.2 = .release

/-- The numbers that have been assigned while the pointer had not expired. -/
def assigned (h : List (Res V × Action V)) : List ℤ :=
  h.reverse.filterMap fun x => match x.2 with
    | .assign a => if x.1.Expired then none else some a
    | _ => none

variable [Fintype V] {s t : Res V} {h : List (Res V × Action V)} {a : Action V}

/-- The vector has one block, with its owners. -/
structure Watched (s : Res V) : Prop where
  claimed : s.shared.Claimed fun o => if o = 0 then 1 else 0
  fault : s.shared.fault = false
  blocks : s.shared.blocks = 1
  object : s.shared.object 0 = 0
  wptr : s.wptr = 0

omit [DecidableEq V] in
/-- An owner is one of the block that is watched. -/
theorem Watched.owner_eq (hs : Watched s) {p : Option V} (hp : s.shared.owner p ≠ none) :
    s.shared.owner p = some s.wptr := by
  obtain ⟨b, hb⟩ := Option.ne_none_iff_exists'.1 hp
  have hlt := hs.claimed.lt p b hb
  rw [hs.blocks, Nat.lt_one_iff] at hlt
  rw [hb, hlt, hs.wptr]

omit [DecidableEq V] in
/-- The pointer has expired exactly if there is no owner. -/
theorem Watched.expired_iff (hs : Watched s) : s.Expired ↔ ∀ p, s.shared.owner p = none := by
  rw [Expired, hs.claimed.count, ownerCount, Finset.card_eq_zero, Finset.filter_eq_empty_iff]
  constructor
  · intro h p
    by_contra hp
    exact h (Finset.mem_univ p) (hs.owner_eq hp)
  · intro h p _ hp
    rw [h p] at hp
    cases hp

theorem watched_init : Watched (init : Res V) := by
  have h0 : (Shared.init.create : Shared (Option V)).Claimed fun _ => 0 := by
    refine ⟨⟨fun b => ?_, fun v b hv => by cases hv⟩, fun o => ?_⟩
    · simp [Shared.init, Shared.create, ownerCount]
    · simp [Shared.init, Shared.create, Shared.live]
  refine ⟨?_, rfl, rfl, by simp [init, Shared.init, Shared.create, Shared.adopt], rfl⟩
  have hc := Shared.claimed_adopt (o := 0) (q := none) h0 rfl
  have hn : Shared.claim (fun _ => 0) 0 = fun o => if o = 0 then 1 else 0 := by
    funext o
    rw [Shared.claim, Function.update_apply]
  rwa [hn] at hc

omit [DecidableEq V] in
/-- The vector of an owner has not been deleted. -/
theorem Watched.alive (hs : Watched s) {p : Option V} (hp : s.shared.owner p = some s.wptr) :
    s.shared.dead (s.shared.object s.wptr) = false := by
  have hle := hs.claimed.le_claims hp
  cases hd : s.shared.dead (s.shared.object s.wptr) with
  | false => rfl
  | true =>
    rw [hd, hs.wptr, hs.object] at hle
    exact absurd hle (by decide)

theorem watched_drop (hs : Watched s) (p : Option V) :
    Watched { s with shared := s.shared.drop p } := by
  cases hp : s.shared.owner p with
  | none =>
    have hd : s.shared.drop p = s.shared := by rw [Shared.drop, hp]
    rw [hd]
    exact hs
  | some b =>
    obtain ⟨-, hblocks, hobject⟩ := Shared.drop_frame (s := s.shared) (p := p)
    rcases Shared.claimed_drop hs.claimed hp with ⟨hc, hf⟩ | ⟨hd, -⟩
    · exact ⟨hc, hf.trans hs.fault, hblocks.trans hs.blocks, by rw [hobject, hs.object], hs.wptr⟩
    · have hb := hs.owner_eq (p := p) (by simp [hp])
      rw [hp, Option.some.injEq] at hb
      rw [hb, hs.alive (by rw [hp, hb])] at hd
      cases hd

omit [DecidableEq V] in
/-- While the pointer has not expired, the vector can be used. -/
theorem Watched.use (hs : Watched s) (he : ¬ s.Expired) :
    s.shared.use (s.shared.object s.wptr) = s.shared := by
  rw [hs.expired_iff, not_forall] at he
  obtain ⟨p, hp⟩ := he
  rw [Shared.use, hs.alive (hs.owner_eq hp), if_neg Bool.false_ne_true]

theorem watched_getRes (hs : Watched s) {v : V} (hv : s.shared.owner (some v) = none) :
    Watched (s.getRes v) := by
  rw [getRes]
  split_ifs with he
  · exact hs
  · rw [hs.expired_iff, not_forall] at he
    obtain ⟨p, hp⟩ := he
    exact ⟨Shared.claimed_share hs.claimed (hs.owner_eq hp) hv, hs.fault, hs.blocks, hs.object,
      hs.wptr⟩

omit [DecidableEq V] in
theorem watched_assign (hs : Watched s) (a : ℤ) : Watched (s.assign a) := by
  rw [assign]
  split_ifs with he
  · exact hs
  · rw [hs.use he]
    exact ⟨hs.claimed, hs.fault, hs.blocks, hs.object, hs.wptr⟩

/-- The run so far, as the `Res` shows it. -/
structure Kept (h : List (Res V × Action V)) (s : Res V) : Prop extends Watched s where
  spr : s.shared.owner none = none ↔ Released h
  content : s.content = assigned h
  forever : ∀ x ∈ h, x.1.Expired → s.Expired

omit [DecidableEq V] [Fintype V] in
theorem released_cons : Released ((s, a) :: h) ↔ a = .release ∨ Released h := by
  simp [Released]

omit [DecidableEq V] [Fintype V] in
theorem assigned_cons : assigned ((s, a) :: h) = assigned h ++ match a with
    | .assign n => if s.Expired then [] else [n]
    | _ => [] := by
  unfold assigned
  rw [List.reverse_cons, List.filterMap_append]
  congr 1
  cases a with
  | assign n =>
    by_cases he : s.Expired
    · simp [he]
    · simp [he]
  | getRes v => rfl
  | release => rfl
  | drop v => rfl

/-- After the pointer has expired nothing changes. -/
theorem Watched.step_expired (hs : Watched s) (he : s.Expired) (hst : step s a = some t) :
    t = s := by
  have hno := hs.expired_iff.1 he
  have hdrop : ∀ p, s.shared.drop p = s.shared := fun p => by rw [Shared.drop, hno p]
  cases a with
  | getRes v =>
    rw [step, if_pos (hno _), getRes, if_pos he] at hst
    exact (Option.some.inj hst).symm
  | assign n =>
    rw [step, assign, if_pos he] at hst
    exact (Option.some.inj hst).symm
  | release =>
    rw [step, release, hdrop] at hst
    exact (Option.some.inj hst).symm
  | drop v =>
    rw [step, hdrop] at hst
    exact (Option.some.inj hst).symm

theorem kept_step (hs : Kept h s) (hst : step s a = some t) : Kept ((s, a) :: h) t := by
  have hforever : ∀ x ∈ (s, a) :: h, x.1.Expired → t.Expired := by
    have hone : s.Expired → t.Expired := by
      intro he
      rwa [hs.toWatched.step_expired he hst]
    intro x hx he
    rcases List.mem_cons.1 hx with rfl | hx
    · exact hone he
    · exact hone (hs.forever x hx he)
  cases a with
  | getRes v =>
    rw [step] at hst
    split_ifs at hst with hv
    cases hst
    refine ⟨watched_getRes hs.toWatched hv, ?_, ?_, hforever⟩
    · rw [released_cons, ← hs.spr, getRes]
      split_ifs
      · simp
      · simp [Shared.share]
    · rw [assigned_cons, List.append_nil, ← hs.content, getRes]
      split_ifs <;> rfl
  | assign n =>
    cases hst
    refine ⟨watched_assign hs.toWatched n, ?_, ?_, hforever⟩
    · rw [released_cons, ← hs.spr, assign]
      split_ifs with he
      · simp
      · simp [hs.toWatched.use he]
    · rw [assigned_cons, ← hs.content, assign]
      split_ifs <;> simp
  | release =>
    cases hst
    refine ⟨watched_drop hs.toWatched none, ?_, ?_, hforever⟩
    · rw [released_cons, release, Shared.drop_owner]
      simp
    · rw [assigned_cons, List.append_nil, ← hs.content]
      rfl
  | drop v =>
    cases hst
    refine ⟨watched_drop hs.toWatched (some v), ?_, ?_, hforever⟩
    · rw [released_cons, ← hs.spr, Shared.drop_owner]
      simp
    · rw [assigned_cons, List.append_nil, ← hs.content]

/-- **A resource and its watcher.** -/
theorem res_of_run (hr : Run step init h s) :
    s.shared.fault = false ∧ s.content = assigned h ∧
      (s.Expired ↔ Released h ∧ ∀ v, s.shared.owner (some v) = none) ∧
      ∀ x ∈ h, x.1.Expired → s.Expired := by
  have h0 : Kept [] (init : Res V) := by
    refine ⟨watched_init, ?_, rfl, fun x hx => by cases hx⟩
    simp [init, Shared.adopt, Released]
  have hs : Kept h s := hr.inv_hist (G := fun _ _ => True) (I := Kept) h0
    (fun _ _ _ _ hs _ hst => kept_step hs hst) (fun _ _ => trivial)
  refine ⟨hs.fault, hs.content, ?_, hs.forever⟩
  rw [hs.toWatched.expired_iff, ← hs.spr, Option.forall]

/-- After `Release` the vector is kept for the one who still holds it. -/
theorem res_of_run_held : ∃ h, ∃ s : Res Unit, Run step init h s ∧ Released h ∧ ¬ s.Expired ∧
    s.content = [10, 20] ∧ s.shared.fault = false ∧ s.content = assigned h ∧
    (s.Expired ↔ Released h ∧ ∀ v, s.shared.owner (some v) = none) ∧
    ∀ x ∈ h, x.1.Expired → s.Expired := by
  have hr : Run step (init : Res Unit) _ _ := .snoc (a := .assign 20) (.snoc (a := .release)
    (.snoc (a := .getRes ()) (.snoc (a := .assign 10) .nil rfl) rfl) rfl) rfl
  refine ⟨_, _, hr, ?_, ?_, ?_, res_of_run hr⟩
  · simp [Released]
  · decide +kernel
  · decide +kernel

end Res

end CppExperiment.StdStl
