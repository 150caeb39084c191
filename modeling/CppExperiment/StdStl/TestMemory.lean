/-
  `shared_ptr` to an object from inside the object (Standard/std_stl/TestMemory.hpp).

  `Bad::getptr` and `Widget::GetPtr` make a `shared_ptr` from `this`: a new control
  block, whatever blocks the object has.  `Good::getptr` asks the object for the
  block that owns it.

  * `Bad.sound_iff`: a run at whose end all `shared_ptr`s are gone has neither
    deleted nor used a deleted object iff no object has been given to two owners,
    by `make_shared`, `getptr` or a plain `delete`, and no plain pointer has been
    used once an owner was given the object and none was left.
  * `Good.sound_of_run`: in every run nothing is deleted twice or used afterwards,
    an object has one block, which counts its owners, and it is gone exactly if
    they are.
-/
import CppExperiment.Lib.Run
import CppExperiment.Lib.SharedPtr

namespace CppExperiment.StdStl

variable {V : Type} [DecidableEq V]

/-! ## `Bad` and `Widget` -/

namespace Bad

/-- A step of a program that uses `Bad` or `Widget`. -/
inductive Action (V : Type)
  /-- `q = make_shared<Bad>()` -/
  | makeShared (q : V)
  /-- `new Widget` -/
  | new
  /-- `q = p->getptr()` -/
  | getptr (p q : V)
  /-- `q = w->GetPtr()` for a plain pointer -/
  | rawGetptr (o : ℕ) (q : V)
  /-- `q = p` -/
  | copy (p q : V)
  /-- `p->m_members` -/
  | use (p : V)
  /-- `w->m_members` for a plain pointer, of which there may be copies -/
  | rawUse (o : ℕ)
  /-- the end of the life of `p` -/
  | drop (p : V)
  /-- `delete w` -/
  | delete (o : ℕ)

/-- `getptr`: `shared_ptr<Bad>(this)` -/
def getptr (s : Shared V) (o : ℕ) (q : V) : Shared V := (s.use o).adopt o q

/-- One step; `none` if the program does not do it: a variable is given a value
    once, before it is used. -/
def step (s : Shared V) : Action V → Option (Shared V)
  | .makeShared q => if s.owner q = none then some (s.create.adopt s.objects q) else none
  | .new => some s.create
  | .getptr p q =>
    match s.owner p with
    | some b => if s.owner q = none then some (getptr s (s.object b) q) else none
    | none => none
  | .rawGetptr o q => if o < s.objects ∧ s.owner q = none then some (getptr s o q) else none
  | .copy p q =>
    match s.owner p with
    | some b => if s.owner q = none then some (s.share b q) else none
    | none => none
  | .use p => (s.owner p).map fun b => s.use (s.object b)
  | .rawUse o => if o < s.objects then some (s.use o) else none
  | .drop p => (s.owner p).map fun _ => s.drop p
  | .delete o => if o < s.objects then some (s.delete o) else none

/-- The object that a step gives to an owner. -/
def given (s : Shared V) : Action V → Option ℕ
  | .makeShared _ => some s.objects
  | .getptr p _ => (s.owner p).map s.object
  | .rawGetptr o _ | .delete o => some o
  | .new | .copy .. | .use _ | .rawUse _ | .drop _ => none

/-- How often an object has been given to an owner. -/
def claims (h : List (Shared V × Action V)) (o : ℕ) : ℕ :=
  h.countP fun x => given x.1 x.2 = some o

/-- The object `o` has been given to no owner so far, or a `shared_ptr` owns it. -/
def Held (h : List (Shared V × Action V)) (s : Shared V) (o : ℕ) : Prop :=
  claims h o = 0 ∨ ∃ v b, s.owner v = some b ∧ s.object b = o

/-- Every use of a plain pointer found its object so. -/
def UsesHeld : List (Shared V × Action V) → Prop
  | [] => True
  | (s, a) :: h => (∀ o, a = .rawUse o → Held h s o) ∧ UsesHeld h

variable {s t : Shared V} {a : Action V} {h : List (Shared V × Action V)} {o : ℕ}

omit [DecidableEq V] in
theorem claims_cons_none (ha : given s a = none) : claims ((s, a) :: h) = claims h := by
  funext o
  rw [claims, List.countP_cons_of_neg (by simp [ha]), claims]

omit [DecidableEq V] in
theorem claims_cons_some (ha : given s a = some o) :
    claims ((s, a) :: h) = Shared.claim (claims h) o := by
  funext o'
  by_cases ho : o' = o
  · subst ho
    rw [claims, List.countP_cons_of_pos (by simp [ha]), Shared.claim, Function.update_self, claims]
  · rw [claims, List.countP_cons_of_neg (by simp [ha, Ne.symm ho]), Shared.claim,
      Function.update_of_ne ho, claims]

/-- What is wrong stays wrong. -/
theorem fault_step (hst : step s a = some t) (hf : s.fault = true) : t.fault = true := by
  cases a with
  | makeShared q =>
    rw [step] at hst
    split_ifs at hst
    cases hst
    exact hf
  | new =>
    cases hst
    exact hf
  | getptr p q =>
    rw [step] at hst
    split at hst
    · split_ifs at hst
      cases hst
      exact Shared.fault_use hf
    · cases hst
  | rawGetptr o q =>
    rw [step] at hst
    split_ifs at hst
    cases hst
    exact Shared.fault_use hf
  | copy p q =>
    rw [step] at hst
    split at hst
    · split_ifs at hst
      cases hst
      exact hf
    · cases hst
  | use p =>
    obtain ⟨b, -, rfl⟩ := Option.map_eq_some_iff.1 hst
    exact Shared.fault_use hf
  | rawUse o =>
    rw [step] at hst
    split_ifs at hst
    cases hst
    exact Shared.fault_use hf
  | drop p =>
    obtain ⟨b, -, rfl⟩ := Option.map_eq_some_iff.1 hst
    exact Shared.fault_drop hf
  | delete o =>
    rw [step] at hst
    split_ifs at hst
    cases hst
    exact Shared.fault_delete hf

variable [Fintype V]

/-- All is well so far, or an object has been given to two owners or been used
    through a plain pointer when it had none left. -/
def WellOrNot (h : List (Shared V × Action V)) (s : Shared V) : Prop :=
  (s.fault = false ∧ s.Claimed (claims h) ∧ UsesHeld h) ∨
    (s.fault = true ∧ ((∃ o, 2 ≤ claims h o) ∨ ¬ UsesHeld h))

omit [Fintype V] [DecidableEq V] in
theorem claims_le_cons : claims h o ≤ claims ((s, a) :: h) o := by
  rw [claims, claims, List.countP_cons]
  exact Nat.le_add_right ..

omit [Fintype V] in
/-- A dead object that is given to an owner has had one before. -/
theorem getptr_cases {q : V} {n : ℕ → ℕ} [Fintype V] (hs : s.Claimed n) (hf : s.fault = false)
    (hq : s.owner q = none) :
    ((getptr s o q).fault = false ∧ (getptr s o q).Claimed (Shared.claim n o)) ∨
      ((getptr s o q).fault = true ∧ 2 ≤ Shared.claim n o o) := by
  cases hd : s.dead o with
  | true =>
    refine .inr ⟨by simp [getptr, Shared.use, Shared.adopt, hd], ?_⟩
    have hc := hs.claims o
    rw [hd, Bool.toNat_true] at hc
    rw [Shared.claim, Function.update_self]
    omega
  | false =>
    rw [getptr, Shared.use_of_live hd]
    exact .inl ⟨hf, Shared.claimed_adopt hs hq⟩

omit [DecidableEq V] in
/-- A plain pointer to a dead object: all owners are gone, or there were two. -/
theorem dead_iff_of_claims (hs : s.Claimed (claims h)) (hle : claims h o ≤ 1) :
    s.dead o = true ↔ ¬ Held h s o := by
  have hc := hs.claims o
  rw [Held, ← hs.live_nonempty_iff, ← Finset.card_pos]
  cases hd : s.dead o with
  | true =>
    rw [hd, Bool.toNat_true] at hc
    exact iff_of_true rfl (by omega)
  | false =>
    rw [hd, Bool.toNat_false] at hc
    exact iff_of_false Bool.false_ne_true (by omega)

theorem wellOrNot_step (hs : WellOrNot h s) (hst : step s a = some t) :
    WellOrNot ((s, a) :: h) t := by
  rcases hs with ⟨hf, hs, hu⟩ | ⟨hf, hwrong⟩
  · cases a with
    | makeShared q =>
      rw [step] at hst
      split_ifs at hst with hq
      cases hst
      refine .inl ⟨hf, ?_, by simp, hu⟩
      rw [claims_cons_some rfl]
      exact Shared.claimed_adopt (Shared.claimed_create hs) hq
    | new =>
      cases hst
      refine .inl ⟨hf, ?_, by simp, hu⟩
      rw [claims_cons_none rfl]
      exact Shared.claimed_create hs
    | getptr p q =>
      rw [step] at hst
      split at hst
      · next b hp =>
        split_ifs at hst with hq
        cases hst
        have hg : given s (.getptr p q) = some (s.object b) := by simp [given, hp]
        rw [WellOrNot, claims_cons_some hg]
        rcases getptr_cases (o := s.object b) hs hf hq with ⟨hf', hs'⟩ | ⟨hf', ho⟩
        · exact .inl ⟨hf', hs', by simp, hu⟩
        · exact .inr ⟨hf', .inl ⟨_, ho⟩⟩
      · cases hst
    | rawGetptr o q =>
      rw [step] at hst
      split_ifs at hst with hq
      cases hst
      rw [WellOrNot, claims_cons_some rfl]
      rcases getptr_cases (o := o) hs hf hq.2 with ⟨hf', hs'⟩ | ⟨hf', ho⟩
      · exact .inl ⟨hf', hs', by simp, hu⟩
      · exact .inr ⟨hf', .inl ⟨_, ho⟩⟩
    | copy p q =>
      rw [step] at hst
      split at hst
      · next b hp =>
        split_ifs at hst with hq
        cases hst
        refine .inl ⟨hf, ?_, by simp, hu⟩
        rw [claims_cons_none rfl]
        exact Shared.claimed_share hs hp hq
      · cases hst
    | use p =>
      obtain ⟨b, hp, rfl⟩ := Option.map_eq_some_iff.1 hst
      rw [WellOrNot, claims_cons_none rfl]
      have hle := hs.le_claims hp
      cases hd : s.dead (s.object b) with
      | true =>
        rw [hd] at hle
        exact .inr ⟨by simp [Shared.use, hd], .inl ⟨_, hle⟩⟩
      | false =>
        rw [Shared.use_of_live hd]
        exact .inl ⟨hf, hs, by simp, hu⟩
    | rawUse o =>
      rw [step] at hst
      split_ifs at hst with ho
      cases hst
      rw [WellOrNot, claims_cons_none rfl]
      cases hd : s.dead o with
      | true =>
        refine .inr ⟨by simp [Shared.use, hd], ?_⟩
        by_cases htwo : 2 ≤ claims h o
        · exact .inl ⟨o, htwo⟩
        · exact .inr fun hu' => (dead_iff_of_claims hs (by omega)).1 hd (hu'.1 o rfl)
      | false =>
        have hheld : Held h s o := by
          have hc := hs.claims o
          rw [hd, Bool.toNat_false, Nat.zero_add] at hc
          rw [Held, ← hs.live_nonempty_iff, ← Finset.card_pos]
          omega
        rw [Shared.use_of_live hd]
        refine .inl ⟨hf, hs, fun o' ho' => ?_, hu⟩
        cases ho'
        exact hheld
    | drop p =>
      obtain ⟨b, hp, rfl⟩ := Option.map_eq_some_iff.1 hst
      rw [WellOrNot, claims_cons_none rfl]
      rcases Shared.claimed_drop hs hp with ⟨hs', hf'⟩ | ⟨hd, hf'⟩
      · exact .inl ⟨hf'.trans hf, hs', by simp, hu⟩
      · have hle := hs.le_claims hp
        rw [hd] at hle
        exact .inr ⟨hf', .inl ⟨_, hle⟩⟩
    | delete o =>
      rw [step] at hst
      split_ifs at hst
      cases hst
      rw [WellOrNot, claims_cons_some rfl]
      cases hd : s.dead o with
      | true =>
        have hc := hs.claims o
        rw [hd, Bool.toNat_true] at hc
        refine .inr ⟨by simp [Shared.delete, hd], .inl ⟨o, ?_⟩⟩
        rw [Shared.claim, Function.update_self]
        omega
      | false =>
        exact .inl ⟨by simp [Shared.delete, hd, hf], Shared.claimed_delete hs hd, by simp, hu⟩
  · refine .inr ⟨fault_step hst hf, ?_⟩
    rcases hwrong with ⟨o, ho⟩ | hu
    · exact .inl ⟨o, ho.trans claims_le_cons⟩
    · exact .inr fun hu' => hu hu'.2

/-- **Two owners**, or a plain pointer that is used when the owners are gone. -/
theorem sound_iff (hr : Run step Shared.init h s) (hall : ∀ v, s.owner v = none) :
    s.fault = false ↔ (∀ o, claims h o ≤ 1) ∧ UsesHeld h := by
  have hinit : (Shared.init : Shared V).Claimed (claims ([] : List (Shared V × Action V))) := by
    refine ⟨⟨fun b => ?_, fun v b hv => by cases hv⟩, fun o => ?_⟩
    · simp [Shared.init, ownerCount]
    · simp [Shared.init, Shared.live, claims]
  have hs : WellOrNot h s := hr.inv_hist (G := fun _ _ => True) (I := WellOrNot)
    (.inl ⟨rfl, hinit, trivial⟩) (fun _ _ _ _ hs _ hst => wellOrNot_step hs hst)
    (fun _ _ => trivial)
  rcases hs with ⟨hf, hs, hu⟩ | ⟨hf, hwrong⟩
  · refine iff_of_true hf ⟨fun o => ?_, hu⟩
    have hlive : s.live o = ∅ := by
      rw [← Finset.not_nonempty_iff_eq_empty, hs.live_nonempty_iff]
      rintro ⟨v, b, hv, -⟩
      rw [hall] at hv
      cases hv
    rw [hs.claims, hlive, Finset.card_empty, Nat.add_zero]
    exact Bool.toNat_le _
  · refine iff_of_false (by simp [hf]) ?_
    rintro ⟨hle, hu⟩
    rcases hwrong with ⟨o, ho⟩ | hno
    · exact absurd (hle o) (by omega)
    · exact hno hu

/-- `TestSharedPtrCp`: `delete w2` and the end of `w3` delete the object twice. -/
theorem sound_iff_two : ∃ h, ∃ s : Shared Unit, Run step Shared.init h s ∧
    (∀ v, s.owner v = none) ∧ s.fault = true ∧
      (s.fault = false ↔ (∀ o, claims h o ≤ 1) ∧ UsesHeld h) := by
  have hr : Run step (Shared.init : Shared Unit) _ _ := .snoc (a := .drop ())
    (.snoc (a := .delete 0) (.snoc (a := .use ()) (.snoc (a := .rawGetptr 0 ())
      (.snoc (a := .rawUse 0) (.snoc (a := .rawUse 0)
        (.snoc (a := .new) .nil rfl) rfl) rfl) rfl) rfl) rfl) rfl
  refine ⟨_, _, hr, ?_, ?_, sound_iff hr ?_⟩
  · decide +kernel
  · decide +kernel
  · decide +kernel

end Bad

/-! ## `Good` -/

namespace Good

/-- The objects, and the `weak_ptr` of each to the block that owns it. -/
structure Mem (V : Type) where
  shared : Shared V
  weakThis : ℕ → Option ℕ

/-- A step of a program that uses `Good`. -/
inductive Action (V : Type)
  /-- `q = make_shared<Good>()` -/
  | makeShared (q : V)
  /-- `Good g; q = g.getptr()`, and the end of the scope -/
  | onStack (q : V)
  /-- `q = p->getptr()` -/
  | getptr (p q : V)
  /-- `q = p` -/
  | copy (p q : V)
  | use (p : V)
  /-- the end of the life of `p` -/
  | drop (p : V)

namespace Mem

def init : Mem V := ⟨.init, fun _ => none⟩

/-- `make_shared<Good>()` -/
def makeShared (s : Mem V) (q : V) : Mem V where
  shared := s.shared.create.adopt s.shared.objects q
  weakThis := Function.update s.weakThis s.shared.objects (some s.shared.blocks)

/-- `getptr`: `shared_from_this()`; `none` if it throws `bad_weak_ptr`. -/
def getptr (s : Mem V) (o : ℕ) (q : V) : Option (Mem V) :=
  match s.weakThis o with
  | none => none
  | some b =>
    if s.shared.useCount b = 0 then none
    else some { s with shared := (s.shared.use o).share b q }

/-- A call of `getptr`, its exception caught. -/
def tryGetptr (s : Mem V) (o : ℕ) (q : V) : Mem V := (s.getptr o q).getD s

/-- One step; `none` if the program does not do it. -/
def step (s : Mem V) : Action V → Option (Mem V)
  | .makeShared q => if s.shared.owner q = none then some (s.makeShared q) else none
  | .onStack q =>
    let t := { s with shared := s.shared.create }.tryGetptr s.shared.objects q
    if s.shared.owner q = none then
      some { t with shared := t.shared.delete s.shared.objects }
    else none
  | .getptr p q =>
    match s.shared.owner p with
    | some b =>
      if s.shared.owner q = none then some (s.tryGetptr (s.shared.object b) q) else none
    | none => none
  | .copy p q =>
    match s.shared.owner p with
    | some b =>
      if s.shared.owner q = none then some { s with shared := s.shared.share b q } else none
    | none => none
  | .use p => (s.shared.owner p).map fun b => { s with shared := s.shared.use (s.shared.object b) }
  | .drop p => (s.shared.owner p).map fun _ => { s with shared := s.shared.drop p }

variable [Fintype V] {s t : Mem V} {p q : V} {o b : ℕ}

/-- Every object has been given to one owner: its block, which it knows, or a
    scope. -/
structure Owned (s : Mem V) : Prop where
  claimed : s.shared.Claimed fun o => if o < s.shared.objects then 1 else 0
  fault : s.shared.fault = false
  object_lt : ∀ b < s.shared.blocks, s.shared.object b < s.shared.objects
  weakThis : ∀ o b, s.weakThis o = some b ↔ b < s.shared.blocks ∧ s.shared.object b = o

/-- The claims after a new object has been given to an owner. -/
theorem claim_objects (n : ℕ) : Shared.claim (fun o => if o < n then 1 else 0) n =
    fun o => if o < n + 1 then 1 else 0 := by
  funext o
  rw [Shared.claim, Function.update_apply, if_neg (lt_irrefl n)]
  split_ifs <;> omega

omit [DecidableEq V] in
/-- An object that has an owner is not dead. -/
theorem Owned.alive (hs : Owned s) (hp : s.shared.owner p = some b) :
    s.shared.dead (s.shared.object b) = false := by
  have hle := hs.claimed.le_claims hp
  rw [if_pos (hs.object_lt b (hs.claimed.lt p b hp))] at hle
  cases hd : s.shared.dead (s.shared.object b) with
  | false => rfl
  | true =>
    rw [hd] at hle
    exact absurd hle (by decide)

omit [DecidableEq V] in
theorem Owned.use (hs : Owned s) (hp : s.shared.owner p = some b) :
    s.shared.use (s.shared.object b) = s.shared := by
  rw [Shared.use, hs.alive hp, if_neg Bool.false_ne_true]

omit [DecidableEq V] in
theorem Owned.new_alive (hs : Owned s) : s.shared.dead s.shared.objects = false := by
  have hc := hs.claimed.claims s.shared.objects
  rw [if_neg (lt_irrefl _)] at hc
  exact Bool.toNat_eq_zero.1 (by omega)

omit [DecidableEq V] in
theorem owned_init : Owned (init : Mem V) where
  claimed := by
    refine ⟨⟨fun b => ?_, fun v b hv => by cases hv⟩, fun o => ?_⟩
    · simp [init, Shared.init, ownerCount]
    · simp [init, Shared.init, Shared.live]
  fault := rfl
  object_lt b hb := absurd hb (Nat.not_lt_zero b)
  weakThis _ b := ⟨fun h => (by cases h), fun h => absurd h.1 (Nat.not_lt_zero b)⟩

theorem owned_makeShared (hs : Owned s) (hq : s.shared.owner q = none) :
    Owned (s.makeShared q) := by
  constructor
  · have hc := Shared.claimed_adopt (o := s.shared.objects) (Shared.claimed_create hs.claimed) hq
    rwa [claim_objects] at hc
  · exact hs.fault
  · intro b hb
    change Function.update s.shared.object s.shared.blocks s.shared.objects b < _ + 1
    rw [Function.update_apply]
    split_ifs with h
    · exact Nat.lt_succ_self _
    · exact Nat.lt_succ_of_lt (hs.object_lt b (Nat.lt_of_le_of_ne (Nat.le_of_lt_succ hb) h))
  · intro o b
    change Function.update s.weakThis s.shared.objects (some s.shared.blocks) o = some b ↔
      b < s.shared.blocks + 1 ∧
        Function.update s.shared.object s.shared.blocks s.shared.objects b = o
    rw [Function.update_apply, Function.update_apply]
    have hb : s.shared.object b = s.shared.objects → ¬ b < s.shared.blocks := by
      intro ho hlt
      exact (hs.object_lt b hlt).ne ho
    have ho := hs.weakThis o b
    by_cases hbB : b = s.shared.blocks
    · subst hbB
      simp only [lt_irrefl, false_and, iff_false] at ho
      rw [if_pos rfl]
      split_ifs with hoN
      · simp [hoN]
      · simp [ho, Ne.symm hoN]
    · rw [if_neg hbB]
      have hlt : b < s.shared.blocks + 1 ↔ b < s.shared.blocks := by omega
      rw [hlt]
      split_ifs with hoN
      · subst hoN
        simp only [Option.some.injEq, Ne.symm hbB, false_iff, not_and]
        exact fun h h' => hb h' h
      · exact ho

theorem owned_share (hs : Owned s) (hp : s.shared.owner p = some b) (hq : s.shared.owner q = none) :
    Owned { s with shared := s.shared.share b q } :=
  ⟨Shared.claimed_share hs.claimed hp hq, hs.fault, hs.object_lt, hs.weakThis⟩

/-- `getptr` finds the block of the pointer that it is called through. -/
theorem tryGetptr_eq (hs : Owned s) (hp : s.shared.owner p = some b) :
    s.tryGetptr (s.shared.object b) q = { s with shared := s.shared.share b q } := by
  have hweak : s.weakThis (s.shared.object b) = some b :=
    (hs.weakThis _ b).2 ⟨hs.claimed.lt p b hp, rfl⟩
  have hpos := hs.claimed.useCount_pos hp
  rw [tryGetptr, getptr, hweak]
  dsimp only
  rw [if_neg hpos.ne', hs.use hp]
  rfl

omit [DecidableEq V] in
theorem owned_onStack (hs : Owned s) :
    Owned { s with shared := s.shared.create.delete s.shared.objects } := by
  have hnew : s.shared.create.dead s.shared.objects = false := hs.new_alive
  have hc := Shared.claimed_delete (Shared.claimed_create hs.claimed) hnew
  rw [claim_objects] at hc
  obtain ⟨hobjects, hblocks, hobject, -⟩ :=
    Shared.delete_frame (s := s.shared.create) (o := s.shared.objects)
  constructor
  · dsimp only
    rwa [hobjects]
  · rw [Shared.delete, hnew, if_neg Bool.false_ne_true]
    exact hs.fault
  · intro b hb
    dsimp only at hb ⊢
    rw [hblocks] at hb
    rw [hobject, hobjects]
    exact Nat.lt_succ_of_lt (hs.object_lt b hb)
  · dsimp only
    rw [hobject, hblocks]
    exact hs.weakThis

/-- `getptr` of an object that no `shared_ptr` owns throws. -/
theorem tryGetptr_onStack (hs : Owned s) :
    ({ s with shared := s.shared.create } : Mem V).tryGetptr s.shared.objects q =
      { s with shared := s.shared.create } := by
  have hweak : s.weakThis s.shared.objects = none := by
    rw [Option.eq_none_iff_forall_ne_some]
    intro b hb
    obtain ⟨hlt, ho⟩ := (hs.weakThis _ b).1 hb
    exact (hs.object_lt b hlt).ne ho
  simp only [tryGetptr, getptr, hweak, Option.getD_none]

theorem owned_drop (hs : Owned s) (hp : s.shared.owner p = some b) :
    Owned { s with shared := s.shared.drop p } := by
  obtain ⟨hobjects, hblocks, hobject⟩ := Shared.drop_frame (s := s.shared) (p := p)
  rcases Shared.claimed_drop hs.claimed hp with ⟨hc, hf⟩ | ⟨hd, -⟩
  · constructor
    · dsimp only
      rwa [hobjects]
    · exact hf.trans hs.fault
    · dsimp only
      rw [hobjects, hblocks, hobject]
      exact hs.object_lt
    · dsimp only
      rw [hblocks, hobject]
      exact hs.weakThis
  · rw [hs.alive hp] at hd
    cases hd

theorem owned_step {a : Action V} (hs : Owned s) (hst : step s a = some t) : Owned t := by
  cases a with
  | makeShared q =>
    rw [step] at hst
    split_ifs at hst with hq
    cases hst
    exact owned_makeShared hs hq
  | onStack q =>
    rw [step, tryGetptr_onStack hs] at hst
    split_ifs at hst
    cases hst
    exact owned_onStack hs
  | getptr p q =>
    rw [step] at hst
    split at hst
    · next b hp =>
      split_ifs at hst with hq
      cases hst
      rw [tryGetptr_eq hs hp]
      exact owned_share hs hp hq
    · cases hst
  | copy p q =>
    rw [step] at hst
    split at hst
    · next b hp =>
      split_ifs at hst with hq
      cases hst
      exact owned_share hs hp hq
    · cases hst
  | use p =>
    obtain ⟨b, hp, rfl⟩ := Option.map_eq_some_iff.1 hst
    rw [hs.use hp]
    exact hs
  | drop p =>
    obtain ⟨b, hp, rfl⟩ := Option.map_eq_some_iff.1 hst
    exact owned_drop hs hp

omit [DecidableEq V] in
/-- An object is gone exactly if nothing owns it. -/
theorem Owned.dead_iff (hs : Owned s) (ho : o < s.shared.objects) :
    s.shared.dead o ↔ ∀ v b, s.shared.owner v = some b → s.shared.object b ≠ o := by
  have hc := hs.claimed.claims o
  rw [if_pos ho] at hc
  constructor
  · rintro hd v b hv rfl
    rw [hs.alive hv] at hd
    cases hd
  · intro hno
    have hlive : s.shared.live o = ∅ := by
      refine Finset.eq_empty_of_forall_notMem fun b hb => ?_
      obtain ⟨-, hob, hpos⟩ := Shared.mem_live.1 hb
      rw [hs.claimed.count, ownerCount, Finset.card_pos] at hpos
      obtain ⟨v, hv⟩ := hpos
      exact hno v b ((Finset.mem_filter_univ v).1 hv) hob
    rw [hlive, Finset.card_empty, Nat.add_zero] at hc
    exact Bool.toNat_eq_one.1 hc.symm

/-- **One block for each object.** -/
theorem sound_of_run {h : List (Mem V × Action V)} (hr : Run step init h s) :
    s.shared.fault = false ∧
      (∀ b, s.shared.useCount b = ownerCount s.shared.owner b) ∧
      (∀ v w b c, s.shared.owner v = some b → s.shared.owner w = some c →
        s.shared.object b = s.shared.object c → b = c) ∧
      ∀ o < s.shared.objects,
        (s.shared.dead o ↔ ∀ v b, s.shared.owner v = some b → s.shared.object b ≠ o) := by
  have hs : Owned s := hr.inv owned_init fun _ _ _ hs hst => owned_step hs hst
  refine ⟨hs.fault, hs.claimed.count, fun v w b c hv hw hbc => ?_, fun o ho => hs.dead_iff ho⟩
  have hb := (hs.weakThis _ b).2 ⟨hs.claimed.lt v b hv, rfl⟩
  have hc := (hs.weakThis _ c).2 ⟨hs.claimed.lt w c hw, rfl⟩
  rw [hbc, hc, Option.some.injEq] at hb
  exact hb.symm

/-- Two pointers to one object, of which one has gone. -/
theorem sound_of_run_two : ∃ h, ∃ s : Mem Bool, Run step init h s ∧
    s.shared.useCount 0 = 1 ∧ s.shared.dead 0 = false ∧ s.shared.fault = false ∧
    (∀ b, s.shared.useCount b = ownerCount s.shared.owner b) ∧
    (∀ v w b c, s.shared.owner v = some b → s.shared.owner w = some c →
      s.shared.object b = s.shared.object c → b = c) ∧
    ∀ o < s.shared.objects,
      (s.shared.dead o ↔ ∀ v b, s.shared.owner v = some b → s.shared.object b ≠ o) := by
  have hr : Run step (init : Mem Bool) _ _ := .snoc (a := .drop true)
    (.snoc (a := .getptr true false) (.snoc (a := .makeShared true) .nil rfl) rfl) rfl
  refine ⟨_, _, hr, ?_, ?_, sound_of_run hr⟩
  · decide +kernel
  · decide +kernel

end Mem

end Good

end CppExperiment.StdStl
