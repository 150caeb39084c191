/-
  Heap objects and their owners.

  * `Heap α`: the live objects, with `new`, `delete` and `deref`; what the
    language leaves undefined (deleting an object twice, reaching through a
    null or dangling pointer) is a `Fault`.
  * `Ledger O α`: the abstract view of ownership, one owner at most for each
    object.  `Move` is one change of ownership; `Ledger.Lists L o xs` says that
    the list `xs` holds exactly the objects of the owner `o`, each once.
  * `Ledger.Points L own`: the owners hold one pointer each, at most.  It comes
    from unique owners (`Points.of_unique`), and the pointers that appear, move
    and go are changes of ownership.
-/
import Mathlib

namespace CppExperiment

variable {α O : Type*} [DecidableEq α]

/-! ## The heap -/

/-- Undefined behaviour of heap operations. -/
inductive Fault (α : Type*) where
  /-- `delete` of an object that is not live -/
  | doubleFree (p : α)
  /-- a null pointer is dereferenced -/
  | nullDeref
  /-- a pointer to an object that is not live is dereferenced -/
  | dangling (p : α)

/-- The live objects, and the objects deleted so far (latest first). -/
structure Heap (α : Type*) where
  live : Finset α
  frees : List α

@[simp] theorem ok_bind {ε β γ : Type} (b : β) (f : β → Except ε γ) :
    (Except.ok b >>= f) = f b := rfl

namespace Heap

/-- `new` returns the object `p`, distinct from all live ones. -/
def new (h : Heap α) (p : α) : Heap α := { h with live := insert p h.live }

/-- `delete p`; deleting the null pointer does nothing. -/
def delete (h : Heap α) : Option α → Except (Fault α) (Heap α)
  | none => .ok h
  | some p =>
    if p ∈ h.live then .ok ⟨h.live.erase p, p :: h.frees⟩ else .error (.doubleFree p)

/-- The object a pointer leads to. -/
def deref (h : Heap α) : Option α → Except (Fault α) α
  | none => .error .nullDeref
  | some p => if p ∈ h.live then .ok p else .error (.dangling p)

theorem delete_live {h : Heap α} {p : α} (hp : p ∈ h.live) :
    h.delete (some p) = .ok ⟨h.live.erase p, p :: h.frees⟩ := if_pos hp

theorem deref_live {h : Heap α} {p : α} (hp : p ∈ h.live) : h.deref (some p) = .ok p :=
  if_pos hp

end Heap

/-! ## Ledgers -/

/-- The owner of each object, if it has one. -/
abbrev Ledger (O α : Type*) := α → Option O

/-- One change of ownership: an object appears, changes hands or goes. -/
inductive Ledger.Move : Ledger O α → Ledger O α → Prop
  | alloc {L : Ledger O α} {c : α} (o : O) : L c = none → Move L (Function.update L c (some o))
  | transfer {L : Ledger O α} {c : α} {o : O} (o' : O) : L c = some o →
      Move L (Function.update L c (some o'))
  | free {L : Ledger O α} {c : α} {o : O} : L c = some o → Move L (Function.update L c none)

/-- Finitely many changes of ownership. -/
abbrev Ledger.Moves : Ledger O α → Ledger O α → Prop := Relation.ReflTransGen Ledger.Move

/-- The list `xs` holds exactly the objects owned by `o`, each once. -/
structure Ledger.Lists (L : Ledger O α) (o : O) (xs : List α) : Prop where
  nodup : xs.Nodup
  mem : ∀ c, c ∈ xs ↔ L c = some o

/-- The finite set `s` is the set of the owned objects. -/
def Ledger.Covers (L : Ledger O α) (s : Finset α) : Prop := ∀ c, c ∈ s ↔ (L c).isSome

namespace Ledger
variable {L : Ledger O α} {o : O} {c : α} {xs : List α} {s : Finset α}

omit [DecidableEq α] in
theorem Lists.perm {ys : List α} (h : L.Lists o xs) (hp : xs.Perm ys) : L.Lists o ys :=
  ⟨hp.nodup_iff.1 h.nodup, fun c => by rw [← h.mem, hp.mem_iff]⟩

/-- Another owner's objects are not affected. -/
theorem Lists.other {x : Option O} (h : L.Lists o xs) (hc : L c ≠ some o) (hx : x ≠ some o) :
    Lists (Function.update L c x) o xs := by
  refine ⟨h.nodup, ?_⟩
  intro d
  by_cases hd : d = c
  · subst hd; simp [h.mem, hc, hx]
  · rw [Function.update_of_ne hd, h.mem]

/-- The owner `o` receives `c`. -/
theorem Lists.give (h : L.Lists o xs) (hc : L c ≠ some o) :
    Lists (Function.update L c (some o)) o (c :: xs) := by
  refine ⟨List.nodup_cons.2 ⟨fun hm => hc ((h.mem c).1 hm), h.nodup⟩, ?_⟩
  intro d
  by_cases hd : d = c
  · subst hd; simp
  · rw [Function.update_of_ne hd, List.mem_cons, h.mem]; simp [hd]

/-- The owner `o` gives `c` away. -/
theorem Lists.take {x : Option O} (h : L.Lists o (c :: xs)) (hx : x ≠ some o) :
    Lists (Function.update L c x) o xs := by
  obtain ⟨hc, hnd⟩ := List.nodup_cons.1 h.nodup
  refine ⟨hnd, ?_⟩
  intro d
  by_cases hd : d = c
  · subst hd; simp [hc, hx]
  · rw [Function.update_of_ne hd, ← h.mem, List.mem_cons]; simp [hd]

omit [DecidableEq α] in
theorem Lists.owner (h : L.Lists o xs) (hc : c ∈ xs) : L c = some o := (h.mem c).1 hc

theorem Covers.insert (h : L.Covers s) (c : α) (o : O) :
    Covers (Function.update L c (some o)) (insert c s) := by
  intro d
  by_cases hd : d = c
  · subst hd; simp
  · rw [Function.update_of_ne hd, Finset.mem_insert, h d]; simp [hd]

theorem Covers.erase (h : L.Covers s) (c : α) : Covers (Function.update L c none) (s.erase c) := by
  intro d
  by_cases hd : d = c
  · subst hd; simp
  · rw [Function.update_of_ne hd, Finset.mem_erase, h d]; simp [hd]

/-- A change of hands leaves the owned objects as they are. -/
theorem Covers.transfer (h : L.Covers s) {o' : O} (hc : L c = some o) :
    Covers (Function.update L c (some o')) s := by
  intro d
  by_cases hd : d = c
  · subst hd; simp [h d, hc]
  · rw [Function.update_of_ne hd, h d]

omit [DecidableEq α] in
theorem Covers.mem (h : L.Covers s) (hc : L c = some o) : c ∈ s := (h c).2 (by simp [hc])

/-- The objects in `ds` go. -/
def freeAll (L : Ledger O α) (ds : List α) : Ledger O α := fun c => if c ∈ ds then none else L c

theorem freeAll_cons (d : α) (ds : List α) :
    L.freeAll (d :: ds) = Function.update (L.freeAll ds) d none := by
  funext c
  by_cases hc : c = d
  · subst hc; simp [freeAll]
  · rw [Function.update_of_ne hc]; simp [freeAll, hc]

theorem freeAll_moves {ds : List α} (hnd : ds.Nodup) (hds : ∀ d ∈ ds, (L d).isSome) :
    L.Moves (L.freeAll ds) := by
  induction ds with
  | nil => exact .refl
  | cons d ds ih =>
    obtain ⟨hd, hnd⟩ := List.nodup_cons.1 hnd
    obtain ⟨o, ho⟩ := Option.isSome_iff_exists.1 (hds d (by simp))
    rw [freeAll_cons]
    have ih := ih hnd fun x hx => hds x (by simp [hx])
    exact ih.tail (.free (o := o) (by simp [freeAll, hd, ho]))

/-- Objects of another owner are not affected. -/
theorem Lists.freeAll_other {ds : List α} (h : L.Lists o xs) (hds : ∀ d ∈ ds, L d ≠ some o) :
    Lists (L.freeAll ds) o xs := by
  refine ⟨h.nodup, ?_⟩
  intro c
  by_cases hc : c ∈ ds
  · simp [freeAll, hc, h.mem, hds c hc]
  · simp [freeAll, hc, h.mem]

/-- The owner keeps what is not freed. -/
theorem Lists.freeAll_own {ds ys : List α} (h : L.Lists o xs) (hnd : ys.Nodup)
    (hys : ∀ c, c ∈ ys ↔ c ∈ xs ∧ c ∉ ds) : Lists (L.freeAll ds) o ys := by
  refine ⟨hnd, ?_⟩
  intro c
  by_cases hc : c ∈ ds <;> simp [freeAll, hc, hys, h.mem]

theorem Covers.freeAll (h : L.Covers s) (ds : List α) :
    Covers (L.freeAll ds) (s \ ds.toFinset) := by
  intro c
  by_cases hc : c ∈ ds <;> simp [Ledger.freeAll, hc, h c]

/-! ## Owners with one pointer -/

/-- The pointer of each owner leads to its object, the only one it owns. -/
def Points (L : Ledger O α) (own : O → Option α) : Prop := ∀ c o, L c = some o ↔ own o = some c

section
variable [DecidableEq O] {own : O → Option α} {o' : O}

omit [DecidableEq α] [DecidableEq O] in
/-- Objects with one owner each have a ledger. -/
theorem Points.of_unique (h : ∀ c ∈ s, ∃! o, own o = some c) (hs : ∀ o c, own o = some c → c ∈ s) :
    ∃ L : Ledger O α, L.Points own ∧ L.Covers s := by
  classical
  let L : Ledger O α := fun c => if hc : ∃ o, own o = some c then some hc.choose else none
  have hL : ∀ c o, L c = some o ↔ own o = some c := by
    intro c o
    constructor
    · intro ho
      change (dite _ _ _) = _ at ho
      split_ifs at ho with hc
      obtain rfl := Option.some.inj ho
      exact hc.choose_spec
    · intro ho
      have hc : ∃ o, own o = some c := ⟨o, ho⟩
      change (dite _ _ _) = _
      rw [dif_pos hc, (h c (hs o c ho)).unique hc.choose_spec ho]
  refine ⟨L, hL, ?_⟩
  intro c
  constructor
  · intro hc
    obtain ⟨o, ho, -⟩ := h c hc
    rw [(hL c o).2 ho]; rfl
  · intro hc
    obtain ⟨o, ho⟩ := Option.isSome_iff_exists.1 hc
    exact hs o c ((hL c o).1 ho)

omit [DecidableEq α] [DecidableEq O] in
/-- The owner of an object is unique. -/
theorem Points.unique (h : L.Points own) (ho : own o = some c) :
    ∀ o', own o' = some c → o' = o := by
  intro o' ho'
  rw [← h] at ho ho'
  exact Option.some.inj (ho'.symm.trans ho)

/-- An owner without a pointer receives a new object. -/
theorem Points.give (h : L.Points own) (hc : L c = none) (ho : own o = none) :
    Points (Function.update L c (some o)) (Function.update own o (some c)) := by
  intro d o'
  by_cases hd : d = c <;> by_cases ho' : o' = o
  · subst hd ho'; simp
  · subst hd
    have : own o' ≠ some d := by rw [Ne, ← h, hc]; nofun
    simp [ho', Ne.symm ho', this]
  · subst ho'
    have : L d ≠ some o' := by rw [Ne, h, ho]; nofun
    simp [hd, Ne.symm hd, this]
  · simp [hd, ho', h d o']

/-- The pointer of an owner goes, with its object. -/
theorem Points.drop (h : L.Points own) (ho : own o = some c) :
    Points (Function.update L c none) (Function.update own o none) := by
  intro d o'
  by_cases hd : d = c <;> by_cases ho' : o' = o
  · subst hd ho'; simp
  · subst hd
    have : own o' ≠ some d := fun he => ho' (h.unique ho o' he)
    simp [ho', this]
  · subst ho'
    have : L d ≠ some o' := by rw [Ne, h, ho]; exact fun he => hd (Option.some.inj he).symm
    simp [hd, this]
  · simp [hd, ho', h d o']

/-- **A move**: the object of `o` goes to `o'`, which has none. -/
theorem Points.move (h : L.Points own) (ho : own o = some c) (ho' : own o' = none) :
    Points (Function.update L c (some o'))
      (Function.update (Function.update own o' (some c)) o none) := by
  have hne : o' ≠ o := by rintro rfl; rw [ho'] at ho; cases ho
  have hgive := (h.drop ho).give (c := c) (o := o') (by simp) (by simp [hne, ho'])
  rwa [Function.update_idem, Function.update_comm hne.symm] at hgive

end

end Ledger

end CppExperiment
