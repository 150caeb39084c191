/-
  Objects owned through reference counts.

  A control block counts the owners of an object and deletes the object when the
  last one goes.  Nothing keeps an object from having several blocks: a block is
  made from a pointer, and does not know of others.

  * `Shared V`: objects and blocks, numbered by their creation, and the owners,
    which are variables of the type `V`.
  * `Counted`: the counts are the numbers of owners.
  * `Claimed n s`: the object `o` has been claimed `n o` times, by a block or by a
    plain `delete`; it is then dead or has a block left for each of the claims,
    but one.  An operation keeps this or faults (`claimed_drop`,
    `claimed_delete`).
-/
import Mathlib

namespace CppExperiment

/-- Objects, control blocks and owners. -/
structure Shared (V : Type) where
  objects : ℕ
  dead : ℕ → Bool
  blocks : ℕ
  /-- the object of a block -/
  object : ℕ → ℕ
  useCount : ℕ → ℕ
  /-- the block of an owner -/
  owner : V → Option ℕ
  /-- a dead object was deleted or used -/
  fault : Bool

namespace Shared

variable {V : Type} [DecidableEq V]

def init : Shared V := ⟨0, fun _ => false, 0, fun _ => 0, fun _ => 0, fun _ => none, false⟩

/-- A new object. -/
def create (s : Shared V) : Shared V := { s with objects := s.objects + 1 }

/-- `delete` of an object. -/
def delete (s : Shared V) (o : ℕ) : Shared V :=
  if s.dead o then { s with fault := true } else { s with dead := Function.update s.dead o true }

/-- A member of an object is used. -/
def use (s : Shared V) (o : ℕ) : Shared V := if s.dead o then { s with fault := true } else s

/-- A new block for an object; `q` is its owner. -/
def adopt (s : Shared V) (o : ℕ) (q : V) : Shared V :=
  { s with
    blocks := s.blocks + 1
    object := Function.update s.object s.blocks o
    useCount := Function.update s.useCount s.blocks 1
    owner := Function.update s.owner q (some s.blocks) }

/-- `q` is another owner of a block. -/
def share (s : Shared V) (b : ℕ) (q : V) : Shared V :=
  { s with
    useCount := Function.update s.useCount b (s.useCount b + 1)
    owner := Function.update s.owner q (some b) }

/-- The count of a block that has lost an owner. -/
def release (s : Shared V) (b : ℕ) (p : V) : Shared V :=
  { s with
    useCount := Function.update s.useCount b (s.useCount b - 1)
    owner := Function.update s.owner p none }

/-- An owner goes; the last one deletes the object. -/
def drop (s : Shared V) (p : V) : Shared V :=
  match s.owner p with
  | none => s
  | some b =>
    let t := s.release b p
    if t.useCount b = 0 then t.delete (s.object b) else t

/-! ## Frames -/

section
variable {s : Shared V} {o : ℕ} {p : V}

omit [DecidableEq V] in
/-- A `delete` leaves the blocks as they are. -/
theorem delete_frame : (s.delete o).objects = s.objects ∧ (s.delete o).blocks = s.blocks ∧
    (s.delete o).object = s.object ∧ (s.delete o).owner = s.owner := by
  rw [delete]
  split <;> exact ⟨rfl, rfl, rfl, rfl⟩

/-- The end of an owner leaves the objects of the blocks as they are. -/
theorem drop_frame : (s.drop p).objects = s.objects ∧ (s.drop p).blocks = s.blocks ∧
    (s.drop p).object = s.object := by
  rw [drop]
  split
  · exact ⟨rfl, rfl, rfl⟩
  · dsimp only
    split
    · obtain ⟨h1, h2, h3, -⟩ := delete_frame (s := s.release ‹ℕ› p) (o := s.object ‹ℕ›)
      exact ⟨h1, h2, h3⟩
    · exact ⟨rfl, rfl, rfl⟩

theorem drop_owner : (s.drop p).owner = Function.update s.owner p none := by
  rw [drop]
  split
  · next hp => rw [← hp, Function.update_eq_self]
  · dsimp only
    split
    · exact delete_frame.2.2.2
    · rfl

end

/-! ## Faults remain -/

section
variable {s : Shared V} {o : ℕ} {p : V}

omit [DecidableEq V] in
/-- A use of an object that lives changes nothing. -/
theorem use_of_live (hd : s.dead o = false) : s.use o = s := by
  rw [use, hd, if_neg Bool.false_ne_true]

omit [DecidableEq V] in
theorem fault_use (hf : s.fault = true) : (s.use o).fault = true := by
  rw [use]
  split
  · rfl
  · exact hf

omit [DecidableEq V] in
theorem fault_delete (hf : s.fault = true) : (s.delete o).fault = true := by
  rw [delete]
  split
  · rfl
  · exact hf

theorem fault_drop (hf : s.fault = true) : (s.drop p).fault = true := by
  rw [drop]
  split
  · exact hf
  · dsimp only
    split
    · exact fault_delete hf
    · exact hf

end

end Shared

/-! ## Counting owners -/

section
variable {V : Type} [Fintype V] {owner : V → Option ℕ} {b c : ℕ} {p q : V}

/-- The number of owners of a block. -/
def ownerCount (owner : V → Option ℕ) (b : ℕ) : ℕ := ({v | owner v = some b} : Finset V).card

theorem ownerCount_pos (hp : owner p = some b) : 0 < ownerCount owner b :=
  Finset.card_pos.2 ⟨p, by simpa using hp⟩

variable [DecidableEq V]

theorem ownerCount_update_some (hq : owner q = none) :
    ownerCount (Function.update owner q (some c)) b =
      ownerCount owner b + if c = b then 1 else 0 := by
  have hset : ({v | Function.update owner q (some c) v = some b} : Finset V) =
      if c = b then insert q ({v | owner v = some b} : Finset V)
      else ({v | owner v = some b} : Finset V) := by
    ext v
    rw [Finset.mem_filter_univ, Function.update_apply]
    by_cases hv : v = q
    · subst hv
      rw [if_pos rfl, Option.some.injEq]
      split_ifs with hc
      · simp [hc]
      · simp [hc, hq]
    · rw [if_neg hv]
      split_ifs
      · simp [hv]
      · simp
  rw [ownerCount, hset]
  split_ifs
  · rw [Finset.card_insert_of_notMem (by simp [hq]), ownerCount]
  · rfl

theorem ownerCount_update_none (hp : owner p = some c) :
    ownerCount (Function.update owner p none) b = ownerCount owner b - if c = b then 1 else 0 := by
  have hset : ({v | Function.update owner p none v = some b} : Finset V) =
      ({v | owner v = some b} : Finset V).erase p := by
    ext v
    rw [Finset.mem_filter_univ, Finset.mem_erase, Finset.mem_filter_univ, Function.update_apply]
    by_cases hv : v = p
    · simp [hv]
    · simp [hv]
  rw [ownerCount, hset, Finset.card_erase_eq_ite, ownerCount]
  simp only [Finset.mem_filter_univ, hp, Option.some.injEq]
  split_ifs <;> rfl

end

namespace Shared

section
variable {V : Type} [Fintype V] {s : Shared V} {o b : ℕ} {p : V}

/-- The counts are the numbers of owners. -/
structure Counted (s : Shared V) : Prop where
  count : ∀ b, s.useCount b = ownerCount s.owner b
  lt : ∀ v b, s.owner v = some b → b < s.blocks

theorem Counted.useCount_pos (hs : Counted s) (hp : s.owner p = some b) : 0 < s.useCount b := by
  rw [hs.count]
  exact ownerCount_pos hp

/-- The blocks of an object that have an owner. -/
def live {V : Type} (s : Shared V) (o : ℕ) : Finset ℕ :=
  {b ∈ Finset.range s.blocks | s.object b = o ∧ 0 < s.useCount b}

omit [Fintype V] in
theorem mem_live : b ∈ s.live o ↔ b < s.blocks ∧ s.object b = o ∧ 0 < s.useCount b := by
  rw [live, Finset.mem_filter, Finset.mem_range]

theorem Counted.mem_live (hs : Counted s) (hp : s.owner p = some b) : b ∈ s.live (s.object b) :=
  Shared.mem_live.2 ⟨hs.lt p b hp, rfl, hs.useCount_pos hp⟩

/-- An object has a block left iff it has an owner. -/
theorem Counted.live_nonempty_iff (hs : Counted s) :
    (s.live o).Nonempty ↔ ∃ v b, s.owner v = some b ∧ s.object b = o := by
  constructor
  · rintro ⟨b, hb⟩
    obtain ⟨-, ho, hpos⟩ := Shared.mem_live.1 hb
    rw [hs.count, ownerCount, Finset.card_pos] at hpos
    obtain ⟨v, hv⟩ := hpos
    rw [Finset.mem_filter_univ] at hv
    exact ⟨v, b, hv, ho⟩
  · rintro ⟨v, b, hv, rfl⟩
    exact ⟨b, hs.mem_live hv⟩

/-- Every claim to an object is a block with owners, or the one that has deleted
    the object. -/
structure Claimed (n : ℕ → ℕ) (s : Shared V) : Prop extends Counted s where
  claims : ∀ o, n o = (s.dead o).toNat + (s.live o).card

end

variable {V : Type} [DecidableEq V] [Fintype V] {s : Shared V} {n : ℕ → ℕ} {o o' b : ℕ} {p q : V}

/-! ## Counts -/

theorem Counted.adopt (hs : Counted s) (hq : s.owner q = none) : Counted (s.adopt o q) := by
  constructor
  · intro b
    have hnew : ownerCount s.owner s.blocks = 0 := by
      refine Finset.card_eq_zero.2 (Finset.filter_eq_empty_iff.2 fun v _ hv => ?_)
      exact (hs.lt v _ hv).ne rfl
    simp only [Shared.adopt, Function.update_apply]
    rw [ownerCount_update_some hq]
    by_cases hb : b = s.blocks
    · rw [hb, if_pos rfl, if_pos rfl, hnew]
    · rw [if_neg hb, if_neg (Ne.symm hb), hs.count]
      rfl
  · intro v b hv
    simp only [Shared.adopt, Function.update_apply] at hv ⊢
    split_ifs at hv
    · cases hv
      exact Nat.lt_succ_self _
    · exact Nat.lt_succ_of_lt (hs.lt v b hv)

theorem Counted.share (hs : Counted s) (hq : s.owner q = none) (hb : b < s.blocks) :
    Counted (s.share b q) := by
  constructor
  · intro c
    simp only [Shared.share, Function.update_apply]
    rw [ownerCount_update_some hq]
    by_cases hc : c = b
    · rw [hc, if_pos rfl, if_pos rfl, hs.count]
    · rw [if_neg hc, if_neg (Ne.symm hc), hs.count]
      rfl
  · intro v c hv
    simp only [Shared.share, Function.update_apply] at hv ⊢
    split_ifs at hv
    · cases hv
      exact hb
    · exact hs.lt v c hv

theorem Counted.release (hs : Counted s) (hp : s.owner p = some b) : Counted (s.release b p) := by
  constructor
  · intro c
    simp only [Shared.release, Function.update_apply]
    rw [ownerCount_update_none hp]
    by_cases hc : c = b
    · rw [hc, if_pos rfl, if_pos rfl, hs.count]
    · rw [if_neg hc, if_neg (Ne.symm hc), hs.count]
      rfl
  · intro v c hv
    simp only [Shared.release, Function.update_apply] at hv ⊢
    split_ifs at hv
    exact hs.lt v c hv

/-! ## Live blocks -/

omit [Fintype V] in
theorem live_adopt_self : (s.adopt o q).live o = insert s.blocks (s.live o) := by
  ext b
  rw [Finset.mem_insert, mem_live, mem_live]
  simp only [Shared.adopt, Function.update_apply]
  by_cases hb : b = s.blocks
  · simp [hb]
  · rw [if_neg hb, if_neg hb, Nat.lt_succ_iff_lt_or_eq]
    simp [hb]

omit [Fintype V] in
theorem live_adopt_of_ne (ho : o' ≠ o) : (s.adopt o q).live o' = s.live o' := by
  ext b
  rw [mem_live, mem_live]
  simp only [Shared.adopt, Function.update_apply]
  by_cases hb : b = s.blocks
  · simp [hb, Ne.symm ho]
  · rw [if_neg hb, if_neg hb, Nat.lt_succ_iff_lt_or_eq]
    simp [hb]

omit [Fintype V] in
theorem live_share (hb : 0 < s.useCount b) : (s.share b q).live o = s.live o := by
  ext c
  rw [mem_live, mem_live]
  simp only [Shared.share, Function.update_apply]
  split_ifs with hc
  · simp [hc, hb]
  · rfl

omit [Fintype V] in
/-- The last owner of a block has gone. -/
theorem live_release_last (hb : s.useCount b = 1) :
    (s.release b p).live o = (s.live o).erase b := by
  ext c
  rw [Finset.mem_erase, mem_live, mem_live]
  simp only [Shared.release, Function.update_apply, hb]
  split_ifs with hc
  · simp [hc]
  · simp [hc]

omit [Fintype V] in
theorem live_release (hb : 1 < s.useCount b) : (s.release b p).live o = s.live o := by
  ext c
  rw [mem_live, mem_live]
  simp only [Shared.release, Function.update_apply]
  split_ifs with hc
  · subst hc
    rw [iff_of_true (Nat.sub_pos_of_lt hb) (Nat.zero_lt_of_lt hb)]
  · rfl

/-! ## Claims -/

/-- A new claim to an object. -/
def claim (n : ℕ → ℕ) (o : ℕ) : ℕ → ℕ := Function.update n o (n o + 1)

omit [DecidableEq V] in
theorem claimed_create (hs : Claimed n s) : Claimed n s.create :=
  ⟨⟨hs.count, hs.lt⟩, hs.claims⟩

theorem claimed_adopt (hs : Claimed n s) (hq : s.owner q = none) :
    Claimed (claim n o) (s.adopt o q) := by
  refine ⟨hs.toCounted.adopt hq, fun o' => ?_⟩
  by_cases ho : o' = o
  · subst ho
    rw [claim, Function.update_self, live_adopt_self, Finset.card_insert_of_notMem, hs.claims]
    · rfl
    · simp [mem_live]
  · rw [claim, Function.update_of_ne ho, live_adopt_of_ne ho, hs.claims]
    rfl

theorem claimed_share (hs : Claimed n s) (hp : s.owner p = some b) (hq : s.owner q = none) :
    Claimed n (s.share b q) := by
  refine ⟨hs.toCounted.share hq (hs.lt p b hp), fun o => ?_⟩
  rw [live_share (hs.useCount_pos hp)]
  exact hs.claims o

omit [DecidableEq V] in
theorem claimed_delete (hs : Claimed n s) (hd : s.dead o = false) :
    Claimed (claim n o) (s.delete o) := by
  rw [delete, hd, if_neg Bool.false_ne_true]
  refine ⟨⟨hs.count, hs.lt⟩, fun o' => ?_⟩
  by_cases ho : o' = o
  · subst ho
    have hc := hs.claims o'
    rw [hd] at hc
    simp only [claim, Function.update_self]
    rw [hc, Bool.toNat_false, Bool.toNat_true, Nat.zero_add, Nat.add_comm]
    rfl
  · simp only [claim, Function.update_of_ne ho]
    exact hs.claims o'

theorem claimed_release (hs : Claimed n s) (hp : s.owner p = some b) (hb : 1 < s.useCount b) :
    Claimed n (s.release b p) := by
  refine ⟨hs.toCounted.release hp, fun o => ?_⟩
  rw [live_release hb]
  exact hs.claims o

/-- The last owner of a block goes, and deletes the object. -/
theorem claimed_release_last (hs : Claimed n s) (hp : s.owner p = some b) (hb : s.useCount b = 1)
    (hd : s.dead (s.object b) = false) :
    Claimed n ((s.release b p).delete (s.object b)) := by
  have hdel : (s.release b p).dead (s.object b) = false := hd
  rw [delete, hdel, if_neg Bool.false_ne_true]
  have hr := hs.toCounted.release hp
  refine ⟨⟨hr.count, hr.lt⟩, fun o => ?_⟩
  change n o = (Function.update s.dead (s.object b) true o).toNat + ((s.release b p).live o).card
  rw [live_release_last hb, hs.claims]
  by_cases ho : o = s.object b
  · subst ho
    have hmem := hs.toCounted.mem_live hp
    have hpos := Finset.card_pos.2 ⟨b, hmem⟩
    rw [Function.update_self, hd, Bool.toNat_false, Bool.toNat_true, Finset.card_erase_of_mem hmem]
    omega
  · have hno : b ∉ s.live o := fun hm => ho (mem_live.1 hm).2.1.symm
    rw [Function.update_of_ne ho, Finset.erase_eq_of_notMem hno]

/-- **An owner goes.**  All is well, unless it is the last one of its block and
    the object had been deleted. -/
theorem claimed_drop (hs : Claimed n s) (hp : s.owner p = some b) :
    (Claimed n (s.drop p) ∧ (s.drop p).fault = s.fault) ∨
      (s.dead (s.object b) ∧ (s.drop p).fault = true) := by
  have hpos := hs.toCounted.useCount_pos hp
  have hcount : (s.release b p).useCount b = s.useCount b - 1 := Function.update_self ..
  have hdrop : s.drop p = if s.useCount b - 1 = 0 then (s.release b p).delete (s.object b)
      else s.release b p := by
    rw [drop, hp, ← hcount]
  rw [hdrop]
  split_ifs with hb
  · have hb1 : s.useCount b = 1 := by omega
    cases hd : s.dead (s.object b) with
    | true => exact .inr ⟨rfl, by simp [delete, release, hd]⟩
    | false => exact .inl ⟨claimed_release_last hs hp hb1 hd, by simp [delete, release, hd]⟩
  · exact .inl ⟨claimed_release hs hp (by omega), rfl⟩

omit [DecidableEq V] in
/-- An object with an owner has been claimed, and more than once if it is dead. -/
theorem Claimed.le_claims (hs : Claimed n s) (hp : s.owner p = some b) :
    (s.dead (s.object b)).toNat + 1 ≤ n (s.object b) := by
  rw [hs.claims]
  exact Nat.add_le_add_left (Finset.card_pos.2 ⟨b, hs.toCounted.mem_live hp⟩) _

end Shared

end CppExperiment
