/-
  `pobo::CachePool` (CommonTools/PbCachePool.h): a memory pool that leaves
  large blocks to `malloc`.

  `Allocate` takes the size as a `size_t`, `Deallocate` as an `int`, and both
  compare it with the template parameter `ChunkBlockSize`.

  `blocks_routed_iff`: throughout a run, the blocks returned go back to the allocator
  they came from iff each of their sizes is at most `ChunkBlockSize`, or still
  larger than it as an `int`.
-/
import CppExperiment.Lib.Run

namespace CppExperiment.Pobo.CachePool

/-- The template parameter `int ChunkBlockSize`; there are no arrays without
    elements. -/
structure ChunkBlockSize where
  val : ℤ
  pos : 0 < val
  int : val < 2 ^ 31

/-- The two allocators below the class. -/
inductive Source
  | malloc
  | pool
  deriving DecidableEq

/-- An `int` as a `size_t`. -/
def toSizeT (n : ℤ) : ℤ := n % 2 ^ 64

/-- A `size_t` as an `int`. -/
def toInt (n : UInt64) : ℤ := Int.bmod n.toNat (2 ^ 32)

variable {B : Type} [DecidableEq B] (C : ChunkBlockSize)

/-- `Allocate(size)`: the allocator that it asks. -/
def allocate (size : UInt64) : Source :=
  if size.toNat > toSizeT C.val then .malloc else .pool

omit [DecidableEq B] in
/-- `Deallocate(cache, size)`: the allocator that gets `cache`, if any does. -/
def deallocate (cache : Option B) (size : ℤ) : Option Source :=
  if size > C.val then if cache.isSome then some .malloc else none
  else some .pool

/-- The blocks in use: where they come from, and the size that was asked for. -/
abbrev Blocks (B : Type) := B → Option (Source × UInt64)

/-- The calls of the users. -/
inductive Call (B : Type)
  /-- `Allocate(n)` has returned the block `p` -/
  | allocate (p : B) (n : UInt64)
  | deallocate (p : B) (n : UInt64)

/-- One call; blocks in use are not handed out again, and a block is returned
    with the size that was asked for. -/
def step (s : Blocks B) : Call B → Option (Blocks B)
  | .allocate p n =>
    if s p = none then some (Function.update s p (some (allocate C n, n))) else none
  | .deallocate p n =>
    if (s p).map Prod.snd = some n then some (Function.update s p none) else none

/-- The block returned is handed to the allocator that it came from. -/
def Routed (s : Blocks B) : Call B → Prop
  | .deallocate p n => deallocate C (some p) (toInt n) = (s p).map Prod.fst
  | .allocate _ _ => True

/-- The size of the block returned is not large, or large as an `int` as well. -/
def Fits (_ : Blocks B) : Call B → Prop
  | .deallocate _ n => n.toNat ≤ C.val ∨ C.val < toInt n
  | .allocate _ _ => True

/-! ## Sizes -/

theorem toSizeT_eq : toSizeT C.val = C.val := by
  have := C.pos
  have := C.int
  rw [toSizeT]
  omega

theorem toInt_eq {n : UInt64} (h : n.toNat < 2 ^ 31) : toInt n = n.toNat := by
  unfold toInt
  exact Int.bmod_eq_of_le (by omega) (by omega)

omit [DecidableEq B] in
/-- **One block**: the two comparisons agree. -/
theorem deallocate_allocate_iff (p : B) (n : UInt64) :
    deallocate C (some p) (toInt n) = some (allocate C n) ↔
      n.toNat ≤ C.val ∨ C.val < toInt n := by
  have hC := C.int
  unfold deallocate allocate
  rw [toSizeT_eq]
  by_cases hn : (n.toNat : ℤ) ≤ C.val
  · have hi : toInt n = n.toNat := toInt_eq (by omega)
    rw [if_neg (by omega), if_neg (by omega)]
    simp [hn]
  · rw [if_pos (show (n.toNat : ℤ) > C.val by omega)]
    by_cases hi : C.val < toInt n <;> simp [hn, hi]

/-! ## Runs -/

/-- Every block in use comes from the allocator that its size stands for. -/
def Known (s : Blocks B) : Prop := ∀ p x, s p = some x → x.1 = allocate C x.2

variable {C} {s t : Blocks B} {a : Call B}

/-- A block comes, from the allocator that its size stands for, or goes. -/
theorem Known.update (hi : Known C s) (p : B) {x : Option (Source × UInt64)}
    (hx : ∀ y, x = some y → y.1 = allocate C y.2) : Known C (Function.update s p x) :=
  (Function.forall_update_iff s fun _ z => ∀ y, z = some y → y.1 = allocate C y.2).2
    ⟨hx, fun q _ => hi q⟩

theorem Known.step (hi : Known C s) (hs : step C s a = some t) : Known C t := by
  cases a with
  | allocate p n =>
    obtain ⟨-, ht⟩ := Option.ite_none_right_eq_some.1 hs
    rw [← Option.some.inj ht]
    refine hi.update p ?_
    rintro _ ⟨⟩
    rfl
  | deallocate p n =>
    obtain ⟨-, ht⟩ := Option.ite_none_right_eq_some.1 hs
    rw [← Option.some.inj ht]
    exact hi.update p nofun

/-- The block is routed back iff its size fits. -/
theorem Known.routed_iff (hi : Known C s) (hs : CachePool.step C s a = some t) :
    Routed C s a ↔ Fits C s a := by
  cases a with
  | allocate p n => exact Iff.rfl
  | deallocate p n =>
    obtain ⟨hp, -⟩ := Option.ite_none_right_eq_some.1 hs
    obtain ⟨x, hx, rfl⟩ := Option.map_eq_some_iff.1 hp
    have hsrc := hi p x hx
    rw [Routed, hx, Option.map_some, hsrc]
    exact deallocate_allocate_iff C p x.2

/-- **Routing.**  In every run of allocations and deallocations, each block
    returned goes to the allocator that it came from iff each size is at most
    `ChunkBlockSize` or, converted to `int`, larger. -/
theorem blocks_routed_iff {h : List (Blocks B × Call B)}
    (hr : Run (CachePool.step C) (fun _ => none) h s) : Steps (Routed C) h ↔ Steps (Fits C) h := by
  refine hr.steps_iff (I := Known C) ?_ ?_ ?_
  · intro p x hx
    cases hx
  · intro s a t hi hs
    exact hi.step hs
  · intro s a t hi hs
    exact hi.routed_iff hs

/-- The parameter of a pool of 1024 bytes. -/
def kilobyte : ChunkBlockSize := ⟨1024, by decide, by decide⟩

/-- The history that takes one block of the size `n` and returns it. -/
def oneBlock (n : UInt64) : List (Blocks ℕ × Call ℕ) :=
  [(Function.update (fun _ => none) 0 (some (allocate kilobyte n, n)), .deallocate 0 n),
    (fun _ => none, .allocate 0 n)]

theorem oneBlock_run (n : UInt64) :
    ∃ t, Run (CachePool.step kilobyte) (fun _ => none) (oneBlock n) t :=
  ⟨_, (RunOf.nil.snoc rfl).snoc (by rw [CachePool.step, if_pos (by simp)])⟩

/-- The largest `int` fits. -/
theorem blocks_routed_largest : ∃ t,
    Run (CachePool.step kilobyte) (fun _ => none) (oneBlock (2 ^ 31 - 1)) t ∧
      Steps (Routed kilobyte) (oneBlock (2 ^ 31 - 1)) := by
  obtain ⟨t, hr⟩ := oneBlock_run (2 ^ 31 - 1)
  refine ⟨t, hr, (blocks_routed_iff hr).2 ?_⟩
  intro x hx
  simp only [oneBlock, List.mem_cons, List.not_mem_nil, or_false] at hx
  rcases hx with rfl | rfl
  · exact .inr (by decide)
  · trivial

/-- A block of 2 GiB comes from `malloc` and goes to the pool. -/
theorem large_block_to_pool : ¬ ∀ (C : ChunkBlockSize) (h : List (Blocks ℕ × Call ℕ))
    (s : Blocks ℕ), Run (CachePool.step C) (fun _ => none) h s → Steps (Routed C) h := by
  intro hall
  obtain ⟨t, hr⟩ := oneBlock_run (2 ^ 31)
  have hx := hall kilobyte _ t hr _ List.mem_cons_self
  exact absurd ((deallocate_allocate_iff kilobyte 0 (2 ^ 31)).1 hx) (by decide)

end CppExperiment.Pobo.CachePool
