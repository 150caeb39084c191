/-
  An index loop that erases elements of the list it walks through.

  The loop looks at the element at its index, erases it if it has `p`, and then
  increases the index in any case: the element behind an erased one has moved to
  the old index and is passed over.

  `eraseSkip` is what the loop leaves, `lookedAt` the elements it looks at.
  `eraseSkip_clean_iff`: no element with `p` is left iff no two neighbours had
  it.
-/
import Mathlib

namespace CppExperiment

variable {α : Type*} (p : α → Bool)

/-- What the loop leaves. -/
def eraseSkip : List α → List α
  | [] => []
  | [x] => if p x then [] else [x]
  | x :: y :: xs => if p x then y :: eraseSkip xs else x :: eraseSkip (y :: xs)

/-- The elements that the loop looks at. -/
def lookedAt : List α → List α
  | [] => []
  | [x] => [x]
  | x :: y :: xs => if p x then x :: lookedAt xs else x :: lookedAt (y :: xs)

variable {p} {x y : α} {xs l : List α}

theorem eraseSkip_pos (h : p x) : eraseSkip p (x :: y :: xs) = y :: eraseSkip p xs := by
  rw [eraseSkip, if_pos h]

theorem eraseSkip_neg (h : ¬ p x) : eraseSkip p (x :: xs) = x :: eraseSkip p xs := by
  cases xs with
  | nil => simp [eraseSkip, h]
  | cons y ys => rw [eraseSkip, if_neg h]

theorem lookedAt_pos (h : p x) : lookedAt p (x :: y :: xs) = x :: lookedAt p xs := by
  rw [lookedAt, if_pos h]

theorem lookedAt_neg (h : ¬ p x) : lookedAt p (x :: xs) = x :: lookedAt p xs := by
  cases xs with
  | nil => rw [lookedAt, lookedAt]
  | cons y ys => rw [lookedAt, if_neg h]

/-- **Nothing with `p` is left** iff no two neighbours had it. -/
theorem eraseSkip_clean_iff :
    (∀ x ∈ eraseSkip p l, ¬ p x) ↔ l.IsChain fun x y => ¬ (p x ∧ p y) := by
  fun_induction eraseSkip p l with
  | case1 => simp
  | case2 x h => simp
  | case3 x h => simp [h]
  | case4 x y xs h ih =>
    rw [List.forall_mem_cons, ih, List.isChain_cons_cons]
    constructor
    · rintro ⟨hy, hxs⟩
      exact ⟨fun hxy => hy hxy.2, hxs.cons fun z _ hyz => hy hyz.1⟩
    · rintro ⟨hxy, hxs⟩
      exact ⟨fun hy => hxy ⟨h, hy⟩, hxs.tail⟩
  | case5 x y xs h ih =>
    rw [List.forall_mem_cons, ih, List.isChain_cons_cons]
    simp [h]

end CppExperiment
