/-
  `vector_test::TestRemove` (Standard/std_stl/CommContainer.hpp): the elements
  up to 10 are swapped behind the others and removed.

  The indices `front` and `back` walk towards each other, and the loop ends when
  they meet, without a look at the element there.  `testRemove_iff` says from
  which vectors exactly the small elements are removed, and what is left of the
  others.
-/
import CppExperiment.Lib.Sweep

namespace CppExperiment.CommContainer

/-- The vector and the two indices. -/
structure Scan where
  vec : List ℤ
  front : ℕ
  back : ℕ

/-- `i - 1` in the type `size_t` -/
def sizePred (i : ℕ) : ℕ := if i = 0 then 2 ^ 64 - 1 else i - 1

/-- The body of the `do` loop; `none` if it reads behind the vector. -/
def Scan.body (s : Scan) : Option Scan := do
  let x ← s.vec[s.front]?
  if x ≤ 10 then
    let y ← s.vec[s.back]?
    return ⟨(s.vec.set s.front y).set s.back x, s.front, sizePred s.back⟩
  else
    return { s with front := s.front + 1 }

/-- The `do` loop, with at most `n` rounds left. -/
def Scan.loop : (n : ℕ) → Scan → Option Scan
  | 0, _ => none
  | n + 1, s => do
    let s ← s.body
    if s.front < s.back then loop n s else return s

/-- `vec.pop_back()`, `n` times; a call on an empty vector is undefined. -/
def popBack : (n : ℕ) → List ℤ → Option (List ℤ)
  | 0, vec => some vec
  | n + 1, vec => if vec.isEmpty then none else popBack n vec.dropLast

/-- `*equal_range(vec, x).first`, if there is such an element -/
def equalRange (vec : List ℤ) (x : ℤ) : Option ℤ :=
  let first := vec.findIdx (x ≤ ·)
  let second := vec.findIdx (x < ·)
  if first ≠ second then vec[first]? else none

/-- The `size_t` that a size is after it was an `int`, as `nowsize` is. -/
def sizeOfInt (n : ℕ) : ℕ := (Int.bmod n (2 ^ 32) % 2 ^ 64).toNat

/-- `TestRemove()` with the elements `vec`: what it finds, and what it prints. -/
def testRemove (vec : List ℤ) : Option (Option ℤ × List ℤ) := do
  let s ← Scan.loop (vec.length + 1) ⟨vec, 0, sizePred vec.length⟩
  let nowsize := sizeOfInt s.vec.length
  let vec ← popBack (nowsize - (s.back + 1)) s.vec
  let vec := vec.insertionSort (· ≤ ·)
  return (equalRange vec 99, vec)

/-- The elements that `TestRemove` leaves. -/
def large (x : ℤ) : Bool := 10 < x

variable {vec cur done tail xs ys : List ℤ} {n i : ℕ} {x y b : ℤ}

/-! ## The loop -/

theorem getElem_behind (h : xs.length = i) : (xs ++ x :: ys)[i]? = some x := by
  rw [← h, List.getElem?_append_right le_rfl, Nat.sub_self, List.getElem?_cons_zero]

theorem set_behind (h : xs.length = i) : (xs ++ x :: ys).set i y = xs ++ y :: ys := by
  rw [← h, List.set_append_right _ _ le_rfl, Nat.sub_self, List.set_cons_zero]

/-- A large element stays in front. -/
theorem body_large (hx : large x = true) :
    Scan.body ⟨done ++ x :: xs, done.length, n⟩ = some ⟨done ++ x :: xs, done.length + 1, n⟩ := by
  have hx : ¬ x ≤ 10 := by simpa [large] using hx
  unfold Scan.body
  dsimp only
  rw [getElem_behind rfl, Option.bind_eq_bind, Option.bind_some, if_neg hx]
  rfl

/-- A small element changes places with the last one. -/
theorem body_small (hx : large x = false) :
    Scan.body ⟨done ++ x :: (xs ++ b :: tail), done.length, done.length + (xs.length + 1)⟩ =
      some ⟨done ++ b :: (xs ++ x :: tail), done.length, done.length + xs.length⟩ := by
  have hx : x ≤ 10 := by simpa [large] using hx
  have hsplit (y z : ℤ) : done ++ y :: (xs ++ z :: tail) = (done ++ y :: xs) ++ z :: tail := by simp
  have hlen (y : ℤ) : (done ++ y :: xs).length = done.length + (xs.length + 1) := by simp
  have hlast : (done ++ x :: (xs ++ b :: tail))[done.length + (xs.length + 1)]? = some b := by
    rw [hsplit, getElem_behind (hlen x)]
  have hswap : ((done ++ x :: (xs ++ b :: tail)).set done.length b).set
      (done.length + (xs.length + 1)) x = done ++ b :: (xs ++ x :: tail) := by
    rw [set_behind rfl, hsplit, set_behind (hlen b), ← hsplit]
  unfold Scan.body
  dsimp only
  rw [getElem_behind rfl, Option.bind_eq_bind, Option.bind_some, if_pos hx, hlast,
    Option.bind_some, hswap]
  rfl

/-- The loop over the elements `cur`, with `done` in front of them: the indices
    meet at the element that is not examined. -/
theorem loop_eq (cur done tail : List ℤ) (hn : cur.length ≤ n) (h2 : 2 ≤ cur.length) : ∃ dropped,
    Scan.loop n ⟨done ++ (cur ++ tail), done.length, done.length + (cur.length - 1)⟩ =
      some ⟨(done ++ sweepMeet large cur) ++ dropped,
        done.length + (sweepMeet large cur).length - 1,
        done.length + (sweepMeet large cur).length - 1⟩ := by
  induction n generalizing done cur tail with
  | zero => omega
  | succ n ih =>
    have hne : cur ≠ [] := List.ne_nil_of_length_pos (Nat.lt_of_succ_lt h2)
    obtain ⟨x, rest, rfl⟩ := List.exists_cons_of_ne_nil hne
    rcases List.eq_nil_or_concat rest with rfl | ⟨xs, b, rfl⟩
    · simp at h2
    rw [List.concat_eq_append] at hn h2 ⊢
    have hlen : (x :: (xs ++ [b])).length - 1 = xs.length + 1 := by simp
    rw [List.length_cons, List.length_append, List.length_singleton] at hn
    rw [hlen, Scan.loop]
    by_cases hx : large x = true
    · -- `front` goes on behind `x`
      have hvec : done ++ (x :: (xs ++ [b]) ++ tail) = done ++ x :: (xs ++ b :: tail) := by simp
      rw [hvec, body_large hx, Option.bind_eq_bind, Option.bind_some]
      dsimp only
      rw [sweepMeet_keep xs b hx]
      cases xs with
      | nil =>
        rw [if_neg (by simp)]
        refine ⟨tail, ?_⟩
        simp [pure]
      | cons y ys =>
        rw [if_pos (by simp)]
        obtain ⟨dropped, h⟩ := ih (y :: ys ++ [b]) (done ++ [x]) tail (by simpa using hn)
          (by simp)
        refine ⟨dropped, ?_⟩
        have hstate : (⟨done ++ x :: (y :: ys ++ b :: tail), done.length + 1,
            done.length + ((y :: ys).length + 1)⟩ : Scan) =
            ⟨(done ++ [x]) ++ (y :: ys ++ [b] ++ tail), (done ++ [x]).length,
              (done ++ [x]).length + ((y :: ys ++ [b]).length - 1)⟩ := by
          simp; omega
        rw [hstate, h]
        simp
    · -- `x` changes places with `b`, and `back` goes on
      rw [Bool.not_eq_true] at hx
      have hvec : done ++ (x :: (xs ++ [b]) ++ tail) = done ++ x :: (xs ++ b :: tail) := by simp
      rw [hvec, body_small hx, Option.bind_eq_bind, Option.bind_some]
      dsimp only
      rw [sweepMeet_drop xs b hx]
      cases xs with
      | nil =>
        rw [if_neg (by simp)]
        refine ⟨x :: tail, ?_⟩
        simp [pure]
      | cons y ys =>
        rw [if_pos (by simp)]
        obtain ⟨dropped, h⟩ := ih (b :: (y :: ys)) done (x :: tail) (by simpa using hn) (by simp)
        refine ⟨dropped, ?_⟩
        rw [← h]
        simp

/-- The rounds move the elements. -/
theorem length_body {s s' : Scan} (h : s.body = some s') : s'.vec.length = s.vec.length := by
  unfold Scan.body at h
  obtain ⟨x, -, h⟩ := Option.bind_eq_some_iff.1 h
  split_ifs at h
  · obtain ⟨y, -, h⟩ := Option.bind_eq_some_iff.1 h
    cases h
    rw [List.length_set, List.length_set]
  · cases h
    rfl

theorem length_loop {s s' : Scan} (h : s.loop n = some s') : s'.vec.length = s.vec.length := by
  induction n generalizing s with
  | zero => cases h
  | succ n ih =>
    obtain ⟨t, ht, h⟩ := Option.bind_eq_some_iff.1 h
    rw [← length_body ht]
    split_ifs at h
    · exact ih h
    · cases h
      rfl

/-! ## The elements that are left -/

theorem sizeOfInt_eq (h : n < 2 ^ 31) : sizeOfInt n = n := by
  unfold sizeOfInt
  rw [Int.bmod_eq_of_le (by omega) (by omega), Int.emod_eq_of_lt (by omega) (by omega),
    Int.toNat_natCast]

theorem popBack_append (tail : List ℤ) : popBack tail.length (vec ++ tail) = some vec := by
  induction tail using List.reverseRecOn generalizing vec with
  | nil => rw [List.append_nil]; rfl
  | append_singleton tail x ih =>
    rw [List.length_append, List.length_singleton, popBack, if_neg (by simp), ← List.append_assoc,
      List.dropLast_concat, ih]

/-- The first of the elements that equal `x`, in a sorted vector. -/
theorem equalRange_eq (h : vec.Pairwise (· ≤ ·)) :
    equalRange vec x = if x ∈ vec then some x else none := by
  induction vec with
  | nil => rfl
  | cons y vec ih =>
    rw [List.pairwise_cons] at h
    unfold equalRange at ih ⊢
    rcases lt_trichotomy y x with hlt | rfl | hgt
    · have hx : (x ∈ y :: vec) = (x ∈ vec) := by simp [hlt.ne']
      simp only [hx, ← ih h.2, List.findIdx_cons, decide_eq_false hlt.not_ge,
        decide_eq_false hlt.not_gt, cond_false, List.getElem?_cons_succ, ne_eq,
        Nat.add_right_cancel_iff]
    · simp [List.findIdx_cons]
    · have hx : x ∉ y :: vec := by
        rw [List.mem_cons, not_or]
        exact ⟨hgt.ne, fun hmem => (h.1 x hmem).not_gt hgt⟩
      rw [if_neg hx]
      simp [List.findIdx_cons, hgt, hgt.le]

/-- `TestRemove` of two elements or more. -/
theorem testRemove_eq (h2 : 2 ≤ vec.length) (hlen : vec.length < 2 ^ 31) :
    testRemove vec = some (if 99 ∈ sweepMeet large vec then some 99 else none,
      (sweepMeet large vec).insertionSort (· ≤ ·)) := by
  have hne : vec ≠ [] := List.ne_nil_of_length_pos (Nat.lt_of_succ_lt h2)
  obtain ⟨ys, r, hys, -⟩ := sweepMeet_eq large hne
  have hpred : sizePred vec.length = vec.length - 1 := if_neg (by omega)
  obtain ⟨dropped, h⟩ := loop_eq vec [] [] (Nat.le_succ vec.length) h2
  rw [List.append_nil, List.nil_append, List.nil_append, List.length_nil, Nat.zero_add,
    Nat.zero_add] at h
  have hsize : (sweepMeet large vec ++ dropped).length = vec.length := length_loop h
  have hback : (sweepMeet large vec).length - 1 + 1 = (sweepMeet large vec).length := by simp [hys]
  unfold testRemove
  rw [hpred, h, Option.bind_eq_bind, Option.bind_some]
  dsimp only
  rw [hback, sizeOfInt_eq (by rw [hsize]; exact hlen), List.length_append,
    Nat.add_sub_cancel_left, popBack_append, Option.bind_eq_bind, Option.bind_some,
    equalRange_eq (List.pairwise_insertionSort _ _)]
  simp only [List.mem_insertionSort]
  rfl

/-- `TestRemove` of one element: a small one changes places with itself, and
    then with what stands behind all indices. -/
theorem testRemove_one (x : ℤ) : testRemove [x] =
    if large x then some (if 99 ∈ [x] then some 99 else none, [x]) else none := by
  by_cases hx : large x = true
  · have hbody : Scan.body ⟨[x], 0, 0⟩ = some ⟨[x], 1, 0⟩ := @body_large [] [] 0 x hx
    have hsize : sizeOfInt 1 - 1 = 0 := rfl
    rw [if_pos hx]
    simp [testRemove, sizePred, Scan.loop, hbody, hsize, popBack,
      equalRange_eq (List.pairwise_singleton _ _)]
  · have hx' : x ≤ 10 := by simpa [large] using hx
    have hbody : Scan.body ⟨[x], 0, 0⟩ = some ⟨[x], 0, 18446744073709551615⟩ := by
      simp [Scan.body, hx', sizePred]
    have hnext : Scan.body ⟨[x], 0, 18446744073709551615⟩ = none := by simp [Scan.body, hx']
    rw [if_neg hx]
    simp [testRemove, sizePred, Scan.loop, hbody, hnext]

/-- What the sweep leaves is sorted, in whatever order it was left. -/
theorem testRemove_perm (h2 : 2 ≤ vec.length) (hlen : vec.length < 2 ^ 31)
    (hperm : (sweepMeet large vec).Perm ys) (h99 : 99 ∈ ys ↔ 99 ∈ vec) :
    testRemove vec = some (if 99 ∈ vec then some 99 else none, ys.insertionSort (· ≤ ·)) := by
  have hsort : (sweepMeet large vec).insertionSort (· ≤ ·) = ys.insertionSort (· ≤ ·) := by
    refine List.Perm.eq_of_pairwise' (List.pairwise_insertionSort _ _)
      (List.pairwise_insertionSort _ _) ?_
    exact (List.perm_insertionSort _ _).trans (hperm.trans (List.perm_insertionSort _ _).symm)
  rw [testRemove_eq h2 hlen, hsort, if_congr (hperm.mem_iff.trans h99) rfl rfl]

/-- From two elements or more a small one stays besides the large ones, unless
    the vector is safe. -/
theorem testRemove_unsafe (h2 : 2 ≤ vec.length) (hlen : vec.length < 2 ^ 31)
    (hsafe : ¬ MeetSafe large vec) : ∃ r ∈ vec, r ≤ 10 ∧
      testRemove vec = some (if 99 ∈ vec then some 99 else none,
        (r :: vec.filter large).insertionSort (· ≤ ·)) := by
  have hne : vec ≠ [] := List.ne_nil_of_length_pos (Nat.lt_of_succ_lt h2)
  obtain ⟨r, hmem, hr, hperm⟩ := sweepMeet_perm_cons hne hsafe
  have hr : r ≤ 10 := by simpa [large] using hr
  refine ⟨r, hmem, hr, testRemove_perm h2 hlen hperm ?_⟩
  rw [List.mem_cons, List.mem_filter, or_iff_right (by omega)]
  exact and_iff_left (by decide)

/-- **When `TestRemove` removes the small elements.**  It prints the elements
    above 10 in order, having found 99 among them or not, exactly if the vector
    has elements and the one behind as many as are above 10, if there is one, is
    above 10 itself.  Otherwise it prints a small element besides, or it reads
    outside a vector of one element or none. -/
theorem testRemove_iff (hlen : vec.length < 2 ^ 31) :
    (testRemove vec = some (if 99 ∈ vec then some 99 else none,
        (vec.filter large).insertionSort (· ≤ ·)) ↔
      vec ≠ [] ∧ ∀ x ∈ vec[(vec.filter large).length]?, 10 < x) ∧
    (¬ (vec ≠ [] ∧ ∀ x ∈ vec[(vec.filter large).length]?, 10 < x) →
      (vec.length ≤ 1 ∧ testRemove vec = none) ∨
      (2 ≤ vec.length ∧ ∃ r ∈ vec, r ≤ 10 ∧
        testRemove vec = some (if 99 ∈ vec then some 99 else none,
          (r :: vec.filter large).insertionSort (· ≤ ·)))) := by
  have hsafe : (∀ x ∈ vec[(vec.filter large).length]?, 10 < x) ↔ MeetSafe large vec := by
    simp only [MeetSafe, large, decide_eq_true_iff]
  rw [hsafe]
  rcases vec with _ | ⟨x, _ | ⟨y, vec⟩⟩
  · simp [show testRemove [] = none from rfl]
  · rw [testRemove_one, ← sweepMeet_perm_iff (List.cons_ne_nil _ _), sweepMeet_singleton]
    by_cases hx : large x = true
    · simp [hx, eq_comm]
    · simp [hx]
  · have h2 : 2 ≤ (x :: y :: vec).length := by simp
    constructor
    · constructor
      · intro h
        rw [testRemove_eq h2 hlen, Option.some.injEq, Prod.mk.injEq] at h
        have hperm := List.perm_insertionSort (· ≤ ·) (sweepMeet large (x :: y :: vec))
        rw [h.2] at hperm
        refine ⟨List.cons_ne_nil _ _, ?_⟩
        rw [← sweepMeet_perm_iff (List.cons_ne_nil _ _)]
        exact hperm.symm.trans (List.perm_insertionSort _ _)
      · rintro ⟨hne, hmeet⟩
        refine testRemove_perm h2 hlen ((sweepMeet_perm_iff hne).2 hmeet) ?_
        rw [List.mem_filter]
        exact and_iff_left (by decide)
    · intro hno
      have hunsafe : ¬ MeetSafe large (x :: y :: vec) := fun h => hno ⟨List.cons_ne_nil _ _, h⟩
      exact .inr ⟨h2, testRemove_unsafe h2 hlen hunsafe⟩

/-- The elements of the source: 25 stands behind five elements. -/
theorem testRemove_iff_source : testRemove [10, 20, 5, 14, 3, 25, 9, 99, 204, 0] =
    some (some 99, [14, 20, 25, 99, 204]) :=
  (testRemove_iff (by decide)).1.2 ⟨by decide, by decide⟩

end CppExperiment.CommContainer
