/-
  The longest start of a list that fits.

  Every element takes some room.  `fit size n xs` goes through the list as long
  as the next element fits into what is left of `n`; it stops at the first one
  that does not, so that it is the longest start that fits (`prefix_fit`).
-/
import Mathlib

namespace CppExperiment

variable {α β : Type*}

/-- The room that a list takes. -/
def room (size : α → ℕ) (xs : List α) : ℕ := (xs.map size).sum

/-- The longest start of a list that takes at most the room `n`. -/
def fit (size : α → ℕ) : ℕ → List α → List α
  | _, [] => []
  | n, x :: xs => if size x ≤ n then x :: fit size (n - size x) xs else []

variable {size : α → ℕ} {n : ℕ} {x : α} {xs ys p : List α}

theorem room_cons : room size (x :: xs) = size x + room size xs := by
  rw [room, List.map_cons, List.sum_cons, room]

theorem fit_cons_of_le (h : size x ≤ n) : fit size n (x :: xs) = x :: fit size (n - size x) xs := by
  rw [fit, if_pos h]

theorem fit_cons_of_lt (h : n < size x) : fit size n (x :: xs) = [] := by
  rw [fit, if_neg (not_le.2 h)]

theorem fit_isPrefix (size : α → ℕ) (n : ℕ) (xs : List α) : fit size n xs <+: xs := by
  fun_induction fit size n xs with
  | case1 n => exact List.nil_prefix
  | case2 n x xs h ih => exact List.cons_prefix_cons.2 ⟨rfl, ih⟩
  | case3 n x xs h => exact List.nil_prefix

theorem room_fit_le (size : α → ℕ) (n : ℕ) (xs : List α) : room size (fit size n xs) ≤ n := by
  fun_induction fit size n xs with
  | case1 n => exact Nat.zero_le n
  | case2 n x xs h ih =>
    rw [room_cons]
    omega
  | case3 n x xs h => exact Nat.zero_le n

/-- **No longer start fits.** -/
theorem prefix_fit (h : p <+: xs) (hp : room size p ≤ n) : p <+: fit size n xs := by
  induction xs generalizing n p with
  | nil => exact h
  | cons x xs ih =>
    cases p with
    | nil => exact List.nil_prefix
    | cons y p =>
      obtain ⟨rfl, h'⟩ := List.cons_prefix_cons.1 h
      rw [room_cons] at hp
      rw [fit_cons_of_le (by omega)]
      exact List.cons_prefix_cons.2 ⟨rfl, ih h' (by omega)⟩

/-- A list that fits as a whole. -/
theorem fit_eq_self (h : room size xs ≤ n) : fit size n xs = xs :=
  (fit_isPrefix size n xs).eq_of_length_le (prefix_fit List.prefix_rfl h).length_le

theorem fit_map (f : β → α) (ys : List β) :
    fit size n (ys.map f) = (fit (size ∘ f) n ys).map f := by
  induction ys generalizing n with
  | nil => rfl
  | cons y ys ih =>
    rw [List.map_cons, fit, fit, ih]
    change (if size (f y) ≤ n then _ else _) = List.map f (if size (f y) ≤ n then _ else _)
    split_ifs <;> rfl

theorem fit_append (h : room size xs ≤ n) :
    fit size n (xs ++ ys) = xs ++ fit size (n - room size xs) ys := by
  induction xs generalizing n with
  | nil => rfl
  | cons x xs ih =>
    rw [room_cons] at h
    rw [List.cons_append, fit_cons_of_le (by omega), ih (by omega), room_cons, List.cons_append,
      Nat.sub_sub]

/-- Elements that take the room one each. -/
theorem fit_ones (h : ∀ x ∈ xs, size x = 1) (hn : n < xs.length) :
    fit size n (xs ++ ys) = xs.take n := by
  induction xs generalizing n with
  | nil => exact absurd hn (Nat.not_lt_zero n)
  | cons x xs ih =>
    have hx := h x List.mem_cons_self
    rw [List.cons_append]
    cases n with
    | zero => rw [fit_cons_of_lt (by omega), List.take_zero]
    | succ n =>
      rw [fit_cons_of_le (by omega), hx, Nat.add_sub_cancel, List.take_succ_cons,
        ih (fun y hy => h y (List.mem_cons_of_mem x hy)) (Nat.lt_of_succ_lt_succ hn)]

/-- What stands behind the start that fits: nothing, or an element that does
    not fit. -/
theorem exists_fit (size : α → ℕ) (n : ℕ) (xs : List α) :
    fit size n xs = xs ∨
      ∃ x ys, xs = fit size n xs ++ x :: ys ∧ n < room size (fit size n xs) + size x := by
  induction xs generalizing n with
  | nil => exact .inl rfl
  | cons x xs ih =>
    by_cases hx : size x ≤ n
    · rw [fit_cons_of_le hx, room_cons]
      rcases ih (n - size x) with h | ⟨y, ys, h, hlt⟩
      · exact .inl (by rw [h])
      · exact .inr ⟨y, ys, by rw [List.cons_append, ← h], by omega⟩
    · rw [fit_cons_of_lt (not_le.1 hx)]
      exact .inr ⟨x, xs, rfl, by rw [room, List.map_nil, List.sum_nil]; omega⟩

end CppExperiment
