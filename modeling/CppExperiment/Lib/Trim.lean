/-
  Texts without the letters `c` at their ends.

  A program finds out where the letters at one end stop (`exists_front`,
  `exists_back`); `trim_front`, `trim_back` and `trim_eq_self` say that taking
  them away, at both ends and in any order, leaves `trim c s`.
-/
import Mathlib

namespace CppExperiment

variable {α : Type*}

section
variable (c : α) (s : List α)

/-- The letters at the start. -/
theorem exists_front : ∃ k t, s = List.replicate k c ++ t ∧ t.head? ≠ some c := by
  induction s with
  | nil => exact ⟨0, [], rfl, nofun⟩
  | cons d s ih =>
    by_cases hd : d = c
    · obtain ⟨k, t, rfl, ht⟩ := ih
      exact ⟨k + 1, t, by rw [hd, List.replicate_succ, List.cons_append], ht⟩
    · exact ⟨0, d :: s, rfl, fun h => hd (Option.some_inj.1 h)⟩

/-- The letters at the end. -/
theorem exists_back : ∃ t k, s = t ++ List.replicate k c ∧ t.getLast? ≠ some c := by
  obtain ⟨k, t, ht, hhead⟩ := exists_front c s.reverse
  refine ⟨t.reverse, k, ?_, by rwa [List.getLast?_reverse]⟩
  rw [← List.reverse_inj, List.reverse_append, List.reverse_reverse, List.reverse_replicate, ht]

end

variable [DecidableEq α] {c : α} {s : List α}

/-- The text without the letters `c` at its start and at its end. -/
def trim (c : α) (s : List α) : List α := (s.dropWhile (· = c)).rdropWhile (· = c)

theorem takeWhile_front (k : ℕ) (h : s.head? ≠ some c) :
    (List.replicate k c ++ s).takeWhile (· = c) = List.replicate k c := by
  have hall : ∀ d ∈ List.replicate k c, decide (d = c) = true :=
    fun d hd => decide_eq_true (List.eq_of_mem_replicate hd)
  rw [List.takeWhile_append_of_pos hall]
  cases s with
  | nil => rw [List.takeWhile_nil, List.append_nil]
  | cons d s =>
    have hd : d ≠ c := fun hdc => h (by rw [hdc]; rfl)
    rw [List.takeWhile_cons_of_neg (by simpa using hd), List.append_nil]

theorem trim_front (k : ℕ) (s : List α) : trim c (List.replicate k c ++ s) = trim c s := by
  rw [trim, List.dropWhile_append_of_pos, trim]
  intro d hd
  exact decide_eq_true (List.eq_of_mem_replicate hd)

theorem rdropWhile_back (k : ℕ) (s : List α) :
    (s ++ List.replicate k c).rdropWhile (· = c) = s.rdropWhile (· = c) := by
  induction k with
  | zero => rw [List.replicate_zero, List.append_nil]
  | succ k ih =>
    rw [List.replicate_succ', ← List.append_assoc, List.rdropWhile_concat_pos _ _ _ (by simp), ih]

theorem trim_back (k : ℕ) (s : List α) : trim c (s ++ List.replicate k c) = trim c s := by
  rw [trim, List.dropWhile_append, trim]
  split_ifs with h
  · -- there is no other letter
    rw [List.isEmpty_iff] at h
    rw [h, List.dropWhile_replicate, if_pos (by simp)]
  · exact rdropWhile_back k _

theorem trim_eq_self (hhead : s.head? ≠ some c) (hlast : s.getLast? ≠ some c) : trim c s = s := by
  have hfront : s.dropWhile (· = c) = s := by
    cases s with
    | nil => rfl
    | cons d s =>
      have hd : d ≠ c := fun h => hhead (by rw [h]; rfl)
      rw [List.dropWhile_cons_of_neg (by simpa using hd)]
  rw [trim, hfront, List.rdropWhile_eq_self_iff]
  intro hs h
  rw [decide_eq_true_eq] at h
  exact hlast (by rw [List.getLast?_eq_some_getLast hs, h])

theorem trim_of_notMem (h : c ∉ s) : trim c s = s :=
  trim_eq_self (fun hc => h (List.mem_of_head? hc)) fun hc => h (List.mem_of_getLast? hc)

/-- A text that does not end with the letter consists of it only if it is
    empty. -/
theorem trim_eq_nil (hlast : s.getLast? ≠ some c) : trim c s = [] ↔ s = [] := by
  constructor
  · intro h
    obtain ⟨k, t, rfl, hhead⟩ := exists_front c s
    have ht : t = [] := by
      by_contra ht
      rw [trim_front, trim_eq_self hhead] at h
      · exact ht h
      · rwa [List.getLast?_append_of_ne_nil _ ht] at hlast
    subst ht
    cases k with
    | zero => rfl
    | succ k =>
      refine absurd ?_ hlast
      rw [List.append_nil, List.replicate_succ', List.getLast?_concat]
  · rintro rfl
    rfl

end CppExperiment
