/-
  `str::Left` and `str::Right` in CommonTools/StringFunc.cc.

  The length is an `int`: a negative one is a huge `size_t` for `substr`.

  * `left_eq`, `right_eq`: the text that is returned, and where `Right` throws.
  * `left_right_iff`: when a left and a right part make up the string.
-/
import CppExperiment.StringFunc.ReplaceByDelim

namespace CppExperiment.StringFunc
open StdString

/-- `Left(src, length)` -/
def left (src : Str) (length : ℤ) : Option Str :=
  if STD.toInt src.length ≤ length then some src else substr src 0 (toSize length)

/-- `Right(src, length)` -/
def right (src : Str) (length : ℤ) : Option Str :=
  if STD.toInt src.length ≤ length then some src
  else substr src (toSize (src.length - length)) (toSize length)

variable {src : Str} {length k : ℤ}

/-- A negative length leaves the whole string. -/
theorem left_eq (hsrc : src.length < 2 ^ 31) (hlo : -2 ^ 31 ≤ length) (hhi : length < 2 ^ 31) :
    left src length = some (if length < 0 then src else src.take length.toNat) := by
  rw [left, STD.toInt_eq (by omega) (by omega)]
  by_cases hle : (src.length : ℤ) ≤ length
  · rw [if_pos hle, if_neg (by omega), List.take_of_length_le (by omega)]
  · rw [if_neg hle, substr, if_pos (Nat.zero_le _), List.drop_zero, toSize]
    by_cases hneg : length < 0
    · rw [if_pos hneg, List.take_of_length_le (by omega)]
    · rw [if_neg hneg, Int.emod_eq_of_lt (by omega) (by omega)]

/-- With a negative length, `Right` throws. -/
theorem right_eq (hsrc : src.length < 2 ^ 31) (hlo : -2 ^ 31 ≤ length) (hhi : length < 2 ^ 31) :
    right src length =
      if length < 0 then none else some (src.drop (src.length - length.toNat)) := by
  rw [right, STD.toInt_eq (by omega) (by omega)]
  by_cases hle : (src.length : ℤ) ≤ length
  · rw [if_pos hle, if_neg (by omega), Nat.sub_eq_zero_of_le (by omega), List.drop_zero]
  · rw [if_neg hle, substr, toSize, toSize, Int.emod_eq_of_lt (by omega) (by omega)]
    by_cases hneg : length < 0
    · rw [if_pos hneg, if_neg (by omega)]
    · rw [if_neg hneg, if_pos (by omega), Int.emod_eq_of_lt (by omega) (by omega),
        List.take_of_length_le (by rw [List.length_drop]; omega)]
      congr 2
      omega

/-- **When a left and a right part make up the string**: where the cut is in the
    string. -/
theorem left_right_iff (hsrc : src.length < 2 ^ 31) (hlo : -2 ^ 31 ≤ k) (hhi : k < 2 ^ 31)
    (hrest : (src.length : ℤ) - k < 2 ^ 31) :
    (∃ u v, left src k = some u ∧ right src (src.length - k) = some v ∧ u ++ v = src) ↔
      0 ≤ k ∧ k ≤ src.length ∨ k < 0 ∧ src = [] := by
  rw [left_eq hsrc hlo hhi, right_eq hsrc (by omega) hrest]
  rcases lt_or_ge k 0 with hneg | h0
  · -- the whole string, twice
    rw [if_pos hneg, if_neg (by omega), Nat.sub_eq_zero_of_le (by omega), List.drop_zero]
    constructor
    · rintro ⟨u, v, hu, hv, huv⟩
      cases hu
      cases hv
      have hlen := congrArg List.length huv
      rw [List.length_append] at hlen
      exact .inr ⟨hneg, List.eq_nil_of_length_eq_zero (by omega)⟩
    · rintro (h | ⟨-, rfl⟩)
      · omega
      · exact ⟨[], [], rfl, rfl, rfl⟩
  · rw [if_neg (by omega)]
    by_cases hle : k ≤ src.length
    · have hcut : src.length - (src.length - k).toNat = k.toNat := by omega
      rw [if_neg (by omega), hcut]
      exact iff_of_true ⟨_, _, rfl, rfl, List.take_append_drop _ _⟩ (.inl ⟨h0, hle⟩)
    · rw [if_pos (by omega)]
      refine iff_of_false ?_ (by omega)
      rintro ⟨u, v, -, hv, -⟩
      cases hv

end CppExperiment.StringFunc
