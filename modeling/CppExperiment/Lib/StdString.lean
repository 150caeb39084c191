/-
  `std::string` and `std::string_view`.

  A string is a list; `none` is `npos` for a search and the exception
  `std::out_of_range` for `substr`.  `findFirstOf_mem` and
  `findFirstOf_notMem` say where the search for a character ends in a text cut
  at that character.  `findStr` is the search for a text: it ends at the first
  occurrence (`findStr_first`); `findStr_eq_zero` says when it ends at once.
  `rfindStr` is the search from the end (`rfindStr_suffix`, `rfindStrFrom_some`).
-/
import CppExperiment.Lib.Replace
import CppExperiment.Lib.Split

namespace CppExperiment.StdString

variable {α : Type*} [DecidableEq α] {c : α} {s t u r : List α} {pos : ℕ}

/-- `s.find_first_of(c, pos)` -/
def findFirstOf (s : List α) (c : α) (pos : ℕ) : Option ℕ :=
  ((s.drop pos).findIdx? (· = c)).map (pos + ·)

/-- `s.find_first_not_of(c)` -/
def findFirstNotOf (s : List α) (c : α) : Option ℕ := s.findIdx? (· ≠ c)

/-- `s.find_last_not_of(c)` -/
def findLastNotOf (s : List α) (c : α) : Option ℕ :=
  (findFirstNotOf s.reverse c).map (s.length - 1 - ·)

/-- `s.substr(pos, n)` -/
def substr (s : List α) (pos n : ℕ) : Option (List α) :=
  if pos ≤ s.length then some ((s.drop pos).take n) else none

/-- `s.substr(pos)` -/
def substrFrom (s : List α) (pos : ℕ) : Option (List α) :=
  if pos ≤ s.length then some (s.drop pos) else none

/-- `s.insert(pos, n, c)` -/
def insert (s : List α) (pos n : ℕ) (c : α) : Option (List α) :=
  if pos ≤ s.length then some (s.take pos ++ (List.replicate n c ++ s.drop pos)) else none

omit [DecidableEq α] in
/-- The text from `pos` to the next separator. -/
theorem substr_to (h : s.drop pos = u ++ c :: r) :
    substr s pos (pos + u.length - pos) = some u := by
  have hpos := le_behind h
  rw [substr, if_pos (by omega), Nat.add_sub_cancel_left, h, List.take_left]

omit [DecidableEq α] in
/-- The text from `pos` to the end. -/
theorem substr_rest (hpos : pos ≤ s.length) :
    substr s pos (s.length - pos) = some (s.drop pos) := by
  rw [substr, if_pos hpos, ← List.length_drop, List.take_length]

theorem findIdx?_notMem (h : c ∉ s) : s.findIdx? (· = c) = none := by
  rw [List.findIdx?_eq_none_iff]
  intro x hx
  rw [decide_eq_false_iff_not]
  rintro rfl
  exact h hx

/-- The character does not stand behind `pos`. -/
theorem findFirstOf_notMem (h : c ∉ s.drop pos) : findFirstOf s c pos = none := by
  rw [findFirstOf, findIdx?_notMem h, Option.map_none]

/-- The first character behind `pos` stands behind `u`. -/
theorem findFirstOf_mem (hu : c ∉ u) (h : s.drop pos = u ++ c :: r) :
    findFirstOf s c pos = some (pos + u.length) := by
  rw [findFirstOf, h, List.findIdx?_append, findIdx?_notMem hu, List.findIdx?_cons]
  simp

/-- The search for another letter ends behind the letters `c`, if there is one. -/
theorem findFirstNotOf_front (k : ℕ) (h : t.head? ≠ some c) :
    findFirstNotOf (List.replicate k c ++ t) c = if t = [] then none else some k := by
  have hnone : (List.replicate k c).findIdx? (· ≠ c) = none := by
    rw [List.findIdx?_eq_none_iff]
    intro x hx
    rw [decide_eq_false_iff_not, not_not]
    exact List.eq_of_mem_replicate hx
  rw [findFirstNotOf, List.findIdx?_append, hnone, Option.none_or, List.length_replicate]
  cases t with
  | nil => rfl
  | cons d t =>
    have hd : d ≠ c := fun hdc => h (by rw [hdc]; rfl)
    rw [List.findIdx?_cons, if_pos (decide_eq_true hd), if_neg (List.cons_ne_nil d t),
      Option.map_some, Nat.zero_add]

theorem findLastNotOf_back (k : ℕ) (h : t.getLast? ≠ some c) :
    findLastNotOf (t ++ List.replicate k c) c =
      if t = [] then none else some (t.length - 1) := by
  rw [findLastNotOf, List.reverse_append, List.reverse_replicate,
    findFirstNotOf_front k (by rwa [List.head?_reverse])]
  simp only [List.reverse_eq_nil_iff]
  split_ifs with ht
  · rfl
  · rw [Option.map_some, List.length_append, List.length_replicate, Option.some_inj]
    omega

/-- `s.find(t)` -/
def findStr (s t : List α) : Option ℕ :=
  (List.range (s.length + 1)).find? fun pos => t.isPrefixOf (s.drop pos)

/-- `s.find(t, pos)` -/
def findStrFrom (s t : List α) (pos : ℕ) : Option ℕ :=
  if pos ≤ s.length then (findStr (s.drop pos) t).map (pos + ·) else none

/-- `s.rfind(t, pos)`: the search from `pos` down. -/
def rfindStrFrom (s t : List α) : (pos : ℕ) → Option ℕ
  | 0 => if t.isPrefixOf s then some 0 else none
  | pos + 1 => if t.isPrefixOf (s.drop (pos + 1)) then some (pos + 1) else rfindStrFrom s t pos

/-- `s.rfind(t)` -/
def rfindStr (s t : List α) : Option ℕ := rfindStrFrom s t s.length

/-- `s.replace(pos, n, t)` -/
def replace (s : List α) (pos n : ℕ) (t : List α) : Option (List α) :=
  if pos ≤ s.length then some (s.take pos ++ (t ++ s.drop (pos + n))) else none

theorem findStr_notInfix (h : ¬ t <:+: s) : findStr s t = none := by
  rw [findStr, List.find?_eq_none]
  intro i _ hi
  exact h ((List.isPrefixOf_iff_prefix.1 hi).isInfix.trans (List.drop_suffix i s).isInfix)

/-- The search ends at the first occurrence. -/
theorem findStr_first (h : First t s u r) : findStr s t = some u.length := by
  rw [findStr, List.find?_range_eq_some]
  refine ⟨?_, ?_, ?_⟩
  · rw [List.isPrefixOf_iff_prefix, h.eq, List.drop_left]
    exact List.prefix_append t r
  · rw [List.mem_range, h.eq, List.length_append]
    omega
  · intro i hi
    rw [Bool.not_eq_true', ← Bool.not_eq_true, List.isPrefixOf_iff_prefix, h.eq]
    exact h.min i hi

/-- What is found lies in the string. -/
theorem findStr_le (h : findStr s t = some pos) : pos ≤ s.length := by
  rw [findStr] at h
  exact Nat.lt_succ_iff.1 (List.mem_range.1 (List.mem_of_find?_eq_some h))

/-- The text stands at the start. -/
theorem findStr_eq_zero : findStr s t = some 0 ↔ t <+: s := by
  rw [findStr, List.range_succ_eq_map, List.find?_cons]
  constructor
  · intro h
    split at h
    · next hp => exact List.isPrefixOf_iff_prefix.1 hp
    · obtain ⟨n, -, hn⟩ := List.mem_map.1 (List.mem_of_find?_eq_some h)
      cases hn
  · intro h
    have hp : t.isPrefixOf (s.drop 0) = true := List.isPrefixOf_iff_prefix.2 h
    rw [hp]

/-- The last occurrence is found. -/
theorem rfindStrFrom_last {i : ℕ} (hi : i ≤ pos) (hp : t <+: s.drop i)
    (hlast : ∀ j, i < j → j ≤ pos → ¬ t <+: s.drop j) : rfindStrFrom s t pos = some i := by
  induction pos with
  | zero =>
    obtain rfl := Nat.le_zero.1 hi
    exact if_pos (List.isPrefixOf_iff_prefix.2 hp)
  | succ pos ih =>
    by_cases heq : i = pos + 1
    · subst heq
      exact if_pos (List.isPrefixOf_iff_prefix.2 hp)
    · have hnot : ¬ t <+: s.drop (pos + 1) := hlast _ (by omega) le_rfl
      rw [rfindStrFrom, if_neg (mt List.isPrefixOf_iff_prefix.1 hnot)]
      exact ih (by omega) fun j hj hle => hlast j hj (Nat.le_succ_of_le hle)

/-- What is found is an occurrence. -/
theorem rfindStrFrom_some {i : ℕ} (h : rfindStrFrom s t pos = some i) :
    i ≤ pos ∧ t <+: s.drop i := by
  induction pos with
  | zero =>
    rw [rfindStrFrom] at h
    split_ifs at h with hp
    cases h
    exact ⟨le_rfl, List.isPrefixOf_iff_prefix.1 hp⟩
  | succ pos ih =>
    rw [rfindStrFrom] at h
    split_ifs at h with hp
    · cases h
      exact ⟨le_rfl, List.isPrefixOf_iff_prefix.1 hp⟩
    · exact (ih h).imp Nat.le_succ_of_le id

/-- The search for a text that the string ends with. -/
theorem rfindStr_suffix (h : t <:+ s) : rfindStr s t = some (s.length - t.length) := by
  obtain ⟨u, rfl⟩ := h
  rw [List.length_append, Nat.add_sub_cancel]
  refine rfindStrFrom_last (by rw [List.length_append]; omega) (by rw [List.drop_left]) ?_
  -- behind the text there is no room for another occurrence
  intro j hj hle hp
  have hlen := hp.length_le
  rw [List.length_append] at hle
  rw [List.length_drop, List.length_append] at hlen
  omega

/-- The bytes of a text of the program. -/
def bytes (s : String) : List UInt8 := s.toUTF8.data.toList

end CppExperiment.StdString
