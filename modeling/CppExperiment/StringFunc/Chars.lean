/-
  Single characters in CommonTools/StringFunc.cc: `str::ReplaceChar` and
  `str::Remove`.

  * `replaceChar_eq`: `ReplaceChar` does what `ReplaceStr` does with texts of one
    character, and what splitting and joining does, but for a final separator.
  * `remove_iff`: `Remove` leaves the pieces of `Split`, one behind the other;
    when `ReplaceStr` with an empty text does the same.
-/
import CppExperiment.StringFunc.Replace

namespace CppExperiment.StringFunc
open StdString

/-- The loop of `ReplaceChar`, with at most `n` rounds left. -/
def replaceCharLoop (src dst : UInt8) : (n : ℕ) → (str : Str) → (index : ℕ) → Option Str
  | 0, _, _ => none
  | n + 1, str, index =>
    match findFirstOf str src index with
    | none => some str
    | some index => replaceCharLoop src dst n (str.set index dst) (index + 1)

/-- `ReplaceChar(str, src, dst)` -/
def replaceChar (str : Str) (src dst : UInt8) : Option Str :=
  replaceCharLoop src dst (str.length + 1) str 0

/-- `Remove(src, c)` -/
def remove (src : Str) (c : UInt8) : Str :=
  src.foldl (fun result it => if it ≠ c then result ++ [it] else result) []

/-- The character `dst` for `src`. -/
def swapChar (src dst c : UInt8) : UInt8 := if c = src then dst else c

variable {n : ℕ} {s u r t done : Str} {a b c : UInt8}

/-! ## `ReplaceChar` -/

theorem map_swapChar_of_notMem (h : a ∉ s) : s.map (swapChar a b) = s := by
  refine (List.map_congr_left fun x hx => if_neg ?_).trans (List.map_id s)
  rintro rfl
  exact h hx

/-- The loop from an index on, `done` what stands before it. -/
theorem replaceCharLoop_eq (hn : s.length < n) :
    replaceCharLoop a b n (done ++ s) done.length = some (done ++ s.map (swapChar a b)) := by
  induction s using split_induction (c := a) generalizing n done with
  | last s hs =>
    obtain ⟨n, rfl⟩ := Nat.exists_eq_succ_of_ne_zero (Nat.ne_zero_of_lt hn)
    rw [replaceCharLoop, findFirstOf_notMem (by rwa [List.drop_left]), map_swapChar_of_notMem hs]
  | step u s hu ih =>
    obtain ⟨n, rfl⟩ := Nat.exists_eq_succ_of_ne_zero (Nat.ne_zero_of_lt hn)
    have hset : (done ++ (u ++ a :: s)).set (done.length + u.length) b =
        (done ++ (u ++ [b])) ++ s := by
      rw [List.set_append_right _ _ (Nat.le_add_right _ _), Nat.add_sub_cancel_left,
        List.set_append_right _ _ le_rfl, Nat.sub_self, List.set_cons_zero]
      simp
    have hlen : done.length + u.length + 1 = (done ++ (u ++ [b])).length := by simp; omega
    rw [List.length_append, List.length_cons] at hn
    rw [replaceCharLoop, findFirstOf_mem hu List.drop_left]
    dsimp only
    rw [hset, hlen, ih (by omega), List.map_append, map_swapChar_of_notMem hu, List.map_cons,
      swapChar, if_pos rfl]
    simp

theorem replaceChar_map (s : Str) (a b : UInt8) :
    replaceChar s a b = some (s.map (swapChar a b)) :=
  @replaceCharLoop_eq (s.length + 1) s [] a b (Nat.lt_succ_self _)

/-- The first occurrence of a text of one character. -/
theorem first_singleton (hu : a ∉ u) (r : Str) : First [a] (u ++ a :: r) u r := by
  refine ⟨rfl, fun i hi h => hu ?_⟩
  rw [List.drop_append_of_le_length hi.le, List.drop_eq_getElem_cons hi, List.cons_append,
    List.cons_prefix_cons] at h
  rw [h.1]
  exact List.getElem_mem hi

theorem notInfix_singleton (h : a ∉ s) : ¬ [a] <:+: s := fun hin => h (hin.subset (by simp))

/-- `ReplaceStr` with texts of one character. -/
theorem replaceLoop_singleton (hn : s.length < n) :
    replaceLoop [a] [b] n (done ++ s) done.length = some (done ++ s.map (swapChar a b)) := by
  induction s using split_induction (c := a) generalizing n done with
  | last s hs =>
    obtain ⟨n, rfl⟩ := Nat.exists_eq_succ_of_ne_zero (Nat.ne_zero_of_lt hn)
    rw [replaceLoop_stop (notInfix_singleton hs), map_swapChar_of_notMem hs]
  | step u s hu ih =>
    obtain ⟨n, rfl⟩ := Nat.exists_eq_succ_of_ne_zero (Nat.ne_zero_of_lt hn)
    rw [List.length_append, List.length_cons] at hn
    have hlen : done.length + (u.length + 1) = (done ++ (u ++ [b])).length := by simp
    have hnext : done ++ (u ++ ([b] ++ s)) = (done ++ (u ++ [b])) ++ s := by simp
    rw [replaceLoop_found (first_singleton hu s), hlen, hnext, ih (by omega), List.map_append,
      map_swapChar_of_notMem hu, List.map_cons, swapChar, if_pos rfl]
    simp

/-- **Three ways to replace a character**: `ReplaceChar`; `ReplaceStr` with texts
    of one character; and to split at the one and to join with the other
    character, where only a final separator is lost. -/
theorem replaceChar_eq (s : Str) (a b : UInt8) :
    (∀ n, s.length < n → replaceStr n s [a] [b] = replaceChar s a b) ∧
      ∃ ps, split s a = some ps ∧
        replaceChar s a b =
          some (joinWithDelim ps b ++ if s.getLast? = some a then [b] else []) := by
  constructor
  · intro n hn
    rw [replaceStr, replaceChar_map]
    cases s with
    | nil => rfl
    | cons c s => exact @replaceLoop_singleton n (c :: s) [] a b hn
  · refine ⟨pieces a s, split_eq s a, ?_⟩
    have hjoin : joinWithDelim (pieces a s) b =
        (if s.getLast? = some a then s.dropLast else s).map (swapChar a b) := by
      rw [joinWithDelim_eq]
      exact intercalate_pieces_map a b s
    rw [replaceChar_map, hjoin]
    split_ifs with hlast
    · have hne : s ≠ [] := by
        rintro rfl
        cases hlast
      rw [List.getLast?_eq_some_getLast hne, Option.some_inj] at hlast
      conv_lhs => rw [← List.dropLast_append_getLast hne, hlast]
      rw [List.map_append, List.map_singleton, swapChar, if_pos rfl]
    · rw [List.append_nil]

/-- `a,b,` with semicolons. -/
theorem replaceChar_eq_comma :
    replaceStr 5 [97, 44, 98, 44] [44] [59] = replaceChar [97, 44, 98, 44] 44 59 :=
  (replaceChar_eq [97, 44, 98, 44] 44 59).1 5 (by decide)

/-! ## `Remove` -/

theorem remove_filter (s : Str) (c : UInt8) : remove s c = s.filter (· ≠ c) := by
  have hloop (s result : Str) : s.foldl
      (fun result it => if it ≠ c then result ++ [it] else result) result =
        result ++ s.filter (· ≠ c) := by
    induction s generalizing result with
    | nil => simp
    | cons d s ih =>
      rw [List.foldl_cons, ih]
      by_cases hd : d = c
      · rw [if_neg (not_not.2 hd), List.filter_cons_of_neg (by simp [hd])]
      · rw [if_pos hd, List.filter_cons_of_pos (by simp [hd]), List.append_assoc]
        rfl
  exact hloop s []

/-- What `ReplaceStr` leaves that replaces `a` by nothing: it goes on behind the
    character that has moved up. -/
def dropEach (a : UInt8) : Str → Str
  | [] => []
  | [c] => if c = a then [] else [c]
  | c :: d :: s => if c = a then d :: dropEach a s else c :: dropEach a (d :: s)

theorem dropEach_cons_ne (hc : c ≠ a) (s : Str) : dropEach a (c :: s) = c :: dropEach a s := by
  cases s with
  | nil => simp [dropEach, hc]
  | cons d s => rw [dropEach, if_neg hc]

theorem dropEach_append (hu : a ∉ u) (s : Str) : dropEach a (u ++ s) = u ++ dropEach a s := by
  induction u with
  | nil => rfl
  | cons c u ih =>
    obtain ⟨hc, hu⟩ := not_or.1 (mt List.mem_cons.2 hu)
    rw [List.cons_append, dropEach_cons_ne (Ne.symm hc), ih hu, List.cons_append]

/-- The loop of `ReplaceStr` that replaces `a` by nothing. -/
theorem replaceLoop_nil (hn : s.length < n) :
    replaceLoop [a] [] n (done ++ s) done.length = some (done ++ dropEach a s) := by
  induction hl : s.length using Nat.strong_induction_on generalizing s n done with
  | h l ih =>
    obtain ⟨n, rfl⟩ := Nat.exists_eq_succ_of_ne_zero (Nat.ne_zero_of_lt hn)
    by_cases hs : a ∈ s
    · obtain ⟨u, r, rfl, hu⟩ := List.eq_append_cons_of_mem hs
      rw [List.length_append, List.length_cons] at hn hl
      rw [replaceLoop_found (first_singleton hu r), dropEach_append hu, List.nil_append]
      cases r with
      | nil =>
        obtain ⟨n, rfl⟩ := Nat.exists_eq_succ_of_ne_zero (by omega : n ≠ 0)
        rw [replaceLoop_over (by simp)]
        simp [dropEach]
      | cons x r =>
        have hlen : done.length + (u.length + 1) = (done ++ (u ++ [x])).length := by simp
        have hnext : done ++ (u ++ x :: r) = (done ++ (u ++ [x])) ++ r := by simp
        rw [List.length_cons] at hn hl
        rw [hlen, hnext, ih r.length (by omega) (by omega) rfl, dropEach, if_pos rfl]
        simp
    · have hstay : dropEach a s = s := by
        have h := dropEach_append hs []
        rwa [List.append_nil, dropEach, List.append_nil] at h
      rw [replaceLoop_stop (notInfix_singleton hs), hstay]

/-- Nothing but the characters `a` is dropped, and all of them iff no two of them
    stand side by side. -/
theorem dropEach_eq_iff (a : UInt8) (s : Str) :
    dropEach a s = s.filter (· ≠ a) ↔ ¬ [a, a] <:+: s := by
  fun_induction dropEach a s with
  | case1 => simp
  | case2 => simp [List.infix_cons_iff]
  | case3 c hc => simp [List.infix_cons_iff, hc]
  | case4 d s ih =>
    by_cases hd : d = a
    · subst hd
      refine iff_of_false (fun h => ?_) (not_not.2 ⟨[], s, rfl⟩)
      have hmem : d ∈ (d :: d :: s).filter (· ≠ d) := h ▸ List.mem_cons_self
      simp at hmem
    · have hin : [a, a] <:+: a :: d :: s ↔ [a, a] <:+: s := by
        simp [List.infix_cons_iff, Ne.symm hd]
      rw [List.filter_cons_of_neg (by simp), List.filter_cons_of_pos (by simp [hd]),
        List.cons_inj_right, ih, hin]
  | case5 c d s hc ih =>
    have hin : [a, a] <:+: c :: d :: s ↔ [a, a] <:+: d :: s := by
      rw [List.infix_cons_iff]
      simp [Ne.symm hc]
    rw [List.filter_cons_of_pos (by simp [hc]), List.cons_inj_right, ih, hin]

/-- **`Remove`** leaves the pieces of `Split`; and `ReplaceStr` with an empty text
    does what `Remove` does iff no two of the characters stand side by side. -/
theorem remove_iff (s : Str) (a : UInt8) :
    (∃ ps, split s a = some ps ∧ remove s a = ps.flatten) ∧
      ∀ n, s.length < n → (replaceStr n s [a] [] = some (remove s a) ↔ ¬ [a, a] <:+: s) := by
  refine ⟨⟨pieces a s, split_eq s a, ?_⟩, fun n hn => ?_⟩
  · rw [remove_filter, flatten_pieces]
  · have hreplace : replaceStr n s [a] [] = some (dropEach a s) := by
      rw [replaceStr]
      cases s with
      | nil => rfl
      | cons c s => exact @replaceLoop_nil n (c :: s) [] a hn
    rw [hreplace, remove_filter, Option.some_inj, dropEach_eq_iff]

/-- One of two characters side by side is left. -/
theorem remove_iff_double : ¬ replaceStr 4 [97, 97, 98] [97] [] = some (remove [97, 97, 98] 97) :=
  fun h => ((remove_iff [97, 97, 98] 97).2 4 (by decide)).1 h ⟨[], [98], rfl⟩

end CppExperiment.StringFunc
