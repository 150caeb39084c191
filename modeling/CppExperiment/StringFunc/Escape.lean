/-
  `str::Escape` of CommonTools/StringFunc.cc.

  The string is changed while it is searched; what is inserted is never
  searched again.

  * `escape_eq`: a backslash is put before every `op`.
  * `escape_iff`: a reader for whom a backslash escapes the next character sees
    every `op` escaped, iff an even number of backslashes stands before each
    `op` of the source.
-/
import CppExperiment.Lib.LetterCode
import CppExperiment.StringFunc.Split

namespace CppExperiment.StringFunc
open StdString

/-- The loop of `Escape`, with at most `n` rounds left. -/
def escapeLoop (op : UInt8) : (n : ℕ) → (src : Str) → (index : ℕ) → Option Str
  | 0, _, _ => none
  | n + 1, src, index =>
    match findFirstOf src op index with
    | none => some src
    | some index => do
      let src ← insert src index 1 92
      escapeLoop op n src (index + 2)

/-- `Escape(src, op)` -/
def escape (src : Str) (op : UInt8) : Option Str := escapeLoop op (src.length + 1) src 0

/-- What is left of a character. -/
def escapeChar (op c : UInt8) : Str := if c = op then [92, op] else [c]

/-- The number of consecutive backslashes at the end of a text. -/
def backslashes (u : Str) : ℕ := (u.rtakeWhile (· = 92)).length

/-- Before every `op` of the text, the number of consecutive backslashes is
    such. -/
def Before (op : UInt8) (P : ℕ → Prop) (s : Str) : Prop :=
  ∀ u r, s = u ++ op :: r → P (backslashes u)

variable {op c : UInt8} {s u r done : Str} {n : ℕ}

/-! ## What is left -/

theorem flatMap_escapeChar_of_notMem (h : op ∉ s) : s.flatMap (escapeChar op) = s := by
  induction s with
  | nil => rfl
  | cons c s ih =>
    rw [List.mem_cons, not_or] at h
    rw [List.flatMap_cons, ih h.2, escapeChar, if_neg (Ne.symm h.1)]
    rfl

/-- The loop from an index on, `done` what stands before it. -/
theorem escapeLoop_eq (hn : s.length < n) :
    escapeLoop op n (done ++ s) done.length = some (done ++ s.flatMap (escapeChar op)) := by
  induction s using split_induction (c := op) generalizing n done with
  | last s hs =>
    obtain ⟨n, rfl⟩ := Nat.exists_eq_succ_of_ne_zero (Nat.ne_zero_of_lt hn)
    rw [escapeLoop, findFirstOf_notMem (by rwa [List.drop_left]),
      flatMap_escapeChar_of_notMem hs]
  | step u s hu ih =>
    obtain ⟨n, rfl⟩ := Nat.exists_eq_succ_of_ne_zero (Nat.ne_zero_of_lt hn)
    have hinsert : insert (done ++ (u ++ op :: s)) (done.length + u.length) 1 92 =
        some ((done ++ (u ++ [92, op])) ++ s) := by
      rw [StdString.insert, if_pos (by simp), List.take_length_add_append, List.take_left,
        List.drop_length_add_append, List.drop_left]
      simp
    have hlen : done.length + u.length + 2 = (done ++ (u ++ [92, op])).length := by simp; omega
    rw [List.length_append, List.length_cons] at hn
    rw [escapeLoop, findFirstOf_mem hu List.drop_left]
    change (insert _ _ _ _).bind _ = _
    rw [hinsert, Option.bind_some, hlen, ih (by omega), List.flatMap_append, List.flatMap_cons,
      flatMap_escapeChar_of_notMem hu, escapeChar, if_pos rfl]
    simp

/-- **A backslash before every `op`.** -/
theorem escape_eq (src : Str) (op : UInt8) :
    escape src op = some (src.flatMap (escapeChar op)) := by
  have h := @escapeLoop_eq op src [] (src.length + 1) (Nat.lt_succ_self _)
  rwa [List.nil_append] at h

/-! ## The backslashes -/

theorem backslashes_escape (hop : op ≠ 92) (s : Str) :
    backslashes (s.flatMap (escapeChar op)) = backslashes s := by
  induction s using List.reverseRecOn with
  | nil => rfl
  | append_singleton s c ih =>
    rw [List.flatMap_append, List.flatMap_singleton, escapeChar]
    split_ifs with hc
    · subst hc
      have hsplit : s.flatMap (escapeChar c) ++ [92, c] =
          s.flatMap (escapeChar c) ++ [92] ++ [c] := by simp
      rw [hsplit, backslashes, backslashes, List.rtakeWhile_concat_neg _ _ _ (by simpa using hop),
        List.rtakeWhile_concat_neg _ _ _ (by simpa using hop)]
    · by_cases h92 : c = 92
      · rw [backslashes, backslashes, List.rtakeWhile_concat_pos _ _ _ (by simpa using h92),
          List.rtakeWhile_concat_pos _ _ _ (by simpa using h92), List.length_append,
          List.length_append]
        exact congrArg (· + 1) ih
      · rw [backslashes, backslashes, List.rtakeWhile_concat_neg _ _ _ (by simpa using h92),
          List.rtakeWhile_concat_neg _ _ _ (by simpa using h92)]

theorem backslashes_concat (u : Str) : backslashes (u ++ [92]) = backslashes u + 1 := by
  rw [backslashes, List.rtakeWhile_concat_pos _ _ _ (by simp), List.length_append]
  rfl

/-- Every `op` that is left comes from one of the source. -/
theorem exists_of_escape (hop : op ≠ 92) (h : s.flatMap (escapeChar op) = u ++ op :: r) :
    ∃ u' r', s = u' ++ op :: r' ∧ u = u'.flatMap (escapeChar op) ++ [92] := by
  induction s generalizing u with
  | nil => cases u <;> cases h
  | cons c s ih =>
    rw [List.flatMap_cons, escapeChar] at h
    split_ifs at h with hc
    · subst hc
      match u with
      | [] => exact absurd (List.cons.inj h).1.symm hop
      | [x] =>
        obtain ⟨rfl, -⟩ := List.cons.inj h
        exact ⟨[], s, rfl, rfl⟩
      | x :: y :: u =>
        simp only [List.cons_append, List.nil_append, List.cons.injEq] at h
        obtain ⟨rfl, rfl, h⟩ := h
        obtain ⟨u', r', rfl, rfl⟩ := ih h
        exact ⟨c :: u', r', rfl, by rw [List.flatMap_cons, escapeChar, if_pos rfl]; rfl⟩
    · cases u with
      | nil => exact absurd (List.cons.inj h).1 hc
      | cons x u =>
        simp only [List.cons_append, List.nil_append, List.cons.injEq] at h
        obtain ⟨rfl, h⟩ := h
        obtain ⟨u', r', rfl, rfl⟩ := ih h
        exact ⟨c :: u', r', rfl, by rw [List.flatMap_cons, escapeChar, if_neg hc]; rfl⟩

/-- **When every `op` is escaped.** -/
theorem escape_iff (hop : op ≠ 92) (src : Str) :
    (∃ dst, escape src op = some dst ∧ Before op Odd dst) ↔ Before op Even src := by
  have hodd : Before op Odd (src.flatMap (escapeChar op)) ↔ Before op Even src := by
    constructor
    · rintro h u r rfl
      have hsplit : (u ++ op :: r).flatMap (escapeChar op) =
          (u.flatMap (escapeChar op) ++ [92]) ++ op :: r.flatMap (escapeChar op) := by
        rw [List.flatMap_append, List.flatMap_cons, escapeChar, if_pos rfl]
        simp
      have hu := h _ _ hsplit
      rw [backslashes_concat, backslashes_escape hop] at hu
      rwa [Nat.odd_add_one, Nat.not_odd_iff_even] at hu
    · intro h u r hdst
      obtain ⟨u', r', hsrc, rfl⟩ := exists_of_escape hop hdst
      rw [backslashes_concat, backslashes_escape hop, Nat.odd_add_one, Nat.not_odd_iff_even]
      exact h u' r' hsrc
  rw [← hodd, escape_eq]
  constructor
  · rintro ⟨dst, hdst, h⟩
    rwa [Option.some_inj.1 hdst]
  · intro h
    exact ⟨_, rfl, h⟩

/-- The text `a,`. -/
theorem escape_iff_comma : ∃ dst, escape [97, 44] 44 = some dst ∧ Before 44 Odd dst := by
  refine (@escape_iff 44 (by decide) [97, 44]).2 fun u r h => ?_
  match u with
  | [] => cases (List.cons.inj h).1
  | [x] =>
    obtain ⟨rfl, -⟩ := List.cons.inj h
    decide
  | x :: y :: u => simp at h

/-- The text `\,` becomes `\\,`: the comma is not escaped. -/
theorem escape_backslash : ¬ ∃ dst, escape [92, 44] 44 = some dst ∧ Before 44 Odd dst := by
  rintro ⟨dst, hdst, h⟩
  have heq : escape [92, 44] 44 = some [92, 92, 44] := by decide
  rw [heq, Option.some_inj] at hdst
  exact absurd (h [92, 92] [] hdst.symm) (by decide)

end CppExperiment.StringFunc
