/-
  Stripping in CommonTools/StringFunc.cc: `str::Lstrip`, `str::Rstrip`,
  `str::Strip` and `str::SplitWithStrip`.

  `strip_eq`: `Strip` takes the letters away at both ends.  `splitWithStrip_eq`:
  `SplitWithStrip` strips the pieces, and drops the last one if nothing is left
  of it.  `splitWithStrip_split`: this is `Split` of the text without the spaces
  behind it, with every piece stripped.
-/
import CppExperiment.Lib.Trim
import CppExperiment.StringFunc.Split

namespace CppExperiment.StringFunc
open StdString

/-- `Lstrip(src, character)` -/
def lstrip (src : Str) (character : UInt8) : Option Str :=
  match findFirstNotOf src character with
  | none => some []
  | some index => if index = 0 then some src else substr src index (src.length - index)

/-- `Rstrip(src, character)` -/
def rstrip (src : Str) (character : UInt8) : Option Str :=
  match findLastNotOf src character with
  | none => some []
  | some index => if index = src.length - 1 then some src else substr src 0 (index + 1)

/-- `Strip(src, character)` -/
def strip (src : Str) (character : UInt8) : Option Str := do
  let src ← lstrip src character
  rstrip src character

/-- The loop of `SplitWithStrip` from `pos` on, with at most `n` separators
    left. -/
def splitWithStripLoop (src : Str) (separator : UInt8) :
    (n pos : ℕ) → List Str → Option (List Str)
  | 0, _, _ => none
  | n + 1, pos, result =>
    match findFirstOf src separator pos with
    | none => do
      let last ← substrFrom src pos
      let last ← strip last 32
      return if !last.isEmpty then result ++ [last] else result
    | some separatePos => do
      let item ← substr src pos (separatePos - pos)
      let item ← strip item 32
      splitWithStripLoop src separator n (separatePos + 1) (result ++ [item])

/-- `SplitWithStrip(src, separator)` -/
def splitWithStrip (src : Str) (separator : UInt8) : Option (List Str) :=
  splitWithStripLoop src separator (src.length + 1) 0 []

variable {src s t : Str} {separator c d : UInt8} {result : List Str}

/-! ## `Strip` -/

theorem lstrip_front (k : ℕ) (h : s.head? ≠ some c) :
    lstrip (List.replicate k c ++ s) c = some s := by
  rw [lstrip, findFirstNotOf_front k h]
  by_cases hs : s = []
  · rw [if_pos hs, hs]
  · rw [if_neg hs]
    dsimp only
    by_cases hk : k = 0
    · rw [if_pos hk, hk, List.replicate_zero, List.nil_append]
    · have hlen : (List.replicate k c ++ s).length = k + s.length := by
        rw [List.length_append, List.length_replicate]
      rw [if_neg hk, substr, if_pos (by omega), hlen, Nat.add_sub_cancel_left,
        List.drop_left' List.length_replicate, List.take_length]

theorem rstrip_back (k : ℕ) (h : s.getLast? ≠ some c) :
    rstrip (s ++ List.replicate k c) c = some s := by
  rw [rstrip, findLastNotOf_back k h]
  by_cases hs : s = []
  · rw [if_pos hs, hs]
  · have hpos := List.length_pos_iff.2 hs
    have hlen : (s ++ List.replicate k c).length = s.length + k := by
      rw [List.length_append, List.length_replicate]
    rw [if_neg hs]
    dsimp only
    by_cases hk : k = 0
    · rw [if_pos (by omega), hk, List.replicate_zero, List.append_nil]
    · rw [if_neg (by omega), substr, if_pos (Nat.zero_le _), List.drop_zero,
        Nat.sub_add_cancel hpos, List.take_left]

/-- **`Strip` takes the letters away.** -/
theorem strip_eq (src : Str) (c : UInt8) : strip src c = some (trim c src) := by
  obtain ⟨k, s, rfl, hhead⟩ := exists_front c src
  obtain ⟨t, n, rfl, hlast⟩ := exists_back c s
  have hhead' : t.head? ≠ some c := by
    intro h
    exact hhead (by rw [List.head?_append, h, Option.some_or])
  rw [strip, lstrip_front k hhead, Option.bind_eq_bind, Option.bind_some, rstrip_back n hlast,
    trim_front, trim_back, trim_eq_self hhead' hlast]

/-! ## `SplitWithStrip` -/

theorem splitWithStripLoop_eq {n pos : ℕ} {rest : Str} (hrest : src.drop pos = rest)
    (hpos : pos ≤ src.length) (hn : rest.length < n) :
    splitWithStripLoop src separator n pos result =
      some (result ++ dropEmptyLast ((rest.splitOn separator).map (trim 32))) := by
  induction rest using split_induction (c := separator) generalizing n pos result with
  | last rest hc =>
    obtain ⟨n, rfl⟩ := Nat.exists_eq_succ_of_ne_zero (Nat.ne_zero_of_lt hn)
    rw [splitWithStripLoop, findFirstOf_notMem (hrest ▸ hc), substrFrom, if_pos hpos, hrest,
      List.splitOn_eq_singleton hc, List.map_singleton, dropEmptyLast_singleton]
    simp only [Option.bind_eq_bind, Option.bind_some, strip_eq]
    cases trim 32 rest with
    | nil => simp
    | cons c rest => simp
  | step u rest hu ih =>
    obtain ⟨n, rfl⟩ := Nat.exists_eq_succ_of_ne_zero (Nat.ne_zero_of_lt hn)
    have hne : (rest.splitOn separator).map (trim 32) ≠ [] := by
      rw [Ne, List.map_eq_nil_iff]
      exact List.splitOn_ne_nil separator rest
    rw [List.length_append, List.length_cons] at hn
    rw [splitWithStripLoop, findFirstOf_mem hu hrest]
    simp only [substr_to hrest, Option.bind_eq_bind, Option.bind_some, strip_eq]
    rw [ih (drop_behind hrest) (le_behind hrest) (by omega),
      List.splitOn_append_cons_self_of_not_mem hu, List.map_cons, dropEmptyLast_cons hne,
      List.append_assoc, List.singleton_append]

/-- **`SplitWithStrip` strips the pieces.** -/
theorem splitWithStrip_eq (src : Str) (separator : UInt8) :
    splitWithStrip src separator =
      some (dropEmptyLast ((src.splitOn separator).map (trim 32))) := by
  rw [splitWithStrip, splitWithStripLoop_eq List.drop_zero (Nat.zero_le _) (Nat.lt_succ_self _),
    List.nil_append]

/-- A piece by its index. -/
theorem getD_splitWithStrip (k : ℕ) :
    (dropEmptyLast ((src.splitOn separator).map (trim 32)))[k]?.getD [] =
      trim 32 (fieldAt separator k src) := by
  rw [getD_dropEmptyLast, List.getElem?_map, fieldAt]
  cases (src.splitOn separator)[k]? <;> rfl

/-! ## `SplitWithStrip` and `Split` -/

/-- Letters behind the text are no part of its stripped pieces. -/
theorem map_trim_back (hcd : c ≠ d) (k : ℕ) (t : Str) :
    ((t ++ List.replicate k d).splitOn c).map (trim d) = (t.splitOn c).map (trim d) := by
  induction t using split_induction (c := c) with
  | last t ht =>
    have hback : c ∉ t ++ List.replicate k d := by
      rw [List.mem_append, not_or]
      exact ⟨ht, fun h => hcd (List.eq_of_mem_replicate h)⟩
    rw [List.splitOn_eq_singleton hback, List.splitOn_eq_singleton ht, List.map_singleton,
      List.map_singleton, trim_back]
  | step u t hu ih =>
    rw [List.append_assoc, List.cons_append, List.splitOn_append_cons_self_of_not_mem hu,
      List.splitOn_append_cons_self_of_not_mem hu, List.map_cons, List.map_cons, ih]

/-- If the text does not end with the letter, its last piece is empty before
    stripping exactly if it is behind. -/
theorem dropEmptyLast_map_trim (ht : t.getLast? ≠ some d) :
    dropEmptyLast ((t.splitOn c).map (trim d)) = (pieces c t).map (trim d) := by
  induction t using split_induction (c := c) with
  | last t hc =>
    rw [List.splitOn_eq_singleton hc, List.map_singleton, dropEmptyLast_singleton,
      pieces_of_notMem hc]
    by_cases h : t = []
    · rw [if_pos h, if_pos ((trim_eq_nil ht).2 h), List.map_nil]
    · rw [if_neg h, if_neg (mt (trim_eq_nil ht).1 h), List.map_singleton]
  | step u t hu ih =>
    have hne : (t.splitOn c).map (trim d) ≠ [] := by
      rw [Ne, List.map_eq_nil_iff]
      exact List.splitOn_ne_nil c t
    have ht' : t.getLast? ≠ some d := by
      intro h
      rw [List.getLast?_append_cons, List.getLast?_cons, h] at ht
      exact ht rfl
    rw [List.splitOn_append_cons_self_of_not_mem hu, List.map_cons, dropEmptyLast_cons hne, ih ht',
      pieces_append_cons hu, List.map_cons]

/-- **`SplitWithStrip` and `Split`**: without the spaces behind it, the text is
    split first and its pieces are stripped then. -/
theorem splitWithStrip_split (s : Str) :
    (∀ c ≠ 32, ∃ r ps qs, rstrip s 32 = some r ∧ split r c = some ps ∧
      ps.mapM (fun p => strip p 32) = some qs ∧ splitWithStrip s c = some qs) ∧
    ∃ ps, split s 32 = some ps ∧ splitWithStrip s 32 = some ps := by
  constructor
  · intro c hc
    obtain ⟨t, k, rfl, hlast⟩ := exists_back 32 s
    have hstrip : (pieces c t).mapM (fun p => strip p 32) = some ((pieces c t).map (trim 32)) := by
      simp only [strip_eq]
      exact List.mapM_pure
    refine ⟨t, pieces c t, (pieces c t).map (trim 32), rstrip_back k hlast, split_eq t c, hstrip,
      ?_⟩
    rw [splitWithStrip_eq, map_trim_back hc, dropEmptyLast_map_trim hlast]
  · -- no piece has a letter to strip
    have htrim : (s.splitOn 32).map (trim 32) = s.splitOn 32 :=
      (List.map_congr_left fun p hp => trim_of_notMem (notMem_of_mem_splitOn hp)).trans
        (List.map_id _)
    exact ⟨pieces 32 s, split_eq s 32, by rw [splitWithStrip_eq, htrim, dropEmptyLast_splitOn]⟩

/-- Spaces behind a final separator, and a blank piece before it. -/
theorem splitWithStrip_split_comma : ∃ r ps qs, rstrip [97, 44, 32, 44, 32] 32 = some r ∧
    split r 44 = some ps ∧ ps.mapM (fun p => strip p 32) = some qs ∧
    splitWithStrip [97, 44, 32, 44, 32] 44 = some qs :=
  (splitWithStrip_split [97, 44, 32, 44, 32]).1 44 (by decide)

end CppExperiment.StringFunc
