/-
  Splitting and joining in CommonTools/StringFunc.cc: `str::Split` and
  `str::JoinWithDelim`.

  `split_eq`: `Split` returns the pieces of the text.  `join_split`: `Split`
  and `JoinWithDelim` are inverse, up to an empty last piece, which `Split`
  drops.
-/
import CppExperiment.Lib.Split
import CppExperiment.Lib.StdString

namespace CppExperiment.StringFunc
open StdString

/-- A `std::string`. -/
abbrev Str := List UInt8

variable {src : Str} {separator delim : UInt8} {result : List Str}

/-! ## `Split` -/

/-- The loop of `Split` from `pos` on, with at most `n` separators left; `none`
    if `substr` throws or the loop goes on. -/
def splitLoop (src : Str) (separator : UInt8) : (n pos : ℕ) → List Str → Option (List Str)
  | 0, _, _ => none
  | n + 1, pos, result =>
    match findFirstOf src separator pos with
    | none => do
      let last ← substrFrom src pos
      return if !last.isEmpty then result ++ [last] else result
    | some separatePos => do
      let item ← substr src pos (separatePos - pos)
      splitLoop src separator n (separatePos + 1) (result ++ [item])

/-- `Split(src, separator)` -/
def split (src : Str) (separator : UInt8) : Option (List Str) :=
  splitLoop src separator (src.length + 1) 0 []

theorem splitLoop_eq {n pos : ℕ} {rest : Str} (hrest : src.drop pos = rest)
    (hpos : pos ≤ src.length) (hn : rest.length < n) :
    splitLoop src separator n pos result = some (result ++ pieces separator rest) := by
  induction rest using split_induction (c := separator) generalizing n pos result with
  | last rest hc =>
    obtain ⟨n, rfl⟩ := Nat.exists_eq_succ_of_ne_zero (Nat.ne_zero_of_lt hn)
    rw [splitLoop, findFirstOf_notMem (hrest ▸ hc), substrFrom, if_pos hpos, hrest,
      pieces_of_notMem hc]
    cases rest with
    | nil => simp
    | cons c rest => simp
  | step u rest hu ih =>
    obtain ⟨n, rfl⟩ := Nat.exists_eq_succ_of_ne_zero (Nat.ne_zero_of_lt hn)
    rw [List.length_append, List.length_cons] at hn
    rw [splitLoop, findFirstOf_mem hu hrest]
    dsimp only
    rw [substr_to hrest, Option.bind_eq_bind, Option.bind_some,
      ih (drop_behind hrest) (le_behind hrest) (by omega), pieces_append_cons hu,
      List.append_assoc, List.singleton_append]

/-- **`Split` returns the pieces.** -/
theorem split_eq (src : Str) (separator : UInt8) :
    split src separator = some (pieces separator src) := by
  rw [split, splitLoop_eq List.drop_zero (Nat.zero_le _) (Nat.lt_succ_self _), List.nil_append]

/-! ## `JoinWithDelim` -/

/-- The loop of `JoinWithDelim` over `srcs[i]` and what follows it; `size` is
    the number of all strings. -/
def joinLoop (delim : UInt8) (size : ℕ) : List Str → (i : ℕ) → (dst : Str) → Str
  | [], _, dst => dst
  | s :: srcs, i, dst =>
    let dst := dst ++ s
    joinLoop delim size srcs (i + 1) (if i ≠ size - 1 then dst ++ [delim] else dst)

/-- `JoinWithDelim(srcs, delim)` -/
def joinWithDelim (srcs : List Str) (delim : UInt8) : Str :=
  if srcs.isEmpty then [] else joinLoop delim srcs.length srcs 0 []

theorem joinLoop_eq {srcs : List Str} {i size : ℕ} {dst : Str} (hne : srcs ≠ [])
    (hi : i + srcs.length = size) :
    joinLoop delim size srcs i dst = dst ++ [delim].intercalate srcs := by
  induction srcs generalizing i dst with
  | nil => exact absurd rfl hne
  | cons s srcs ih =>
    rw [List.length_cons] at hi
    rw [joinLoop]
    by_cases hs : srcs = []
    · subst hs
      have hlast : ¬ i ≠ size - 1 := by rw [List.length_nil] at hi; omega
      rw [if_neg hlast, List.intercalate_singleton]
      rfl
    · have hmore : i ≠ size - 1 := by
        have := List.length_pos_iff.2 hs
        omega
      rw [if_pos hmore, ih hs (by omega), List.intercalate_cons_of_ne_nil hs]
      simp only [List.append_assoc]

/-- **`JoinWithDelim` puts one separator between the strings.** -/
theorem joinWithDelim_eq (srcs : List Str) (delim : UInt8) :
    joinWithDelim srcs delim = [delim].intercalate srcs := by
  unfold joinWithDelim
  cases srcs with
  | nil => rfl
  | cons s srcs =>
    rw [if_neg (by simp), joinLoop_eq (List.cons_ne_nil _ _) (Nat.zero_add _), List.nil_append]

/-! ## Both -/

/-- **Splitting and joining.**  The joined pieces are the text without its
    final separator, if it has one; and strings without a separator, the last
    one not empty, are the pieces of what they are joined to. -/
theorem join_split (c : UInt8) :
    (∀ s, ∃ ps, split s c = some ps ∧
      (s.getLast? ≠ some c → joinWithDelim ps c = s) ∧
      (s.getLast? = some c → joinWithDelim ps c = s.dropLast)) ∧
    ∀ v : List Str, (∀ p ∈ v, c ∉ p) → (v = [] ∨ ∃ p, v.getLast? = some p ∧ p ≠ []) →
      split (joinWithDelim v c) c = some v := by
  constructor
  · intro s
    have hjoin := intercalate_pieces c s
    refine ⟨pieces c s, split_eq s c, ?_, ?_⟩
    · intro hs
      rwa [if_neg hs, ← joinWithDelim_eq] at hjoin
    · intro hs
      rwa [if_pos hs, ← joinWithDelim_eq] at hjoin
  · intro v hc hlast
    have hne : v.getLast? ≠ some [] := by
      intro h
      rcases hlast with rfl | ⟨p, hp, hne⟩
      · cases h
      · rw [hp] at h
        cases h
        exact hne rfl
    rw [split_eq, joinWithDelim_eq, pieces_intercalate hc hne]

/-- A text with an empty inner piece and a final separator; a list with an
    empty first string. -/
theorem join_split_comma : (∃ ps, split [97, 44, 44, 98, 44] 44 = some ps ∧
    joinWithDelim ps 44 = [97, 44, 44, 98]) ∧
    split (joinWithDelim [[], [97]] 44) 44 = some [[], [97]] := by
  obtain ⟨hs, hv⟩ := join_split 44
  obtain ⟨ps, hps, -, hjoin⟩ := hs [97, 44, 44, 98, 44]
  exact ⟨⟨ps, hps, hjoin rfl⟩, hv _ (by decide) (.inr ⟨[97], rfl, by decide⟩)⟩

end CppExperiment.StringFunc
