/-
  The splitters of Standard/std_attri/Feature_17.hpp.

  `Split`, `SplitV` and `SplitVW` have one loop, which leaves without the text
  behind the last separator; the loop of `str::Split` keeps that text if it is
  not empty.  `splitters_eq_iff`: the two agree exactly on the texts that end
  with a separator, and on the empty text.
-/
import CppExperiment.StringFunc.Split

namespace CppExperiment.StdAttri
open StdString

/-- A `std::string`, or what a `std::string_view` shows. -/
abbrev Str := StringFunc.Str

variable {src : Str} {separator : UInt8} {result : List Str}

/-- The loop of the three splitters from `pos` on, with at most `n` separators
    left; `none` if `substr` throws or the loop goes on. -/
def splitLoop (src : Str) (separator : UInt8) : (n pos : ℕ) → List Str → Option (List Str)
  | 0, _, _ => none
  | n + 1, pos, result =>
    match findFirstOf src separator pos with
    | none => some result
    | some sepPos => do
      let item ← substr src pos (sepPos - pos)
      splitLoop src separator n (sepPos + 1) (result ++ [item])

/-- `SplitV(src, separator)` -/
def splitV (src : Str) (separator : UInt8) : Option (List Str) :=
  splitLoop src separator (src.length + 1) 0 []

/-- `Split(src, separator)` -/
def split (src : Str) (separator : UInt8) : Option (List Str) :=
  splitLoop src separator (src.length + 1) 0 []

/-- `SplitVW(src, separator)` -/
def splitVW (src : Str) (separator : UInt8) : Option (List Str) :=
  splitLoop src separator (src.length + 1) 0 []

/-- The text behind the last separator is lost. -/
theorem splitLoop_eq {n pos : ℕ} {rest : Str} (hrest : src.drop pos = rest)
    (hn : rest.length < n) :
    splitLoop src separator n pos result =
      some (result ++ (rest.splitOn separator).dropLast) := by
  induction rest using split_induction (c := separator) generalizing n pos result with
  | last rest hc =>
    obtain ⟨n, rfl⟩ := Nat.exists_eq_succ_of_ne_zero (Nat.ne_zero_of_lt hn)
    rw [splitLoop, findFirstOf_notMem (hrest ▸ hc), List.splitOn_eq_singleton hc,
      List.dropLast_singleton, List.append_nil]
  | step u rest hu ih =>
    obtain ⟨n, rfl⟩ := Nat.exists_eq_succ_of_ne_zero (Nat.ne_zero_of_lt hn)
    rw [List.length_append, List.length_cons] at hn
    rw [splitLoop, findFirstOf_mem hu hrest]
    dsimp only
    rw [substr_to hrest, Option.bind_eq_bind, Option.bind_some,
      ih (drop_behind hrest) (by omega), List.splitOn_append_cons_self_of_not_mem hu,
      List.dropLast_cons_of_ne_nil (List.splitOn_ne_nil separator rest), List.append_assoc,
      List.singleton_append]

theorem split_eq (src : Str) (separator : UInt8) :
    split src separator = some (src.splitOn separator).dropLast := by
  rw [split, splitLoop_eq List.drop_zero (Nat.lt_succ_self _), List.nil_append]

/-- **The splitters compared**: those of Feature_17.hpp lose what stands behind
    the last separator, if anything does. -/
theorem splitters_eq_iff (s : Str) (c : UInt8) :
    (split s c = StringFunc.split s c ∧ splitV s c = StringFunc.split s c ∧
      splitVW s c = StringFunc.split s c) ↔ s = [] ∨ s.getLast? = some c := by
  have hsplit : split s c = StringFunc.split s c ↔ s = [] ∨ s.getLast? = some c := by
    rw [split_eq, StringFunc.split_eq, Option.some_inj, ← getLast?_splitOn, pieces]
    split_ifs with hlast
    · exact iff_of_true rfl hlast
    · -- a list differs from the list without its last piece
      refine iff_of_false (fun heq => ?_) hlast
      have hlen := congrArg List.length heq
      have hpos := List.length_pos_iff.2 (List.splitOn_ne_nil c s)
      rw [List.length_dropLast] at hlen
      omega
  constructor
  · exact fun h => hsplit.1 h.1
  · intro h
    exact ⟨hsplit.2 h, hsplit.2 h, hsplit.2 h⟩

/-- The only piece of a text without a separator is lost. -/
theorem not_splitters_eq : ¬ ∀ (s : Str) (c : UInt8), split s c = StringFunc.split s c ∧
    splitV s c = StringFunc.split s c ∧ splitVW s c = StringFunc.split s c := by
  intro h
  exact absurd (h [97] 44).1 (by decide)

end CppExperiment.StdAttri
