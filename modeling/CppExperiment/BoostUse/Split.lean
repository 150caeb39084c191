/-
  The three splitters of LibraryUse/BoostUse/test_string_ref.cc.

  `Split` is the function of StringFunc.cc; `Split_Ref` and `Split_View` cut
  the front off a view instead of counting, and leave out the empty pieces.
  `splitters_agree_iff`: they agree with each other, and with `Split` exactly
  if it returns no empty piece.
-/
import CppExperiment.StringFunc.Split

namespace CppExperiment.BoostUse
open StdString

/-- A `std::string`, or what a `str_ref` or `str_view` shows. -/
abbrev Str := StringFunc.Str

variable {src : Str} {separator : UInt8} {result : List Str}

/-- `Split`, as in StringFunc.cc. -/
def split (src : Str) (separator : UInt8) : Option (List Str) := StringFunc.split src separator

/-- The loop of `Split_Ref` and `Split_View` on the rest `iter` of the text,
    with at most `n` separators left; `none` if `substr` throws or the loop
    goes on. -/
def viewLoop (separator : UInt8) : (n : ℕ) → (iter : Str) → List Str → Option (List Str)
  | 0, _, _ => none
  | n + 1, iter, result =>
    match findFirstOf iter separator 0 with
    | none => do
      let last ← substrFrom iter 0
      return if !last.isEmpty then result ++ [last] else result
    | some separatePos => do
      let result := if separatePos ≠ 0 then result ++ [iter.take separatePos] else result
      let iter ← substrFrom iter (separatePos + 1)
      viewLoop separator n iter result

/-- `Split_Ref(src, separator)` -/
def splitRef (src : Str) (separator : UInt8) : Option (List Str) :=
  viewLoop separator (src.length + 1) src []

/-- `Split_View(src, separator)` -/
def splitView (src : Str) (separator : UInt8) : Option (List Str) :=
  viewLoop separator (src.length + 1) src []

theorem viewLoop_eq {n : ℕ} {iter : Str} (hn : iter.length < n) :
    viewLoop separator n iter result =
      some (result ++ (pieces separator iter).filter (!·.isEmpty)) := by
  induction iter using split_induction (c := separator) generalizing n result with
  | last iter hc =>
    obtain ⟨n, rfl⟩ := Nat.exists_eq_succ_of_ne_zero (Nat.ne_zero_of_lt hn)
    rw [viewLoop, findFirstOf_notMem hc, substrFrom, if_pos (Nat.zero_le _), pieces_of_notMem hc]
    cases iter with
    | nil => simp
    | cons c iter => simp
  | step u rest hu ih =>
    obtain ⟨n, rfl⟩ := Nat.exists_eq_succ_of_ne_zero (Nat.ne_zero_of_lt hn)
    rw [List.length_append, List.length_cons] at hn
    have hlen : u.length + 1 ≤ (u ++ separator :: rest).length := by
      rw [List.length_append, List.length_cons]; omega
    have hrest : (u ++ separator :: rest).drop (u.length + 1) = rest := by
      rw [← List.drop_drop, List.drop_left]; rfl
    rw [viewLoop, findFirstOf_mem hu List.drop_zero, Nat.zero_add]
    simp only [substrFrom, if_pos hlen, hrest, List.take_left, Option.bind_eq_bind,
      Option.bind_some]
    rw [ih (by omega), pieces_append_cons hu]
    cases u with
    | nil => simp
    | cons c u => simp

/-- **The splitters compared.**  `Split_Ref` and `Split_View` return the pieces
    of `Split` that are not empty; so they agree, and agree with `Split`
    exactly if it returns no empty piece. -/
theorem splitters_agree_iff (src : Str) (separator : UInt8) :
    splitView src separator = splitRef src separator ∧
    ∃ ps, split src separator = some ps ∧
      splitRef src separator = some (ps.filter (!·.isEmpty)) ∧
      (splitRef src separator = split src separator ↔ [] ∉ ps) := by
  have hsplit : split src separator = some (pieces separator src) := StringFunc.split_eq _ _
  have href : splitRef src separator = some ((pieces separator src).filter (!·.isEmpty)) :=
    viewLoop_eq (Nat.lt_succ_self _)
  refine ⟨rfl, _, hsplit, href, ?_⟩
  rw [href, hsplit, Option.some_inj, List.filter_eq_self]
  constructor
  · intro h hnil
    exact absurd (h [] hnil) (by decide)
  · intro h p hp
    cases p with
    | nil => exact absurd hp h
    | cons c p => rfl

/-- The text `a||b`: `Split` returns its empty piece, the others do not. -/
theorem splitRef_skips_empty :
    split [97, 124, 124, 98] 124 = some [[97], [], [98]] ∧
    splitRef [97, 124, 124, 98] 124 = some [[97], [98]] ∧
    ¬ ∀ (s : Str) (c : UInt8), split s c = splitRef s c ∧ splitRef s c = splitView s c := by
  refine ⟨rfl, rfl, ?_⟩
  intro h
  exact absurd (h [97, 124, 124, 98] 124).1 (by decide)

end CppExperiment.BoostUse
