/-
  `str::FoldSpace` in CommonTools/StringFunc.cc.

  `foldLoop_eq`: the loop drops a space behind a space.  `foldSpace_eq`: what
  is left after stripping is the pieces that are not empty, with one space
  between them.
-/
import CppExperiment.Lib.Squeeze
import CppExperiment.StringFunc.Strip

namespace CppExperiment.StringFunc

/-- The loop of `FoldSpace` over the rest `it` of the text. -/
def foldLoop (lastItem : UInt8) : (it : Str) → (result : Str) → Str
  | [], result => result
  | c :: it, result =>
    if lastItem = 32 ∧ c = 32 then foldLoop lastItem it result
    else foldLoop c it (result ++ [c])

/-- `FoldSpace(src)` -/
def foldSpace (src : Str) : Option Str := strip (foldLoop 0 src []) 32

theorem foldLoop_eq (lastItem : UInt8) (it result : Str) :
    foldLoop lastItem it result = result ++ squeeze 32 lastItem it := by
  induction it generalizing lastItem result with
  | nil => exact (List.append_nil result).symm
  | cons c it ih =>
    rw [foldLoop, squeeze_cons]
    split_ifs with h
    · rw [ih]
    · rw [ih, List.append_assoc, List.singleton_append]

/-- **`FoldSpace` joins the pieces that are not empty.** -/
theorem foldSpace_eq (src : Str) : foldSpace src = some ([32].intercalate (fullPieces 32 src)) := by
  rw [foldSpace, strip_eq, foldLoop_eq, List.nil_append, trim_squeeze]

/-- **Folding, splitting and joining.**  `FoldSpace` joins the pieces of
    `Split` that are not empty; so what it returns has no space at its ends and
    no two side by side, has the other letters of the text, and stays when it
    is folded again. -/
theorem foldSpace_split_join (s : Str) : ∃ ps r, split s 32 = some ps ∧ foldSpace s = some r ∧
    r = joinWithDelim (ps.filter (!·.isEmpty)) 32 ∧
    r.head? ≠ some 32 ∧ r.getLast? ≠ some 32 ∧ ¬ ([32, 32] : Str) <:+: r ∧
    r.filter (· ≠ 32) = s.filter (· ≠ 32) ∧ foldSpace r = some r := by
  have hc : ∀ p ∈ fullPieces 32 s, 32 ∉ p := fun p => notMem_of_mem_fullPieces
  have hne : ∀ p ∈ fullPieces 32 s, p ≠ [] := fun p => ne_nil_of_mem_fullPieces
  refine ⟨pieces 32 s, [32].intercalate (fullPieces 32 s), split_eq s 32, foldSpace_eq s, ?_,
    head?_intercalate hc hne, getLast?_intercalate hc hne, not_infix_fullPieces 32 s,
    filter_fullPieces 32 s, ?_⟩
  · rw [joinWithDelim_eq, filter_pieces]
  · rw [foldSpace_eq, fullPieces_intercalate]

/-- Spaces at both ends and between two letters. -/
example : foldSpace [32, 97, 32, 32, 98, 32] = some [97, 32, 98] := by decide

end CppExperiment.StringFunc
