/-
  `dai::ReadLinesFromFile` in CommonTools/PoboTool.cc.

  `readLines_eq`: the lines are the pieces of the file that are not empty, so
  those that `str::Split` returns without the empty ones.  `readLines_iff`: the
  lines that are read back from a file into which they were joined.
-/
import CppExperiment.Lib.Squeeze
import CppExperiment.StringFunc.Split

namespace CppExperiment.PoboTool
open StringFunc

/-- The end of a line. -/
def newline : UInt8 := 10

/-- `getline(fs, oneline)`: the line, and what is left of the file; it fails at
    the end of the file. -/
def getline (fs : Str) : Option (Str × Str) :=
  if fs.isEmpty then none
  else some (fs.takeWhile (· ≠ newline), (fs.dropWhile (· ≠ newline)).drop 1)

/-- The loop of `ReadLinesFromFile`, with at most `n` rounds left. -/
def readLinesLoop : (n : ℕ) → (fs : Str) → (lines : List Str) → Option (List Str)
  | 0, _, _ => none
  | n + 1, fs, lines =>
    match getline fs with
    | none => some lines
    | some (oneline, fs) =>
      -- empty lines are left out
      readLinesLoop n fs (if oneline.isEmpty then lines else lines ++ [oneline])

/-- `ReadLinesFromFile(filename)`, with the bytes of the file, if it can be opened -/
def readLinesFromFile : (file : Option Str) → Option (List Str)
  | none => some []
  | some fs => readLinesLoop (fs.length + 1) fs []

variable {fs s u : Str} {lines : List Str} {n : ℕ}

/-! ## The lines -/

theorem getline_last (hs : newline ∉ s) (hne : s ≠ []) : getline s = some (s, []) := by
  have hall : ∀ c ∈ s, decide (c ≠ newline) = true := by
    intro c hc
    rw [decide_eq_true_iff]
    rintro rfl
    exact hs hc
  rw [getline, if_neg (by simpa using hne), List.takeWhile_eq_self_iff.2 hall,
    List.dropWhile_eq_nil_iff.2 hall, List.drop_nil]

theorem getline_append (hu : newline ∉ u) (s : Str) :
    getline (u ++ newline :: s) = some (u, s) := by
  have htake := takeWhile_append_cons hu s
  have hdrop := List.takeWhile_append_dropWhile (p := (· ≠ newline)) (l := u ++ newline :: s)
  rw [htake, List.append_cancel_left_eq] at hdrop
  rw [getline, if_neg (by simp), htake, hdrop]
  rfl

theorem readLinesLoop_eq (hn : fs.length < n) :
    readLinesLoop n fs lines = some (lines ++ fullPieces newline fs) := by
  induction fs using split_induction (c := newline) generalizing n lines with
  | last s hs =>
    obtain ⟨n, rfl⟩ := Nat.exists_eq_succ_of_ne_zero (Nat.ne_zero_of_lt hn)
    rw [fullPieces_of_notMem hs, readLinesLoop]
    by_cases hne : s = []
    · subst hne
      rw [if_pos rfl, List.append_nil]
      rfl
    · obtain ⟨n, rfl⟩ : ∃ k, n = k + 1 := by
        have := List.length_pos_iff.2 hne
        exact Nat.exists_eq_succ_of_ne_zero (by omega)
      rw [getline_last hs hne, if_neg hne]
      dsimp only
      rw [if_neg (by simpa using hne)]
      rfl
  | step u s hu ih =>
    obtain ⟨n, rfl⟩ := Nat.exists_eq_succ_of_ne_zero (Nat.ne_zero_of_lt hn)
    rw [List.length_append, List.length_cons] at hn
    rw [readLinesLoop, getline_append hu, fullPieces_append_cons hu]
    dsimp only
    rw [ih (by omega)]
    cases u with
    | nil => rfl
    | cons c u =>
      rw [if_neg (by simp), if_neg (List.cons_ne_nil c u), List.append_assoc]
      rfl

/-- **The lines of a file** are its pieces that are not empty. -/
theorem readLines_eq (fs : Str) :
    readLinesFromFile (some fs) = some (fullPieces newline fs) := by
  rw [readLinesFromFile, readLinesLoop_eq (Nat.lt_succ_self _), List.nil_append]

/-- **Reading back the lines.**  The lines of a file are what `Split` returns,
    without the empty texts; and lines that were joined into a file, with a
    final line end or not, are read back exactly if none is empty or has a line
    end in it. -/
theorem readLines_iff (fs : Str) (lines : List Str) :
    readLinesFromFile (some fs) = (split fs newline).map (List.filter (!·.isEmpty)) ∧
    ∀ final ∈ [[], [newline]],
      (readLinesFromFile (some (joinWithDelim lines newline ++ final)) = some lines ↔
        ∀ line ∈ lines, line ≠ [] ∧ newline ∉ line) := by
  constructor
  · rw [readLines_eq, split_eq, Option.map_some, filter_pieces]
  · intro final hfinal
    have hpieces : fullPieces newline (joinWithDelim lines newline ++ final) =
        fullPieces newline (joinWithDelim lines newline) := by
      rcases List.mem_pair.1 hfinal with rfl | rfl
      · rw [List.append_nil]
      · exact fullPieces_concat _ _
    rw [readLines_eq, hpieces, joinWithDelim_eq, Option.some_inj]
    constructor
    · intro h line hline
      rw [← h] at hline
      exact ⟨ne_nil_of_mem_fullPieces hline, notMem_of_mem_fullPieces hline⟩
    · intro h
      exact fullPieces_join (fun p hp => (h p hp).2) fun p hp => (h p hp).1

/-- A file with an empty line, and two lines with their ends. -/
theorem readLines_iff_two :
    readLinesFromFile (some [97, 10, 10, 98]) =
        (split [97, 10, 10, 98] newline).map (List.filter (!·.isEmpty)) ∧
      readLinesFromFile (some [97, 10, 98, 10]) = some [[97], [98]] := by
  obtain ⟨hsplit, hback⟩ := readLines_iff [97, 10, 10, 98] [[97], [98]]
  exact ⟨hsplit, (hback [newline] (by decide)).2 (by decide)⟩

end CppExperiment.PoboTool
