/-
  `str::ParseToPairs` (CommonTools/StringFunc.cc): the keys and values of a
  text like `user=abcdef;pwd=123456;`.

  * `parseToPairs_text`: the function stores the pairs of a `PairText` one after
    the other, and a key that is there keeps its value.
  * `parseToPairs_lookup`: hence each key has its first value, for a list of
    pairs that is joined by the separator.
-/
import CppExperiment.Lib.PairText
import CppExperiment.StringFunc.Split

namespace CppExperiment.StringFunc
open StdString

/-- A `std::map<std::string, std::string>`. -/
abbrev StrMap := AList fun _ : Str => Str

/-- `results.emplace(k, v)`: a key that is there keeps its value. -/
def emplace (results : StrMap) (k v : Str) : StrMap :=
  if k ∈ results then results else results.insert k v

/-- The loop of `ParseToPairs` from `currIndex` on, with at most `n` pairs
    left. -/
def parsePairsLoop (src : Str) (delim1 delim2 : UInt8) :
    (n currIndex : ℕ) → StrMap → Option StrMap
  | 0, _, _ => none
  | n + 1, currIndex, results =>
    match findFirstOf src delim1 currIndex with
    | none => some results
    | some index1 => do
      let k ← substr src currIndex (index1 - currIndex)
      let currIndex := index1 + 1
      match findFirstOf src delim2 currIndex with
      | none => do
        let v ← substr src currIndex (src.length - currIndex)
        return emplace results k v
      | some index2 => do
        let v ← substr src currIndex (index2 - currIndex)
        parsePairsLoop src delim1 delim2 n (index2 + 1) (emplace results k v)

/-- `ParseToPairs(src, delim1, delim2)` -/
def parseToPairs (src : Str) (delim1 delim2 : UInt8) : Option StrMap :=
  parsePairsLoop src delim1 delim2 (src.length + 1) 0 ∅

variable {delim1 delim2 : UInt8} {src rest : Str} {ps : List (Str × Str)}

/-! ## The loop -/

/-- Storing the pairs. -/
def emplaceAll (results : StrMap) (ps : List (Str × Str)) : StrMap :=
  ps.foldl (fun results p => emplace results p.1 p.2) results

theorem lookup_emplace (results : StrMap) (k v x : Str) :
    (emplace results k v).lookup x = (results.lookup x).or (if x = k then some v else none) := by
  rw [emplace]
  by_cases hk : k ∈ results
  · rw [if_pos hk]
    by_cases hx : x = k
    · obtain ⟨w, hw⟩ := Option.isSome_iff_exists.1 (AList.lookup_isSome.2 hk)
      rw [hx, hw, Option.some_or]
    · rw [if_neg hx, Option.or_none]
  · rw [if_neg hk]
    by_cases hx : x = k
    · rw [if_pos hx, hx, AList.lookup_insert, AList.lookup_eq_none.2 hk, Option.none_or]
    · rw [if_neg hx, AList.lookup_insert_ne hx, Option.or_none]

/-- The first value of a key is kept. -/
theorem lookup_emplaceAll (results : StrMap) (ps : List (Str × Str)) (x : Str) :
    (emplaceAll results ps).lookup x = (results.lookup x).or (ps.lookup x) := by
  induction ps generalizing results with
  | nil => rw [List.lookup_nil, Option.or_none]; rfl
  | cons p ps ih =>
    change (emplaceAll (emplace results p.1 p.2) ps).lookup x = _
    rw [ih, lookup_emplace, Option.or_assoc, List.lookup_cons]
    by_cases hx : x = p.1
    · rw [if_pos hx, Option.some_or, beq_iff_eq.2 hx]
    · rw [if_neg hx, Option.none_or, beq_eq_false_iff_ne.2 hx]

theorem parsePairsLoop_eq {n pos : ℕ} {results : StrMap} (h : PairText delim1 delim2 ps rest)
    (hrest : src.drop pos = rest) (hn : rest.length < n) :
    parsePairsLoop src delim1 delim2 n pos results = some (emplaceAll results ps) := by
  induction h generalizing n pos results with
  | nil hr =>
    obtain ⟨n, rfl⟩ := Nat.exists_eq_succ_of_ne_zero (Nat.ne_zero_of_lt hn)
    rw [parsePairsLoop, findFirstOf_notMem (hrest ▸ hr)]
    rfl
  | @last k v hk hv =>
    obtain ⟨n, rfl⟩ := Nat.exists_eq_succ_of_ne_zero (Nat.ne_zero_of_lt hn)
    have hvalue := drop_behind hrest
    rw [parsePairsLoop, findFirstOf_mem hk hrest]
    dsimp only
    rw [substr_to hrest, Option.bind_eq_bind, Option.bind_some, findFirstOf_notMem (hvalue ▸ hv)]
    dsimp only
    rw [substr_rest (le_behind hrest), hvalue]
    rfl
  | @cons k v s ps hk hv hps ih =>
    obtain ⟨n, rfl⟩ := Nat.exists_eq_succ_of_ne_zero (Nat.ne_zero_of_lt hn)
    have hvalue := drop_behind hrest
    rw [List.length_append, List.length_cons, List.length_append, List.length_cons] at hn
    rw [parsePairsLoop, findFirstOf_mem hk hrest]
    dsimp only
    rw [substr_to hrest, Option.bind_eq_bind, Option.bind_some, findFirstOf_mem hv hvalue]
    dsimp only
    rw [substr_to hvalue, Option.bind_some]
    exact ih (drop_behind hvalue) (by omega)

/-- **The pairs of a text** are stored. -/
theorem parseToPairs_text (h : PairText delim1 delim2 ps src) :
    parseToPairs src delim1 delim2 = some (emplaceAll ∅ ps) :=
  parsePairsLoop_eq h List.drop_zero (Nat.lt_succ_self _)

/-- **Each key has its first value.** -/
theorem parseToPairs_lookup (hk : ∀ p ∈ ps, delim1 ∉ p.1) (hv : ∀ p ∈ ps, delim2 ∉ p.2)
    (hsrc : src = [delim2].intercalate (ps.map fun p => p.1 ++ delim1 :: p.2) ∨
      ps ≠ [] ∧ src = [delim2].intercalate (ps.map fun p => p.1 ++ delim1 :: p.2) ++ [delim2]) :
    ∃ results, parseToPairs src delim1 delim2 = some results ∧
      ∀ k, results.lookup k = ps.lookup k := by
  have htext : PairText delim1 delim2 ps src := by
    rcases hsrc with rfl | ⟨hps, rfl⟩
    · exact pairText_join hk hv
    · have h : PairText delim1 delim2 (ps ++ []) (recordText delim1 delim2 ps ++ []) :=
        pairText_record hk hv (.nil List.not_mem_nil)
      rwa [List.append_nil, List.append_nil, ← join_append hps] at h
  refine ⟨_, parseToPairs_text htext, ?_⟩
  intro k
  rw [lookup_emplaceAll]
  exact Option.none_or

/-- A key that is repeated, an empty key and an empty value. -/
theorem parseToPairs_lookup_equals : ∃ results,
    parseToPairs [97, 61, 59, 97, 61, 98, 59, 61, 61] 61 59 = some results ∧
      ∀ k, results.lookup k = [([97], []), ([97], [98]), ([], [61])].lookup k :=
  @parseToPairs_lookup 61 59 _ [([97], []), ([97], [98]), ([], [61])] (by decide) (by decide)
    (.inl rfl)

end CppExperiment.StringFunc
