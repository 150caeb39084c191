/-
  `str::ParseIncludedStr` and `str::ParseIncludedStrByMark`
  (CommonTools/StringFunc.cc): what stands between two delimiters.

  * `parseIncludedStr_items`: the items of a text like `[errno][errmsg]`,
    whatever stands before, between and behind them.
  * `parseIncludedStrByMark_record`: a mark is looked for as a text, in the keys
    and the values of a record.  The value that is returned is that of the pair
    with the next `delim1` (`marked`), which is not always the pair whose key is
    the mark (`parseIncludedStrByMark_inner`).
-/
import CppExperiment.Lib.PairText
import CppExperiment.StringFunc.Split

namespace CppExperiment.StringFunc
open StdString

/-- The difference of two values of the type `size_t`. -/
def sizeSub (a b : ℕ) : ℕ := if b ≤ a then a - b else 2 ^ 64 + a - b

/-- The loop of `ParseIncludedStr` from `index` on, with at most `n` items
    left. -/
def parseIncludedLoop (src : Str) (delim1 delim2 : UInt8) :
    (n index : ℕ) → List Str → Option (List Str)
  | 0, _, _ => none
  | n + 1, index, results =>
    match findFirstOf src delim1 index with
    | none => some results
    | some indexFront =>
      match findFirstOf src delim2 indexFront with
      | none => do
        -- to the end of the text
        let item ← substr src (indexFront + 1) (sizeSub (sizeSub src.length indexFront) 1)
        return results ++ [item]
      | some indexBack => do
        let item ← substr src (indexFront + 1) (sizeSub (sizeSub indexBack indexFront) 1)
        parseIncludedLoop src delim1 delim2 n (indexBack + 1) (results ++ [item])

/-- `ParseIncludedStr(src, delim1, delim2)` -/
def parseIncludedStr (src : Str) (delim1 delim2 : UInt8) : Option (List Str) :=
  parseIncludedLoop src delim1 delim2 (src.length + 1) 0 []

/-- `ParseIncludedStrByMark(src, delim1, delim2, mark)` -/
def parseIncludedStrByMark (src : Str) (delim1 delim2 : UInt8) (mark : Str) : Option Str :=
  match findStr src mark with
  | none => some []
  | some markIndex =>
    match findFirstOf src delim1 markIndex with
    | none => some []
    | some indexFront =>
      match findFirstOf src delim2 indexFront with
      | none => substr src (indexFront + 1) (sizeSub (sizeSub src.length indexFront) 1)
      | some indexBack => substr src (indexFront + 1) (sizeSub (sizeSub indexBack indexFront) 1)

variable {delim1 delim2 : UInt8} {src rest k r s u v : Str} {ps : List (Str × Str)} {n pos : ℕ}

/-! ## What stands between two delimiters -/

/-- The text between two positions, the first one left out. -/
theorem sizeSub_between (a n : ℕ) : sizeSub (sizeSub (a + (n + 1)) a) 1 = n := by
  rw [sizeSub, sizeSub, if_pos (Nat.le_add_right _ _), Nat.add_sub_cancel_left,
    if_pos (Nat.le_add_left _ _), Nat.add_sub_cancel]

/-- The text between two delimiters. -/
theorem substr_between (h : src.drop pos = delim1 :: (v ++ r)) :
    substr src (pos + 1) v.length = some v := by
  have hpos : pos + 1 ≤ src.length := le_behind (u := []) h
  have hdrop : src.drop (pos + 1) = v ++ r := drop_behind (u := []) h
  rw [substr, if_pos hpos, hdrop, List.take_left]

/-- The second delimiter behind the first one. -/
theorem findFirstOf_second (hd : delim1 ≠ delim2) (hv : delim2 ∉ v)
    (h : src.drop pos = delim1 :: (v ++ delim2 :: r)) :
    findFirstOf src delim2 pos = some (pos + (v.length + 1)) := by
  have hnot : delim2 ∉ delim1 :: v := by
    rw [List.mem_cons, not_or]
    exact ⟨hd.symm, hv⟩
  rw [findFirstOf_mem hnot h, List.length_cons]

/-- There is no second delimiter. -/
theorem findFirstOf_no_second (hd : delim1 ≠ delim2) (hv : delim2 ∉ v)
    (h : src.drop pos = delim1 :: v) : findFirstOf src delim2 pos = none := by
  refine findFirstOf_notMem ?_
  rw [h, List.mem_cons, not_or]
  exact ⟨hd.symm, hv⟩

theorem drop_front {a : Str} (h : src.drop pos = a ++ r) : src.drop (pos + a.length) = r := by
  rw [← List.drop_drop, h, List.drop_left]

/-! ## `ParseIncludedStr` -/

theorem parseIncludedLoop_eq {results : List Str} (hd : delim1 ≠ delim2)
    (h : PairText delim1 delim2 ps rest) (hrest : src.drop pos = rest) (hn : rest.length < n) :
    parseIncludedLoop src delim1 delim2 n pos results = some (results ++ ps.map Prod.snd) := by
  induction h generalizing n pos results with
  | nil hr =>
    obtain ⟨n, rfl⟩ := Nat.exists_eq_succ_of_ne_zero (Nat.ne_zero_of_lt hn)
    rw [parseIncludedLoop, findFirstOf_notMem (hrest ▸ hr), List.map_nil, List.append_nil]
  | @last k v hk hv =>
    obtain ⟨n, rfl⟩ := Nat.exists_eq_succ_of_ne_zero (Nat.ne_zero_of_lt hn)
    have hfront := drop_front hrest
    have hlen := congrArg List.length hfront
    rw [List.length_drop, List.length_cons] at hlen
    have hsize : src.length = pos + k.length + (v.length + 1) := by omega
    have hitem : src.drop (pos + k.length) = delim1 :: (v ++ []) := by rw [hfront, List.append_nil]
    rw [parseIncludedLoop, findFirstOf_mem hk hrest]
    dsimp only
    rw [findFirstOf_no_second hd hv hfront]
    dsimp only
    rw [hsize, sizeSub_between, substr_between hitem]
    rfl
  | @cons k v s ps hk hv _ ih =>
    obtain ⟨n, rfl⟩ := Nat.exists_eq_succ_of_ne_zero (Nat.ne_zero_of_lt hn)
    have hfront := drop_front hrest
    have hnext : src.drop (pos + k.length + (v.length + 1) + 1) = s := by
      have hback := drop_behind (u := delim1 :: v) hfront
      rwa [List.length_cons] at hback
    rw [List.length_append, List.length_cons, List.length_append, List.length_cons] at hn
    rw [parseIncludedLoop, findFirstOf_mem hk hrest]
    dsimp only
    rw [findFirstOf_second hd hv hfront]
    dsimp only
    rw [sizeSub_between, substr_between hfront, Option.bind_eq_bind, Option.bind_some,
      ih hnext (by omega), List.map_cons, List.append_assoc, List.singleton_append]

theorem parseIncludedStr_text (hd : delim1 ≠ delim2) (h : PairText delim1 delim2 ps src) :
    parseIncludedStr src delim1 delim2 = some (ps.map Prod.snd) := by
  rw [parseIncludedStr, parseIncludedLoop_eq hd h List.drop_zero (Nat.lt_succ_self _),
    List.nil_append]

/-- **The items of a text**, each behind a filler, with another filler behind
    the last one; also if the text ends before the last item is closed. -/
theorem parseIncludedStr_items (hd : delim1 ≠ delim2) (hfill : ∀ p ∈ ps, delim1 ∉ p.1)
    (hitem : ∀ p ∈ ps, delim2 ∉ p.2) :
    (∀ last, delim1 ∉ last →
      parseIncludedStr (recordText delim1 delim2 ps ++ last) delim1 delim2 =
        some (ps.map Prod.snd)) ∧
    ∀ filler item, delim1 ∉ filler → delim2 ∉ item →
      parseIncludedStr (recordText delim1 delim2 ps ++ (filler ++ delim1 :: item)) delim1 delim2 =
        some (ps.map Prod.snd ++ [item]) := by
  constructor
  · intro last hlast
    have h := parseIncludedStr_text hd (pairText_record hfill hitem (.nil hlast))
    rwa [List.append_nil] at h
  · intro filler item hf hi
    have h := parseIncludedStr_text hd (pairText_record hfill hitem (.last hf hi))
    rwa [List.map_append] at h

/-- Two items, the first one with a `[`, with a `]` between them. -/
theorem parseIncludedStr_items_brackets :
    parseIncludedStr [91, 91, 97, 93, 93, 91, 98, 93] 91 93 = some [[91, 97], [98]] ∧
      parseIncludedStr [91, 91, 97, 93, 93, 91, 98] 91 93 = some [[91, 97], [98]] := by
  have h := @parseIncludedStr_items 91 93
  exact ⟨(@h [([], [91, 97]), ([93], [98])] (by decide) (by decide) (by decide)).1 [] (by decide),
    (@h [([], [91, 97])] (by decide) (by decide) (by decide)).2 [93] [98] (by decide) (by decide)⟩

/-! ## `ParseIncludedStrByMark` -/

/-- The value of the first pair whose key has the mark in it, or that comes
    behind a value with the mark in it. -/
def marked (mark : Str) : List (Str × Str) → Option Str
  | [] => none
  | (key, value) :: ps =>
    if mark <:+: key then some value
    else if mark <:+: value then ps.head?.map Prod.snd
    else marked mark ps

/-- The value between the next delimiters behind the first occurrence. -/
theorem parseIncludedStrByMark_first {a : Str} (hd : delim1 ≠ delim2) (ha : delim1 ∉ a)
    (hv : delim2 ∉ v) (h : First k src u r) (hr : k ++ r = a ++ delim1 :: (v ++ delim2 :: s)) :
    parseIncludedStrByMark src delim1 delim2 k = some v := by
  have hmark : src.drop u.length = a ++ delim1 :: (v ++ delim2 :: s) := by
    rw [h.eq, List.drop_left, hr]
  have hfront := drop_front hmark
  rw [parseIncludedStrByMark, findStr_first h]
  dsimp only
  rw [findFirstOf_mem ha hmark]
  dsimp only
  rw [findFirstOf_second hd hv hfront]
  dsimp only
  rw [sizeSub_between, substr_between hfront]

/-- Both parts of a pair are free of both delimiters. -/
def Free (delim1 delim2 : UInt8) (p : Str × Str) : Prop :=
  (delim1 ∉ p.1 ∧ delim2 ∉ p.1) ∧ delim1 ∉ p.2 ∧ delim2 ∉ p.2

/-- No delimiter stands behind the first occurrence. -/
theorem parseIncludedStrByMark_last (h : First k src u r) (hr : delim1 ∉ k ++ r) :
    parseIncludedStrByMark src delim1 delim2 k = some [] := by
  have hmark : delim1 ∉ src.drop u.length := by rwa [h.eq, List.drop_left]
  rw [parseIncludedStrByMark, findStr_first h]
  dsimp only
  rw [findFirstOf_notMem hmark]

/-- **The pair that is found** in a record; no mark starts in `t`, which stands
    in front. -/
theorem parseIncludedStrByMark_append {t : Str} (hd : delim1 ≠ delim2)
    (hps : ∀ p ∈ ps, Free delim1 delim2 p) (hk : k ≠ [] ∨ ps ≠ []) (h1 : delim1 ∉ k)
    (h2 : delim2 ∉ k) (ht : NoStart k t (recordText delim1 delim2 ps)) :
    parseIncludedStrByMark (t ++ recordText delim1 delim2 ps) delim1 delim2 k =
      some ((marked k ps).getD []) := by
  induction ps generalizing t with
  | nil =>
    have hnot : ¬ k <:+: t ++ recordText delim1 delim2 [] := by
      rw [recordText, List.flatMap_nil, List.append_nil]
      exact ht.notInfix (hk.resolve_right (· rfl))
    rw [parseIncludedStrByMark, findStr_notInfix hnot]
    rfl
  | cons p ps ih =>
    obtain ⟨key, value⟩ := p
    obtain ⟨hp, hps⟩ := List.forall_mem_cons.1 hps
    obtain ⟨⟨hkey1, -⟩, hvalue1, hvalue2⟩ : Free delim1 delim2 (key, value) := hp
    have htext : recordText delim1 delim2 ((key, value) :: ps) =
        (key ++ [delim1]) ++ (value ++ delim2 :: recordText delim1 delim2 ps) := by
      rw [recordText_cons, List.append_assoc, List.singleton_append]
    rw [htext] at ht ⊢
    by_cases hkey : k <:+: key
    · obtain ⟨u, r, h⟩ := exists_first hkey
      rw [List.append_assoc] at ht ⊢
      have hfirst := (h.append _).noStart_append ht
      have ha : delim1 ∉ k ++ r := fun hc => hkey1 (by rw [h.eq]; exact List.mem_append_right u hc)
      rw [marked, if_pos hkey]
      exact parseIncludedStrByMark_first hd ha hvalue2 hfirst (List.append_assoc _ _ _).symm
    · -- an empty mark would have been found in the key
      have hne : k ≠ [] := fun h => hkey (h ▸ List.nil_infix)
      have hskip := ht.append (noStart_concat hkey h1 _)
      rw [← List.append_assoc t, marked, if_neg hkey]
      by_cases hvalue : k <:+: value
      · obtain ⟨u, r, h⟩ := exists_first hvalue
        have hfirst := (h.append _).noStart_append hskip
        have hr : delim1 ∉ k ++ r := fun hc =>
          hvalue1 (by rw [h.eq]; exact List.mem_append_right u hc)
        rw [if_pos hvalue]
        cases ps with
        | nil =>
          refine parseIncludedStrByMark_last hfirst ?_
          rw [← List.append_assoc, List.mem_append, not_or]
          exact ⟨hr, by simpa [recordText] using hd⟩
        | cons q ps =>
          obtain ⟨⟨⟨hq1, -⟩, -, hq2⟩, -⟩ := List.forall_mem_cons.1 hps
          have ha : delim1 ∉ (k ++ r) ++ delim2 :: q.1 := by
            rw [List.mem_append, List.mem_cons, not_or, not_or]
            exact ⟨hr, hd, hq1⟩
          have hbehind : k ++ (r ++ delim2 :: recordText delim1 delim2 (q :: ps)) =
              (k ++ r ++ delim2 :: q.1) ++
                delim1 :: (q.2 ++ delim2 :: recordText delim1 delim2 ps) := by
            rw [recordText_cons]
            simp
          exact parseIncludedStrByMark_first hd ha hq2 hfirst hbehind
      · have hnext : value ++ delim2 :: recordText delim1 delim2 ps =
            (value ++ [delim2]) ++ recordText delim1 delim2 ps := by
          rw [List.append_assoc, List.singleton_append]
        rw [hnext] at hskip ⊢
        rw [if_neg hvalue, ← List.append_assoc (t ++ _)]
        exact ih hps (.inl hne) (hskip.append (noStart_concat hvalue h2 _))

theorem marked_eq (pre post : List (Str × Str)) (hkey : ∀ p ∈ pre, ¬ k <:+: p.1)
    (hvalue : ∀ p ∈ pre.dropLast, ¬ k <:+: p.2) :
    marked k (pre ++ (k, v) :: post) = some v := by
  induction pre with
  | nil => rw [List.nil_append, marked, if_pos List.infix_rfl]
  | cons p pre ih =>
    obtain ⟨hp, hkey⟩ := List.forall_mem_cons.1 hkey
    rw [List.cons_append, marked, if_neg hp]
    cases pre with
    | nil =>
      rw [List.nil_append, marked, if_pos List.infix_rfl]
      exact ite_self _
    | cons q pre =>
      rw [List.dropLast_cons_cons] at hvalue
      obtain ⟨hpv, hvalue⟩ := List.forall_mem_cons.1 hvalue
      rw [if_neg hpv]
      exact ih hkey hvalue

/-- Every key of the record is found. -/
theorem exists_marked (h : (k, v) ∈ ps) : ∃ w, marked k ps = some w := by
  induction ps with
  | nil => cases h
  | cons p ps ih =>
    rw [marked]
    split_ifs with hkey hvalue
    · exact ⟨p.2, rfl⟩
    · rcases List.mem_cons.1 h with rfl | h
      · exact absurd List.infix_rfl hkey
      · cases ps with
        | nil => cases h
        | cons q ps => exact ⟨q.2, rfl⟩
    · rcases List.mem_cons.1 h with rfl | h
      · exact absurd List.infix_rfl hkey
      · exact ih h

/-- **The value for a key.**  It is that of the first pair whose key has `k` in
    it, or that comes behind a value with `k` in it; the value stored under `k`
    if `k` is neither in an earlier key nor in an earlier value, other than
    the one directly before. -/
theorem parseIncludedStrByMark_record (hd : delim1 ≠ delim2)
    (hps : ∀ p ∈ ps, Free delim1 delim2 p) (hne : ∀ p ∈ ps, p.1 ≠ []) (hk : (k, v) ∈ ps) :
    ∃ w, marked k ps = some w ∧
      parseIncludedStrByMark (recordText delim1 delim2 ps) delim1 delim2 k = some w ∧
      ∀ pre post, ps = pre ++ (k, v) :: post → (∀ p ∈ pre, ¬ k <:+: p.1) →
        (∀ p ∈ pre.dropLast, ¬ k <:+: p.2) → w = v := by
  obtain ⟨w, hw⟩ := exists_marked hk
  obtain ⟨⟨h1, h2⟩, -⟩ := hps _ hk
  have h := parseIncludedStrByMark_append hd hps (.inl (hne _ hk)) h1 h2 noStart_nil
  rw [List.nil_append, hw] at h
  refine ⟨w, hw, h, ?_⟩
  rintro pre post rfl hkey hvalue
  rw [marked_eq pre post hkey hvalue, Option.some_inj] at hw
  exact hw.symm

/-- The record `x:a;ab:y;`, whose second key is in no earlier part, and whose
    first value is in the second key. -/
theorem parseIncludedStrByMark_record_colon : ∃ w,
    marked [97, 98] [([120], [97]), ([97, 98], [121])] = some w ∧
    parseIncludedStrByMark [120, 58, 97, 59, 97, 98, 58, 121, 59] 58 59 [97, 98] = some w ∧
    w = [121] := by
  obtain ⟨w, hw, hparse, hv⟩ := @parseIncludedStrByMark_record 58 59 [97, 98] [121]
    [([120], [97]), ([97, 98], [121])] (by decide) (by unfold Free; decide) (by decide) (by decide)
  exact ⟨w, hw, hparse, hv [([120], [97])] [] rfl (by decide) (by decide)⟩

/-- In `ba:x;a:y;` the mark `a` is found in the first key. -/
theorem parseIncludedStrByMark_inner :
    parseIncludedStrByMark (recordText 58 59 [([98, 97], [120]), ([97], [121])]) 58 59 [97] ≠
      some [121] := by
  have h : parseIncludedStrByMark (recordText 58 59 [([98, 97], [120]), ([97], [121])]) 58 59 [97] =
    some [120] := rfl
  rw [h]
  decide

end CppExperiment.StringFunc
