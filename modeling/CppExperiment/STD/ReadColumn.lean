/-
  `STD::ReadColumn` (CommonTools/STD.cc): the columns of a text, one by one.

  * `readColumnLoop_char`, `readColumn_end`: the scan steps over the characters
    of a column, of one or two bytes, and copies them; then it cuts the spaces
    off the copy in place.
  * `readColumns`: the calls for a whole text, each from where the last one
    stopped.
  * `readColumns_eq`: they yield the columns between the separators that stand
    as characters of their own.
-/
import CppExperiment.Lib.Trim
import CppExperiment.Lib.Scan
import CppExperiment.Lib.Split
import CppExperiment.STD.Gbk

namespace CppExperiment.STD

/-- `IsGBK(p)` at index `i`: the second byte is read only behind a first byte of
    a pair. -/
def isGBK (m : Mem) (p i : ℕ) : Option Bool := do
  let c ← m.load p i
  if 0x81 ≤ c ∧ c ≤ 0xFE then
    let d ← m.load p (i + 1)
    some (decide (0x40 ≤ d ∧ d ≤ 0xFE))
  else some false

/-- What `ReadColumn` does at the end of the column, with `n = j + 1` bytes in
    the buffer. -/
def trimColumn (m : Mem) (pdst n : ℕ) : Option Mem := do
  let n ← Mem.scanBack (· = 32) m pdst n
  let m ← m.store pdst n 0
  let k ← Mem.scan (· = 32) m pdst (m pdst).length 0
  if k ≠ 0 then m.memmove pdst 0 pdst k (n - k + 1) else some m

/-- `if (i < idstlen - 1) pdst[i] = psrc[i];` -/
def copyAt (m : Mem) (psrc start pdst i : ℕ) (idstlen : ℤ) : Option Mem :=
  if i < idstlen - 1 then do
    let c ← m.load psrc (start + i)
    m.store pdst i c
  else some m

/-- The loop of `ReadColumn`: the memory and the index that is returned. -/
def readColumnLoop (psrc start : ℕ) (cCol : UInt8) (pdst : ℕ) (idstlen : ℤ) :
    (fuel : ℕ) → Mem → (i : ℕ) → Option (Mem × ℕ)
  | 0, _, _ => none
  | fuel + 1, m, i => do
    let c ← m.load psrc (start + i)
    if c = cCol ∨ c = 0 then
      if idstlen - 1 < 0 then none
      else
        let m ← trimColumn m pdst (min (i : ℤ) (idstlen - 1)).toNat
        some (m, start + i + if c = 0 then 0 else 1)
    else
      let m ← copyAt m psrc start pdst i idstlen
      if ← isGBK m psrc (start + i) then
        let m ← copyAt m psrc start pdst (i + 1) idstlen
        readColumnLoop psrc start cCol pdst idstlen fuel m (i + 2)
      else readColumnLoop psrc start cCol pdst idstlen fuel m (i + 1)

/-- `ReadColumn(psrc + start, cCol, pdst, idstlen)` -/
def readColumn (m : Mem) (psrc start : ℕ) (cCol : UInt8) (pdst : ℕ) (idstlen : ℤ) :
    Option (Mem × ℕ) :=
  readColumnLoop psrc start cCol pdst idstlen (m psrc).length m 0

/-- `ReadColumn` again and again, each time from the pointer that it returned,
    until the pointer is at the terminator: the columns. -/
def readColumns (psrc : ℕ) (cCol : UInt8) (pdst : ℕ) (idstlen : ℤ) :
    (calls : ℕ) → Mem → (start : ℕ) → Option (List (List UInt8))
  | 0, _, _ => none
  | calls + 1, m, start => do
    let (m, next) ← readColumn m psrc start cCol pdst idstlen
    let c ← m.load psrc next
    if c = 0 then some [cstr (m pdst)]
    else
      let columns ← readColumns psrc cCol pdst idstlen calls m next
      some (cstr (m pdst) :: columns)

/-! ## The end of a column -/

variable {m : Mem} {psrc pdst start i fuel : ℕ} {idstlen : ℤ} {p s w : List UInt8}
  {c d cCol : UInt8}

/-- **The column in the buffer** loses its spaces. -/
theorem trimColumn_eq (hat : m.At pdst 0 p) (h0 : 0 ∉ p) (hsz : p.length < (m pdst).length) :
    ∃ m', trimColumn m pdst p.length = some m' ∧ m.SameBut pdst m' ∧ m'.IsStr pdst (trim 32 p) := by
  obtain ⟨q, n, rfl, hlast⟩ := exists_back 32 p
  obtain ⟨k, t, rfl, hhead⟩ := exists_front 32 q
  rw [List.length_append, List.length_replicate] at hsz
  have hback := Mem.scanBack_eq (p := (· = 32)) hat
    (fun x hx => decide_eq_true (List.eq_of_mem_replicate hx))
    (fun x hx => by rw [decide_eq_true_eq]; rintro rfl; exact hlast hx)
  obtain ⟨m₁, hstore, hsame, hstr⟩ :=
    Mem.isStr_store hat.of_append (fun h => h0 (List.mem_append_left _ h)) (by omega)
  have hsize := hsame.length
  have hend := hstr.at_end
  have hfront : Mem.scan (· = 32) m₁ pdst (m₁ pdst).length 0 = some k :=
    hstr.scan_front hhead (by decide)
  have htrim : trim 32 (List.replicate k 32 ++ t ++ List.replicate n 32) = t := by
    rw [trim_back, trim_front, trim_eq_self hhead]
    intro h
    exact hlast (by rw [List.getLast?_append, h, Option.some_or])
  rw [htrim, trimColumn, hback, Option.bind_eq_bind,
    Option.bind_some, hstore, Option.bind_eq_bind, Option.bind_some, hfront, Option.bind_some]
  by_cases hk : k = 0
  · rw [if_neg (not_not.2 hk)]
    rw [hk, List.replicate_zero, List.nil_append] at hstr
    exact ⟨m₁, rfl, hsame, hstr⟩
  · have hrest : m₁.At pdst k (t ++ [0]) := by
      rw [List.append_assoc] at hend
      simpa using hend.drop
    have hroom : (t ++ [0]).length ≤ (m₁ pdst).length := by
      simp only [List.length_append, List.length_replicate, List.length_singleton] at hsz ⊢
      omega
    have hput := @Mem.storeAll_put m₁ pdst 0 [] (t ++ [0]) rfl (by rwa [Nat.zero_add])
    rw [Mem.put_nil, List.nil_append] at hput
    have hcount : (List.replicate k 32 ++ t).length - k + 1 = (t ++ [0]).length := by
      simp only [List.length_append, List.length_replicate, List.length_singleton]
      omega
    have h0t : 0 ∉ t := fun h => h0 (by simp [h])
    rw [if_pos hk, Mem.memmove, Mem.memcpy, hcount, hrest.loadAll, Option.bind_eq_bind,
      Option.bind_some, hput]
    exact ⟨_, rfl, hsame.trans (Mem.sameBut_put hroom), Mem.isStr_put h0t⟩

/-! ## The scan -/

/-- A character: a byte below 0x80 that is not NUL, or a pair. -/
def IsGbkChar (w : List UInt8) : Prop :=
  (∃ c, c < 0x80 ∧ c ≠ 0 ∧ w = [c]) ∨
    ∃ c d, (0x81 ≤ c ∧ c ≤ 0xFE) ∧ (0x40 ≤ d ∧ d ≤ 0xFE) ∧ w = [c, d]

theorem IsGbkChar.zero_notMem (h : IsGbkChar w) : 0 ∉ w := by
  rcases h with ⟨c, -, hc, rfl⟩ | ⟨c, d, hc, hd, rfl⟩
  · exact fun h => hc (List.mem_singleton.1 h).symm
  · rintro h
    rcases List.mem_pair.1 h with rfl | rfl
    · exact absurd hc.1 (by decide)
    · exact absurd hd.1 (by decide)

/-- A first byte of a pair is not below 0x80. -/
theorem not_lt_of_first (hc : 0x81 ≤ c) : ¬ c < 0x80 := by
  intro h
  rw [UInt8.lt_iff_toNat_lt] at h
  exact absurd ((UInt8.le_iff_toNat_le.1 hc).trans_lt h) (by decide)

theorem isGBK_single (hc : c < 0x80) (hload : m.load psrc i = some c) :
    isGBK m psrc i = some false := by
  rw [isGBK, hload, Option.bind_eq_bind, Option.bind_some,
    if_neg fun h => not_lt_of_first h.1 hc]

theorem isGBK_pair (hc : 0x81 ≤ c ∧ c ≤ 0xFE) (hd : 0x40 ≤ d ∧ d ≤ 0xFE)
    (hat : m.At psrc i [c, d]) : isGBK m psrc i = some true := by
  rw [isGBK, hat.load, Option.bind_eq_bind, Option.bind_some, if_pos hc, hat.tail.load,
    Option.bind_some, decide_eq_true hd]

theorem copyAt_put (hne : psrc ≠ pdst) (hat : m.At psrc (start + i) (c :: s)) (hi : i = p.length)
    (hlen : (i + 1 : ℕ) < idstlen) (hsz : idstlen ≤ (m pdst).length) :
    copyAt (m.put pdst p) psrc start pdst i idstlen = some (m.put pdst (p ++ [c])) := by
  rw [copyAt, if_pos (by omega), Mem.load_put_ne hne, hat.load, Option.bind_eq_bind,
    Option.bind_some, Mem.store_put hi (by omega)]

theorem words_of_isGbkChar {u : List (List UInt8)} (hu : ∀ w ∈ u, IsGbkChar w) :
    Words gbkWidth u := by
  intro w hw
  rcases hu w hw with ⟨c, hc, -, rfl⟩ | ⟨c, d, hc, -, rfl⟩
  · rw [IsWord, gbkWidth, if_pos hc]
    rfl
  · rw [IsWord, gbkWidth, if_neg (not_lt_of_first hc.1)]
    rfl

/-- A character of the column is copied. -/
theorem readColumnLoop_char (hne : psrc ≠ pdst) (hsep : cCol < 0x80) (hw : IsGbkChar w)
    (hcol : w ≠ [cCol]) (hat : m.At psrc (start + i) w) (hi : i = p.length)
    (hlen : (i + w.length : ℕ) < idstlen) (hsz : idstlen ≤ (m pdst).length) :
    readColumnLoop psrc start cCol pdst idstlen (fuel + 1) (m.put pdst p) i =
      readColumnLoop psrc start cCol pdst idstlen fuel (m.put pdst (p ++ w)) (i + w.length) := by
  have hcopy (q : List UInt8) : (m.put pdst q).At psrc (start + i) w := hat.put_ne hne
  rcases hw with ⟨c, hc, hc0, rfl⟩ | ⟨c, d, hc, hd, rfl⟩
  · rw [List.length_singleton] at hlen
    have hcCol : c ≠ cCol := fun h => hcol (h ▸ rfl)
    rw [readColumnLoop, (hcopy p).load, Option.bind_eq_bind, Option.bind_some,
      if_neg (not_or.2 ⟨hcCol, hc0⟩), copyAt_put hne hat hi hlen hsz, Option.bind_eq_bind,
      Option.bind_some, isGBK_single hc (hcopy _).load]
    rfl
  · simp only [List.length_cons, List.length_nil] at hlen
    have hhigh (x : UInt8) (hx : x < 0x80) : c ≠ x := fun h => not_lt_of_first hc.1 (h ▸ hx)
    rw [readColumnLoop, (hcopy p).load, Option.bind_eq_bind, Option.bind_some,
      if_neg (not_or.2 ⟨hhigh cCol hsep, hhigh 0 (by decide)⟩),
      copyAt_put hne hat hi (by omega) hsz, Option.bind_eq_bind, Option.bind_some,
      isGBK_pair hc hd (hcopy _)]
    have hsecond : m.At psrc (start + (i + 1)) [d] := hat.tail
    change (copyAt _ _ _ _ _ _ >>= _) = _
    rw [copyAt_put hne hsecond (by simp [hi]) hlen hsz, List.append_assoc]
    rfl

/-- The end of the column. -/
theorem readColumnLoop_end (hne : psrc ≠ pdst) (hat : m.At psrc (start + i) (c :: s))
    (hc : c = cCol ∨ c = 0) (hi : i = p.length) (h0 : 0 ∉ p) (hlen : (i : ℕ) < idstlen)
    (hsz : idstlen ≤ (m pdst).length) :
    ∃ m', readColumnLoop psrc start cCol pdst idstlen (fuel + 1) (m.put pdst p) i =
        some (m', start + i + if c = 0 then 0 else 1) ∧
      m.SameBut pdst m' ∧ m'.IsStr pdst (trim 32 p) := by
  have hroom : p.length ≤ (m pdst).length := by omega
  obtain ⟨m', htrim, hsame, hstr⟩ := trimColumn_eq (m := m.put pdst p) Mem.at_put h0
    (by rw [Mem.length_put hroom]; omega)
  refine ⟨m', ?_, (Mem.sameBut_put hroom).trans hsame, hstr⟩
  rw [readColumnLoop, Mem.load_put_ne hne, hat.load, Option.bind_eq_bind, Option.bind_some,
    if_pos hc, if_neg (by omega), min_eq_left (by omega), Int.toNat_natCast, hi, htrim]
  rfl

/-- **One column**: the characters up to a separator or the terminator. -/
theorem readColumnLoop_column {u : List (List UInt8)} (hne : psrc ≠ pdst) (hsep : cCol < 0x80)
    (hu : ∀ w ∈ u, IsGbkChar w) (hcol : [cCol] ∉ u)
    (hat : m.At psrc (start + i) (u.flatten ++ c :: s)) (hc : c = cCol ∨ c = 0)
    (hi : i = p.length) (h0 : 0 ∉ p) (hlen : (i + u.flatten.length : ℕ) < idstlen)
    (hsz : idstlen ≤ (m pdst).length) (hfuel : u.length < fuel) :
    ∃ m', readColumnLoop psrc start cCol pdst idstlen fuel (m.put pdst p) i =
        some (m', start + (i + u.flatten.length) + if c = 0 then 0 else 1) ∧
      m.SameBut pdst m' ∧ m'.IsStr pdst (trim 32 (p ++ u.flatten)) := by
  induction u generalizing fuel i p with
  | nil =>
    obtain ⟨fuel, rfl⟩ := Nat.exists_eq_succ_of_ne_zero (Nat.ne_zero_of_lt hfuel)
    rw [List.flatten_nil, List.append_nil]
    exact readColumnLoop_end hne hat hc hi h0 hlen hsz
  | cons w u ih =>
    obtain ⟨fuel, rfl⟩ := Nat.exists_eq_succ_of_ne_zero (Nat.ne_zero_of_lt hfuel)
    obtain ⟨hw, hu⟩ := List.forall_mem_cons.1 hu
    rw [List.mem_cons, not_or] at hcol
    rw [List.flatten_cons, List.append_assoc] at hat
    rw [List.flatten_cons, List.length_append] at hlen
    rw [List.length_cons] at hfuel
    have hnext := hat.drop
    rw [Nat.add_assoc] at hnext
    have h0' : 0 ∉ p ++ w := by
      rw [List.mem_append, not_or]
      exact ⟨h0, hw.zero_notMem⟩
    rw [readColumnLoop_char hne hsep hw (Ne.symm hcol.1) hat.of_append hi (by omega) hsz,
      List.flatten_cons, ← List.append_assoc, List.length_append, ← Nat.add_assoc i]
    exact ih hu hcol.2 hnext (by rw [List.length_append, hi]) h0' (by omega) (by omega)

theorem readColumn_column {u : List (List UInt8)} (hne : psrc ≠ pdst) (hsep : cCol < 0x80)
    (hu : ∀ w ∈ u, IsGbkChar w) (hcol : [cCol] ∉ u)
    (hat : m.At psrc start (u.flatten ++ c :: s)) (hc : c = cCol ∨ c = 0)
    (hlen : (u.flatten.length : ℤ) < idstlen) (hsz : idstlen ≤ (m pdst).length) :
    ∃ m', readColumn m psrc start cCol pdst idstlen =
        some (m', start + u.flatten.length + if c = 0 then 0 else 1) ∧
      m.SameBut pdst m' ∧ cstr (m' pdst) = trim 32 u.flatten := by
  have hblock := hat.length_le
  rw [List.length_append, List.length_cons, List.length_drop] at hblock
  have hcount := (words_of_isGbkChar hu).length_le
  obtain ⟨m', hrun, hsame, hstr⟩ := @readColumnLoop_column m psrc pdst start 0 (m psrc).length
    idstlen [] s c cCol u hne hsep hu hcol hat hc rfl List.not_mem_nil (by rwa [Nat.zero_add]) hsz
    (by omega)
  rw [Mem.put_nil, Nat.zero_add] at hrun
  exact ⟨m', hrun, hsame, hstr.cstr⟩

/-! ## All columns -/

/-- The columns of a text: an empty one behind a final separator does not count,
    and an empty text has one. -/
def columns (cCol : UInt8) (cs : List (List UInt8)) : List (List UInt8) :=
  if cs = [] then [[]] else (pieces [cCol] cs).map fun u => trim 32 u.flatten

theorem readColumns_put {cs : List (List UInt8)} {calls : ℕ} (hne : psrc ≠ pdst)
    (hsep : cCol < 0x80) (hcs : ∀ w ∈ cs, IsGbkChar w)
    (hat : m.At psrc start (cs.flatten ++ [0])) (hlen : (cs.flatten.length : ℤ) < idstlen)
    (hsz : idstlen ≤ (m pdst).length) (hcalls : cs.length < calls) :
    readColumns psrc cCol pdst idstlen calls m start = some (columns cCol cs) := by
  induction cs using split_induction (c := [cCol]) generalizing m start calls with
  | last u hu =>
    obtain ⟨calls, rfl⟩ := Nat.exists_eq_succ_of_ne_zero (Nat.ne_zero_of_lt hcalls)
    obtain ⟨m', hrun, hsame, hcolumn⟩ :=
      readColumn_column hne hsep hcs hu hat (.inr rfl) hlen hsz
    have hstop : m'.load psrc (start + u.flatten.length) = some 0 := by
      rw [Mem.load, hsame.eq psrc hne]
      exact hat.drop.load
    rw [if_pos rfl] at hrun
    rw [readColumns, hrun, Option.bind_eq_bind, Option.bind_some]
    dsimp only
    rw [Nat.add_zero, hstop, Option.bind_eq_bind, Option.bind_some, if_pos rfl, hcolumn, columns,
      pieces_of_notMem hu]
    split_ifs with h
    · rw [h]; rfl
    · rfl
  | step u cs hu ih =>
    obtain ⟨calls, rfl⟩ := Nat.exists_eq_succ_of_ne_zero (Nat.ne_zero_of_lt hcalls)
    obtain ⟨hu', hcs'⟩ := List.forall_mem_append.1 hcs
    obtain ⟨hcol, hrest⟩ := List.forall_mem_cons.1 hcs'
    have hcCol : cCol ≠ 0 := by
      rintro rfl
      exact hcol.zero_notMem List.mem_cons_self
    rw [List.flatten_append, List.flatten_cons, List.append_assoc, List.append_assoc,
      List.singleton_append] at hat
    rw [List.flatten_append, List.flatten_cons, List.length_append, List.length_append,
      List.length_singleton] at hlen
    rw [List.length_append, List.length_cons] at hcalls
    obtain ⟨m', hrun, hsame, hcolumn⟩ :=
      readColumn_column hne hsep hu' hu hat (.inl rfl) (by omega) hsz
    have hnext : m'.At psrc (start + u.flatten.length + 1) (cs.flatten ++ [0]) := by
      rw [Mem.At, hsame.eq psrc hne]
      exact hat.drop.tail
    have hcolumns : columns cCol (u ++ [cCol] :: cs) =
        trim 32 u.flatten :: (pieces [cCol] cs).map fun u => trim 32 u.flatten := by
      rw [columns, if_neg (by simp), pieces_append_cons hu, List.map_cons]
    rw [if_neg hcCol] at hrun
    rw [readColumns, hrun, Option.bind_eq_bind, Option.bind_some, hcolumns]
    dsimp only
    cases cs with
    | nil =>
      rw [hnext.load, Option.bind_eq_bind, Option.bind_some, if_pos rfl, hcolumn,
        pieces_eq_nil.2 rfl, List.map_nil]
    | cons w cs =>
      have hw := hrest w List.mem_cons_self
      obtain ⟨d, t, rfl, -⟩ := (words_of_isGbkChar hrest w List.mem_cons_self).exists_cons
      have hd : d ≠ 0 := fun h => hw.zero_notMem (h ▸ List.mem_cons_self)
      have hload : m'.load psrc (start + u.flatten.length + 1) = some d := hnext.load
      have hih : readColumns psrc cCol pdst idstlen calls m' _ = _ :=
        ih hrest hnext (by omega) (by rw [hsame.length]; exact hsz) (by omega)
      rw [columns, if_neg (List.cons_ne_nil _ _)] at hih
      rw [hload, Option.bind_eq_bind, Option.bind_some, if_neg hd, hih, hcolumn]
      rfl

/-- **The columns of a text**, one call for each. -/
theorem readColumns_eq {cs : List (List UInt8)} (hne : psrc ≠ pdst) (hsep : cCol < 0x80)
    (hcs : ∀ w ∈ cs, IsGbkChar w) (hv : m.IsStr psrc cs.flatten)
    (hlen : (cs.flatten.length : ℤ) < idstlen) (hsz : idstlen ≤ (m pdst).length) :
    ∃ calls, readColumns psrc cCol pdst idstlen calls m 0 = some (columns cCol cs) :=
  ⟨cs.length + 1, readColumns_put hne hsep hcs hv.at_end hlen hsz (Nat.lt_succ_self _)⟩

/-- A pair whose second byte is the separator, a space, and a separator. -/
theorem readColumns_eq_bar : ∃ calls,
    readColumns 0 124 1 5 calls (fun b => [[0xB0, 124, 32, 124, 0], [7, 7, 7, 7, 7]].getD b []) 0 =
      some (columns 124 [[0xB0, 124], [32], [124]]) := by
  have hcs : ∀ w ∈ [[(0xB0 : UInt8), 124], [32], [124]], IsGbkChar w := by
    intro w hw
    simp only [List.mem_cons, List.not_mem_nil, or_false] at hw
    rcases hw with rfl | rfl | rfl
    · exact .inr ⟨0xB0, 124, by decide, by decide, rfl⟩
    · exact .inl ⟨32, by decide, by decide, rfl⟩
    · exact .inl ⟨124, by decide, by decide, rfl⟩
  exact @readColumns_eq (fun b => [[0xB0, 124, 32, 124, 0], [7, 7, 7, 7, 7]].getD b []) 0 1 5 124
    [[0xB0, 124], [32], [124]] (by decide) (by decide) hcs ⟨by decide, [], rfl⟩ (by decide)
    (by decide)

end CppExperiment.STD
