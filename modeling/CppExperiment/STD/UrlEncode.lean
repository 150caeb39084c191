/-
  The two URL encoders of CommonTools/STD.cc: `STD::AnsiToURLEncode`, which
  writes into a buffer, and `STD::UrlEncode`.

  They are the codes `ansiForm` and `urlForm`.

  * `ansiLoop_run`: as long as there is room, the loop writes the code of one
    byte after the other.
  * `ansiToURLEncode_iff`: only the branch for `%XX` checks the room, so that a
    byte that is written as one may fill the buffer, and the terminator is
    written behind it.
  * `urlEncoders_decode`: both codes are undone by form decoding.
-/
import CppExperiment.Lib.LetterCode
import CppExperiment.STD.Base64

namespace CppExperiment.STD

/-- `std::isalnum` in the C locale. -/
def isalnum (c : UInt8) : Bool := (48 ≤ c ∧ c ≤ 57) ∨ (65 ≤ c ∧ c ≤ 90) ∨ (97 ≤ c ∧ c ≤ 122)

/-- The loop of `AnsiToURLEncode` and what follows it.  A byte from 0x80 on is
    negative as a `char`, and in none of the ranges either way. -/
def ansiLoop (result : ℕ) (resultSize : ℤ) (str : ℕ) (strSize : ℤ) :
    (fuel : ℕ) → Mem → (i j : ℕ) → Option (Mem × ℕ)
  | 0, _, _, _ => none
  | fuel + 1, m, i, j =>
    if i < strSize ∧ j < resultSize then do
      let ch ← m.load str i
      if (65 ≤ ch ∧ ch ≤ 90) ∨ (97 ≤ ch ∧ ch ≤ 122) ∨ (48 ≤ ch ∧ ch ≤ 57) then
        let m ← m.store result j ch
        ansiLoop result resultSize str strSize fuel m (i + 1) (j + 1)
      else if ch = 32 then
        let m ← m.store result j 43
        ansiLoop result resultSize str strSize fuel m (i + 1) (j + 1)
      else if ch = 46 ∨ ch = 45 ∨ ch = 95 ∨ ch = 42 then
        let m ← m.store result j ch
        ansiLoop result resultSize str strSize fuel m (i + 1) (j + 1)
      else
        let next ← addInt j 3
        if next < resultSize then
          -- `sprintf` writes a NUL behind the digits
          let m ← m.storeAll result j (37 :: hexByte ch ++ [0])
          ansiLoop result resultSize str strSize fuel m (i + 1) (j + 3)
        else some (m, 0)
    else do
      let m ← m.store result j 0
      some (m, j)

/-- `AnsiToURLEncode(result, resultSize, str, strSize)`: the memory and what is
    returned; `none` is the null pointer. -/
def ansiToURLEncode (m : Mem) (result : Option ℕ) (resultSize : ℤ) (str : Option ℕ)
    (strSize : ℤ) : Option (Mem × ℕ) :=
  match str, result with
  | some str, some result =>
    if strSize ≤ 0 ∨ resultSize ≤ 0 then some (m, 0)
    else ansiLoop result resultSize str strSize (strSize.toNat + 1) m 0 0
  | _, _ => some (m, 0)

/-- The loop of `UrlEncode`. -/
def urlLoop : (srcstr encoded : List UInt8) → List UInt8
  | [], encoded => encoded
  | c :: srcstr, encoded =>
    if isalnum c ∨ c = 45 ∨ c = 95 ∨ c = 46 ∨ c = 126 then urlLoop srcstr (encoded ++ [c])
    else if c = 32 then urlLoop srcstr (encoded ++ [43])
    else urlLoop srcstr (encoded ++ 37 :: hexByte c)

/-- `UrlEncode(srcstr)` -/
def urlEncode (srcstr : List UInt8) : List UInt8 := urlLoop srcstr []

/-- The code of `AnsiToURLEncode`. -/
def ansiForm : FormCode where
  plain c := isalnum c ∨ c = 46 ∨ c = 45 ∨ c = 95 ∨ c = 42
  percent := by decide
  plus := by decide

/-- The code of `UrlEncode`. -/
def urlForm : FormCode where
  plain c := isalnum c ∨ c = 45 ∨ c = 95 ∨ c = 46 ∨ c = 126
  percent := by decide
  plus := by decide

variable {m : Mem} {result str fuel i j : ℕ} {resultSize strSize : ℤ} {p s t u : List UInt8}
  {c x : UInt8}

/-! ## `UrlEncode` -/

theorem urlForm_plain_iff : urlForm.plain c ↔
    (isalnum c ∨ c = 45 ∨ c = 95 ∨ c = 46 ∨ c = 126) := decide_eq_true_iff

theorem urlLoop_eq (s t : List UInt8) : urlLoop s t = t ++ s.flatMap urlForm.code := by
  induction s generalizing t with
  | nil => rw [urlLoop, List.flatMap_nil, List.append_nil]
  | cons c s ih =>
    rw [urlLoop, List.flatMap_cons, ← List.append_assoc]
    by_cases hplain : urlForm.plain c
    · rw [if_pos (urlForm_plain_iff.1 hplain), ih, FormCode.code_plain hplain]
    · rw [if_neg (mt urlForm_plain_iff.2 hplain)]
      by_cases h32 : c = 32
      · rw [if_pos h32, ih, FormCode.code, if_neg hplain, if_pos h32]
      · rw [if_neg h32, ih, FormCode.code_percent hplain h32]

theorem urlEncode_eq (s : List UInt8) : urlEncode s = s.flatMap urlForm.code := urlLoop_eq s []

/-! ## `AnsiToURLEncode` -/

/-- One letter is written for a byte, or a `%XX`. -/
theorem ansiForm_cases (c : UInt8) :
    (∃ x, ansiForm.code c = [x]) ∨
      (¬ ansiForm.plain c ∧ c ≠ 32 ∧ ansiForm.code c = 37 :: hexByte c) := by
  by_cases h : ansiForm.plain c
  · exact .inl ⟨c, FormCode.code_plain h⟩
  · by_cases h32 : c = 32
    · exact .inl ⟨43, by rw [FormCode.code, if_neg h, if_pos h32]⟩
    · exact .inr ⟨h, h32, FormCode.code_percent h h32⟩

theorem ansiForm_plain_iff : ansiForm.plain c ↔
    ((65 ≤ c ∧ c ≤ 90) ∨ (97 ≤ c ∧ c ≤ 122) ∨ (48 ≤ c ∧ c ≤ 57)) ∨
      (c = 46 ∨ c = 45 ∨ c = 95 ∨ c = 42) := by
  simp only [ansiForm, isalnum, decide_eq_true_eq]
  rw [or_comm (a := 48 ≤ c ∧ c ≤ 57), or_assoc (a := 65 ≤ c ∧ c ≤ 90)]

/-- One round, at a byte for which one letter is written. -/
theorem ansiLoop_letter (hcode : ansiForm.code c = [x]) (hi : i < strSize) (hj : j < resultSize)
    (hload : m.load str i = some c) :
    ansiLoop result resultSize str strSize (fuel + 1) m i j =
      (m.store result j x).bind fun m =>
        ansiLoop result resultSize str strSize fuel m (i + 1) (j + 1) := by
  rw [ansiLoop, if_pos ⟨hi, hj⟩, hload, Option.bind_eq_bind, Option.bind_some]
  rw [FormCode.code] at hcode
  split_ifs at hcode with hplain h32
  · obtain rfl := List.singleton_inj.1 hcode
    rcases ansiForm_plain_iff.1 hplain with halnum | hmark
    · rw [if_pos halnum]
      rfl
    · have hnot : ¬ ((65 ≤ c ∧ c ≤ 90) ∨ (97 ≤ c ∧ c ≤ 122) ∨ (48 ≤ c ∧ c ≤ 57)) ∧ c ≠ 32 := by
        rcases hmark with rfl | rfl | rfl | rfl <;> decide
      rw [if_neg hnot.1, if_neg hnot.2, if_pos hmark]
      rfl
  · obtain rfl := List.singleton_inj.1 hcode
    subst h32
    rw [if_neg (by decide), if_pos rfl]
    rfl
  · cases (List.cons.inj hcode).2

/-- One round, at a byte for which `%XX` is written. -/
theorem ansiLoop_percent (hplain : ¬ ansiForm.plain c) (h32 : c ≠ 32) (hi : i < strSize)
    (hj : j < resultSize) (hload : m.load str i = some c) :
    ansiLoop result resultSize str strSize (fuel + 1) m i j =
      (addInt j 3).bind fun next =>
        if next < resultSize then
          (m.storeAll result j (37 :: hexByte c ++ [0])).bind fun m =>
            ansiLoop result resultSize str strSize fuel m (i + 1) (j + 3)
        else some (m, 0) := by
  rw [ansiForm_plain_iff, not_or] at hplain
  rw [ansiLoop, if_pos ⟨hi, hj⟩, hload, Option.bind_eq_bind, Option.bind_some, if_neg hplain.1,
    if_neg h32, if_neg hplain.2]
  rfl

/-- **A byte whose code fits** is written; `p` is what is written before. -/
theorem ansiLoop_char (hat : m.At result 0 p) (hload : m.load str i = some c) (hi : i < strSize)
    (hroom : ((p ++ ansiForm.code c).length : ℤ) < resultSize) (hint : resultSize < 2 ^ 31)
    (hsz : resultSize ≤ (m result).length) :
    ∃ m', ansiLoop result resultSize str strSize (fuel + 1) m i p.length =
        ansiLoop result resultSize str strSize fuel m' (i + 1) (p ++ ansiForm.code c).length ∧
      m.SameBut result m' ∧ m'.At result 0 (p ++ ansiForm.code c) := by
  have hput := Mem.put_prefix hat
  rw [List.length_append] at hroom
  rcases ansiForm_cases c with ⟨x, hx⟩ | ⟨hplain, h32, hcode⟩
  · rw [hx, List.length_singleton] at hroom
    have hstore : m.store result p.length x = some (m.put result (p ++ [x])) := by
      conv_lhs => rw [← hput]
      exact Mem.store_put rfl (by omega)
    rw [ansiLoop_letter hx hi (by omega) hload, hstore, Option.bind_some, hx, List.length_append]
    exact ⟨_, rfl, Mem.sameBut_put (by simp; omega), Mem.at_put⟩
  · have hsize : (37 :: hexByte c).length = 3 := rfl
    rw [hcode, hsize] at hroom
    have hstore : m.storeAll result p.length (37 :: hexByte c ++ [0]) =
        some (m.put result (p ++ (37 :: hexByte c ++ [0]))) := by
      conv_lhs => rw [← hput]
      exact Mem.storeAll_put rfl (by rw [List.length_append, hsize, List.length_singleton]; omega)
    rw [ansiLoop_percent hplain h32 hi (by omega) hload, addInt_eq (by omega), Option.bind_some,
      if_pos (by omega), hstore, Option.bind_some, hcode, List.length_append, hsize,
      ← List.append_assoc]
    exact ⟨_, rfl, Mem.sameBut_put (by simp [hexByte]; omega), Mem.at_put.of_append⟩

/-- **The bytes whose code fits** are written, one after the other. -/
theorem ansiLoop_run (hne : str ≠ result) (hat : m.At result 0 p) (hstr : m.At str i u)
    (hlen : (i + u.length : ℕ) ≤ strSize)
    (hroom : ((p ++ u.flatMap ansiForm.code).length : ℤ) < resultSize)
    (hint : resultSize < 2 ^ 31) (hsz : resultSize ≤ (m result).length) :
    ∃ m', ansiLoop result resultSize str strSize (fuel + u.length) m i p.length =
        ansiLoop result resultSize str strSize fuel m' (i + u.length)
          (p ++ u.flatMap ansiForm.code).length ∧
      m.SameBut result m' ∧ m'.At result 0 (p ++ u.flatMap ansiForm.code) := by
  induction u generalizing m i p with
  | nil =>
    rw [List.flatMap_nil, List.append_nil]
    exact ⟨m, rfl, ⟨fun _ _ => rfl, rfl⟩, hat⟩
  | cons c u ih =>
    rw [List.flatMap_cons, ← List.append_assoc] at hroom ⊢
    rw [List.length_cons] at hlen
    have hpre := (List.prefix_append (p ++ ansiForm.code c) (u.flatMap ansiForm.code)).length_le
    obtain ⟨m₁, hrun, hsame, hat₁⟩ := @ansiLoop_char m result str (fuel + u.length) i resultSize
      strSize p c hat hstr.load (by omega) (by omega) hint hsz
    have hstr₁ : m₁.At str (i + 1) u := by
      rw [Mem.At, hsame.eq str hne]
      exact hstr.tail
    obtain ⟨m₂, hrun₂, hsame₂, hat₂⟩ :=
      ih hat₁ hstr₁ (by omega) hroom (by rw [hsame.length]; exact hsz)
    refine ⟨m₂, ?_, hsame.trans hsame₂, hat₂⟩
    rw [List.length_cons, ← Nat.add_assoc, hrun, hrun₂, Nat.add_right_comm]
    rfl

theorem ansiLoop_stop (h : ¬ (i < strSize ∧ j < resultSize)) :
    ansiLoop result resultSize str strSize (fuel + 1) m i j =
      (m.store result j 0).bind fun m => some (m, j) := by
  rw [ansiLoop, if_neg h]
  rfl

/-- The loop up to the byte behind `u`. -/
theorem ansiToURLEncode_run (hne : str ≠ result) (hat : m.At str 0 s) (hs : s ≠ [])
    (hu : u <+: s) (hroom : ((u.flatMap ansiForm.code).length : ℤ) < resultSize)
    (hint : resultSize < 2 ^ 31) (hsz : resultSize ≤ (m result).length) :
    ∃ m', ansiToURLEncode m (some result) resultSize (some str) s.length =
        ansiLoop result resultSize str s.length (s.length - u.length + 1) m' u.length
          (u.flatMap ansiForm.code).length ∧
      m.SameBut result m' ∧ m'.At result 0 (u.flatMap ansiForm.code) := by
  have hle := hu.length_le
  have hpos := List.length_pos_of_ne_nil hs
  obtain ⟨m', hrun, hsame, hat'⟩ := @ansiLoop_run m result str (s.length - u.length + 1) 0
    resultSize s.length [] u hne List.nil_prefix (hu.trans hat) (by omega) hroom hint hsz
  have hfuel : s.length - u.length + 1 + u.length = (s.length : ℤ).toNat + 1 := by omega
  rw [Nat.zero_add, List.nil_append, hfuel, List.length_nil] at hrun
  refine ⟨m', ?_, hsame, hat'⟩
  rw [ansiToURLEncode, ← hrun]
  exact if_neg (by omega)

/-- **All bytes are written**, if there is room for the code of all of them. -/
theorem ansiToURLEncode_all (hne : str ≠ result) (hat : m.At str 0 s) (hs : s ≠ [])
    (hroom : ((s.flatMap ansiForm.code).length : ℤ) < resultSize) (hint : resultSize < 2 ^ 31)
    (hsz : resultSize ≤ (m result).length) :
    ∃ m', ansiToURLEncode m (some result) resultSize (some str) s.length =
        some (m', (s.flatMap ansiForm.code).length) ∧
      m.SameBut result m' ∧ m'.At result 0 (s.flatMap ansiForm.code ++ [0]) := by
  obtain ⟨m', hrun, hsame, hat'⟩ :=
    ansiToURLEncode_run hne hat hs List.prefix_rfl hroom hint hsz
  have hstore : m'.store result (s.flatMap ansiForm.code).length 0 =
      some (m'.put result (s.flatMap ansiForm.code ++ [0])) := by
    conv_lhs => rw [← Mem.put_prefix hat']
    exact Mem.store_put rfl (by rw [hsame.length]; omega)
  rw [hrun, ansiLoop_stop (by omega), hstore]
  refine ⟨_, rfl, hsame.trans (Mem.sameBut_put ?_), Mem.at_put⟩
  rw [List.length_append, List.length_singleton, hsame.length]
  omega

/-- A letter takes the last byte of the buffer, and the terminator is written
    behind it. -/
theorem ansiLoop_letter_over (hcode : ansiForm.code c = [x]) (hi : i < strSize)
    (hload : m.load str i = some c) (hfull : j + 1 = resultSize)
    (hsz : (m result).length = resultSize) :
    ansiLoop result resultSize str strSize (fuel + 2) m i j = none := by
  rw [ansiLoop_letter hcode hi (by omega) hload, Mem.store, if_pos (by omega), Option.bind_some,
    ansiLoop_stop (by omega), Mem.store, if_neg]
  · rfl
  · rw [Function.update_self, List.length_set]
    omega

/-- The byte behind `u` for which the loop is not defined. -/
def Overruns (resultSize : ℤ) (u : List UInt8) (c : UInt8) : Prop :=
  ((ansiForm.code c).length = 1 ∧ (u.flatMap ansiForm.code).length + 1 = resultSize) ∨
    ((ansiForm.code c).length = 3 ∧ (u.flatMap ansiForm.code).length < resultSize ∧
      2 ^ 31 ≤ ((u.flatMap ansiForm.code).length : ℤ) + 3)

/-- **Where the loop overruns**: the terminator is written behind the buffer, or
    a sum overflows. -/
theorem ansiToURLEncode_none (hne : str ≠ result) (hat : m.At str 0 s) (huc : u ++ [c] <+: s)
    (hsz : (m result).length = resultSize) (hint : resultSize < 2 ^ 31)
    (h : Overruns resultSize u c) :
    ansiToURLEncode m (some result) resultSize (some str) s.length = none := by
  have hlen := huc.length_le
  rw [List.length_append, List.length_singleton] at hlen
  have hs : s ≠ [] := List.ne_nil_of_length_pos (by omega)
  have hroom : ((u.flatMap ansiForm.code).length : ℤ) < resultSize := by
    rcases h with ⟨-, h⟩ | ⟨-, h, -⟩ <;> omega
  obtain ⟨m', hrun, hsame, -⟩ :=
    ansiToURLEncode_run hne hat hs ((List.prefix_append u [c]).trans huc) hroom hint hsz.ge
  obtain ⟨fuel, hfuel⟩ := Nat.exists_eq_add_of_lt hlen
  have hload := hsame.load_start hne hat huc
  have hsub : s.length - u.length + 1 = fuel + 2 := by omega
  rw [hrun, hsub]
  rcases h with ⟨hone, hfull⟩ | ⟨hthree, -, hover⟩
  · obtain ⟨x, hx⟩ := List.length_eq_one_iff.1 hone
    exact ansiLoop_letter_over hx (by omega) hload hfull (by rw [hsame.length]; exact hsz)
  · rcases ansiForm_cases c with ⟨x, hx⟩ | ⟨hplain, h32, -⟩
    · rw [hx] at hthree
      cases hthree
    · rw [ansiLoop_percent hplain h32 (by omega) hroom hload, addInt_overflow hover]
      rfl

/-- **Elsewhere** the loop ends within the buffer: with everything written, or
    with 0 at the first byte whose code does not fit. -/
theorem ansiToURLEncode_some (hne : str ≠ result) (hat : m.At str 0 s) (hs : s ≠ [])
    (hsz : resultSize ≤ (m result).length) (h1 : 1 ≤ resultSize) (hint : resultSize < 2 ^ 31)
    (h : ∀ u c, u ++ [c] <+: s → ¬ Overruns resultSize u c) :
    ∃ m' r, ansiToURLEncode m (some result) resultSize (some str) s.length = some (m', r) ∧
      m.SameBut result m' ∧
      (r = 0 ∨ (r = (s.flatMap ansiForm.code).length ∧
        m'.At result 0 (s.flatMap ansiForm.code ++ [0]))) := by
  -- the bytes whose code fits, and the one behind them
  have hroom := room_fit_le (fun c => (ansiForm.code c).length) (resultSize - 1).toNat s
  have hu := fit_isPrefix (fun c => (ansiForm.code c).length) (resultSize - 1).toNat s
  have hrest := exists_fit (fun c => (ansiForm.code c).length) (resultSize - 1).toNat s
  generalize fit (fun c => (ansiForm.code c).length) (resultSize - 1).toNat s = u at *
  rw [← length_flatMap_code] at hroom hrest
  rcases hrest with rfl | ⟨c, ys, hs', hlt⟩
  · obtain ⟨m', hall, hsame, hat'⟩ := ansiToURLEncode_all hne hat hs (by omega) hint hsz
    exact ⟨m', _, hall, hsame, .inr ⟨rfl, hat'⟩⟩
  · have huc : u ++ [c] <+: s := ⟨ys, by rw [hs', List.append_assoc]; rfl⟩
    have hlen := huc.length_le
    rw [List.length_append, List.length_singleton] at hlen
    obtain ⟨m', hrun, hsame, -⟩ := ansiToURLEncode_run hne hat hs hu (by omega) hint hsz
    have hload := hsame.load_start hne hat huc
    have hno := h u c huc
    rcases ansiForm_cases c with ⟨x, hx⟩ | ⟨hplain, h32, hcode⟩
    · rw [hx, List.length_singleton] at hlt
      exact absurd (.inl ⟨by rw [hx]; rfl, by omega⟩) hno
    · have hsize : (ansiForm.code c).length = 3 := by rw [hcode]; rfl
      rw [hsize] at hlt
      have hint' : ((u.flatMap ansiForm.code).length : ℤ) + 3 < 2 ^ 31 := by
        by_contra hover
        exact hno (.inr ⟨hsize, by omega, not_lt.1 hover⟩)
      refine ⟨m', 0, ?_, hsame, .inl rfl⟩
      rw [hrun, ansiLoop_percent hplain h32 (by omega) (by omega) hload, addInt_eq hint',
        Option.bind_some, if_neg (by omega)]

/-- **When `AnsiToURLEncode` stays within the buffer.**  The block of the result
    ends with the buffer. -/
theorem ansiToURLEncode_iff (hne : str ≠ result) (hat : m.At str 0 s) (hs : s ≠ [])
    (hsz : (m result).length = resultSize) (h1 : 1 ≤ resultSize) (hint : resultSize < 2 ^ 31) :
    (∃ m' r, ansiToURLEncode m (some result) resultSize (some str) s.length = some (m', r) ∧
      m.SameBut result m' ∧
      (r = 0 ∨ (r = (s.flatMap ansiForm.code).length ∧
        m'.At result 0 (s.flatMap ansiForm.code ++ [0])))) ↔
    ∀ u c, u ++ [c] <+: s → ¬ Overruns resultSize u c := by
  constructor
  · rintro ⟨m', r, hr, -⟩ u c huc hover
    rw [ansiToURLEncode_none hne hat huc hsz hint hover] at hr
    cases hr
  · exact ansiToURLEncode_some hne hat hs hsz.ge h1 hint

/-- A space, in a buffer with room for it and its terminator. -/
theorem ansiToURLEncode_iff_space : ∃ m' r,
    ansiToURLEncode (fun b => [[32], [7, 7]].getD b []) (some 1) 2 (some 0) 1 = some (m', r) ∧
    Mem.SameBut (fun b => [[32], [7, 7]].getD b []) 1 m' ∧
    (r = 0 ∨ (r = ([32].flatMap ansiForm.code).length ∧
      m'.At 1 0 ([32].flatMap ansiForm.code ++ [0]))) := by
  refine (@ansiToURLEncode_iff (fun b => [[32], [7, 7]].getD b []) 1 0 2 [32] (by decide)
    List.prefix_rfl (by decide) rfl (by decide) (by norm_num)).2 ?_
  intro u c huc
  have hu : u = [] := by
    have hlen := huc.length_le
    rw [List.length_append, List.length_singleton, List.length_singleton] at hlen
    exact List.eq_nil_of_length_eq_zero (by omega)
  subst hu
  obtain ⟨rfl, -⟩ := List.cons_prefix_cons.1 huc
  rintro (⟨-, h⟩ | ⟨h, -⟩)
  · exact absurd h (by decide)
  · exact absurd h (by decide)

/-- The text `ab` in a buffer of one byte. -/
theorem ansiToURLEncode_ab : ¬ ∃ m' r,
    ansiToURLEncode (fun b => [[97, 98], [7]].getD b []) (some 1) 1 (some 0) 2 = some (m', r) ∧
    Mem.SameBut (fun b => [[97, 98], [7]].getD b []) 1 m' ∧
    (r = 0 ∨ (r = ([97, 98].flatMap ansiForm.code).length ∧
      m'.At 1 0 ([97, 98].flatMap ansiForm.code ++ [0]))) := by
  have hnone : ansiToURLEncode (fun b => [[97, 98], [7]].getD b []) (some 1) 1 (some 0) 2 = none :=
    rfl
  rintro ⟨m', r, h, -⟩
  rw [hnone] at h
  cases h

/-! ## Decoding -/

/-- **Both encoders are undone by form decoding.** -/
theorem urlEncoders_decode (hs : s ≠ []) :
    formDecode (urlEncode s) = s ∧
    ∀ (m : Mem) (result str : ℕ) (resultSize : ℤ), str ≠ result → m.At str 0 s →
      3 * s.length < resultSize → resultSize < 2 ^ 31 → resultSize ≤ (m result).length →
      ∃ m' t, ansiToURLEncode m (some result) resultSize (some str) s.length =
          some (m', t.length) ∧
        m.SameBut result m' ∧ m'.IsStr result t ∧ formDecode t = s := by
  refine ⟨by rw [urlEncode_eq, FormCode.formDecode_flatMap], ?_⟩
  intro m result str resultSize hne hat hroom hint hsz
  have hle := FormCode.length_flatMap_le (F := ansiForm) s
  obtain ⟨m', hall, hsame, hat'⟩ := ansiToURLEncode_all hne hat hs (by omega) hint hsz
  obtain ⟨r, hr⟩ := hat'
  refine ⟨m', _, hall, hsame, ⟨FormCode.zero_notMem (by decide), r, ?_⟩,
    FormCode.formDecode_flatMap s⟩
  rw [List.drop_zero] at hr
  rw [← hr, List.append_assoc]
  rfl

/-- The text `%+ ~`. -/
theorem urlEncoders_decode_marks : formDecode (urlEncode [37, 43, 32, 126]) = [37, 43, 32, 126] ∧
    ∃ m' t, ansiToURLEncode (fun b => [[37, 43, 32, 126], [7, 7, 7, 7, 7, 7, 7, 7, 7, 7, 7, 7,
        7]].getD b []) (some 1) 13 (some 0) 4 = some (m', t.length) ∧
      m'.IsStr 1 t ∧ formDecode t = [37, 43, 32, 126] := by
  obtain ⟨hurl, hansi⟩ := @urlEncoders_decode [37, 43, 32, 126] (by decide)
  obtain ⟨m', t, hall, -, hstr, hdec⟩ := hansi (fun b => [[37, 43, 32, 126], [7, 7, 7, 7, 7, 7, 7,
    7, 7, 7, 7, 7, 7]].getD b []) 1 0 13 (by decide) List.prefix_rfl (by decide) (by norm_num)
    (by decide)
  exact ⟨hurl, m', t, hall, hstr, hdec⟩

/-- The two codes are not the same. -/
example : urlEncode [126] ≠ [126].flatMap ansiForm.code := by decide

end CppExperiment.STD
