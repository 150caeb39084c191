/-
  Bounded copies in CommonTools/STD.cc: `STD::strcpyr`, `STD::my_strncpy` and
  `STD::GenerateDesKey`.

  * `strcpyr_iff`: when `strcpyr` copies what `str::Right` returns, and what it
    copies otherwise.
  * `myStrncpy_iff`: when `my_strncpy` copies what `str::Left` returns of the
    first field, and what it writes otherwise.
  * `generateDesKey_iff`: the key and its terminator have room iff the key is
    shorter than the buffer; the loop stops in time, but the terminator does
    not.
-/
import CppExperiment.Lib.Decimal
import CppExperiment.STD.Para
import CppExperiment.StringFunc.Ends

namespace CppExperiment.STD
open StringFunc (toSize left right)

/-- `strcpyr(dest, src, num)` -/
def strcpyr (m : Mem) (dest src : ℕ) (num : ℤ) : Option Mem := do
  let len ← m.strlen src
  let movelen := toInt (toSize (len - num))
  if movelen > 0 then
    let m ← m.memcpy dest 0 src movelen.toNat (toSize num)
    if num < 0 then none else m.store dest num.toNat 0
  else m.strcpy dest 0 src 0

/-- `my_strncpy(dst, src, num, end)`; `none` are the null pointers.  The loop is
    that of `GetPara`. -/
def myStrncpy (m : Mem) (dst src : Option ℕ) (num : ℤ) (end_ : UInt8) : Option Mem :=
  match src, dst with
  | none, none => some m
  | none, some dst => m.store dst 0 0
  | some _, none => none
  | some src, some dst => do
    let num ← checkedInt (num - 1)
    let (m, d) ← copyPara end_ src dst num.toNat m 0 0
    m.store dst d 0

/-- The characters of a key. -/
def pszDesKey : List UInt8 :=
  StdString.bytes "0123456789abcdefghijklmnopqrstuvwxyzABCDEFGHIJKLMNOPQRSTUVWXYZ"

/-- The loop of `GenerateDesKey`, with at most `fuel` rounds left; `rand` are the
    numbers that `rand()` returns. -/
def desKeyLoop (pszDes pszDesLen uLen : ℕ) (rand : ℕ → ℕ) :
    (fuel : ℕ) → Mem → (i : ℕ) → Option Mem
  | 0, _, _ => none
  | fuel + 1, m, i =>
    if i < uLen then
      -- the difference is unsigned
      if i > (pszDesLen + 2 ^ 32 - 1) % 2 ^ 32 then some m
      else do
        let c ← pszDesKey[rand i % 62]?
        let m ← m.store pszDes i c
        desKeyLoop pszDes pszDesLen uLen rand fuel m (i + 1)
    else some m

/-- `GenerateDesKey(pszDes, pszDesLen, uLen)` -/
def generateDesKey (m : Mem) (pszDes pszDesLen uLen : ℕ) (rand : ℕ → ℕ) : Option Mem := do
  let m ← desKeyLoop pszDes pszDesLen uLen rand (uLen + 1) m 0
  m.store pszDes uLen 0

variable {m : Mem} {dest src dst i fuel pszDes pszDesLen uLen : ℕ} {num : ℤ} {s p : List UInt8}
  {end_ : UInt8} {rand : ℕ → ℕ}

/-! ## `strcpyr` -/

theorem toInt_toSize (x : ℤ) : toInt (toSize x) = toInt x := by
  have hx : (toSize x : ℤ) = x + (2 ^ 32 : ℕ) * (-(2 ^ 32) * (x / 2 ^ 64)) := by
    unfold toSize
    push_cast
    omega
  rw [toInt, toInt, hx, Int.add_mul_bmod_self_left]

/-- Above the largest `int`. -/
theorem toInt_over {x : ℤ} (h : 2 ^ 31 ≤ x) (h' : x < 2 ^ 32) : toInt x < 0 := by
  have hx : x = x - 2 ^ 32 + (2 ^ 32 : ℕ) * 1 := by push_cast; omega
  rw [toInt, hx, Int.add_mul_bmod_self_left, Int.bmod_eq_of_le (by omega) (by omega)]
  omega

/-- The length of the string is known. -/
theorem strcpyr_eq (hv : m.IsStr src s) : strcpyr m dest src num =
    if toInt (s.length - num) > 0 then do
      let m ← m.memcpy dest 0 src (toInt (s.length - num)).toNat (toSize num)
      if num < 0 then none else m.store dest num.toNat 0
    else m.strcpy dest 0 src 0 := by
  rw [strcpyr, hv.strlen, Option.bind_eq_bind, Option.bind_some, toInt_toSize]

/-- The characters at the end are copied. -/
theorem strcpyr_nonneg (hne : src ≠ dest) (hv : m.IsStr src s) (hs : s.length < 2 ^ 31)
    (h0 : 0 ≤ num) (hhi : num < 2 ^ 31) (hsz : s.length < (m dest).length) :
    strcpyr m dest src num = some (m.put dest (s.drop (s.length - num.toNat) ++ [0])) := by
  rw [strcpyr_eq hv, toInt_eq (by omega) (by omega)]
  by_cases hmove : (s.length : ℤ) - num > 0
  · have hat : m.At src ((s.length : ℤ) - num).toNat (s.drop (s.length - num.toNat)) := by
      have h := hv.at
      rw [← List.take_append_drop (s.length - num.toNat) s] at h
      have hdrop := h.drop
      rw [List.length_take, Nat.zero_add] at hdrop
      rwa [show ((s.length : ℤ) - num).toNat = min (s.length - num.toNat) s.length by omega]
    have hcount : toSize num = (s.drop (s.length - num.toNat)).length := by
      rw [StringFunc.toSize_eq h0 (by omega), List.length_drop]
      omega
    have hend : num.toNat = (s.drop (s.length - num.toNat)).length := by
      rw [List.length_drop]
      omega
    rw [if_pos hmove, hcount, hat.memcpy_put (by rw [List.length_drop]; omega), Option.bind_eq_bind,
      Option.bind_some, if_neg (by omega), Mem.store_put hend (by omega)]
  · rw [if_neg hmove, hv.strcpy_put hne hsz, Nat.sub_eq_zero_of_le (by omega), List.drop_zero]

/-- The difference of the length and the number overflows: it counts as a
    number that is not below the length. -/
theorem strcpyr_over (hne : src ≠ dest) (hv : m.IsStr src s) (hs : s.length < 2 ^ 31)
    (hlo : -2 ^ 31 ≤ num) (hsz : s.length < (m dest).length)
    (hover : 2 ^ 31 ≤ (s.length : ℤ) - num) :
    strcpyr m dest src num = some (m.put dest (s ++ [0])) := by
  have hwrap := toInt_over hover (by omega)
  rw [strcpyr_eq hv, if_neg (by omega), hv.strcpy_put hne hsz]

/-- **When `strcpyr` copies what `Right` returns**: unless the difference of the
    length and a negative number overflows; then it copies the whole string.
    Elsewhere both fail for negative numbers. -/
theorem strcpyr_iff (hne : src ≠ dest) (hv : m.IsStr src s) (hs : s.length < 2 ^ 31)
    (hlo : -2 ^ 31 ≤ num) (hhi : num < 2 ^ 31) (hsz : s.length < (m dest).length)
    (hblock : (m src).length < 2 ^ 63) :
    (strcpyr m dest src num = (right s num).map (fun t => m.put dest (t ++ [0])) ↔
      (s.length : ℤ) - num < 2 ^ 31) ∧
    (2 ^ 31 ≤ (s.length : ℤ) - num → strcpyr m dest src num = some (m.put dest (s ++ [0]))) := by
  refine ⟨?_, strcpyr_over hne hv hs hlo hsz⟩
  rw [StringFunc.right_eq hs hlo hhi]
  rcases lt_or_ge num 0 with hneg | h0
  · rw [if_pos hneg, Option.map_none]
    by_cases hover : (s.length : ℤ) - num < 2 ^ 31
    · have hhuge : 2 ^ 63 ≤ toSize num := by
        unfold toSize
        omega
      have hload : m.loadAll src ((s.length : ℤ) - num).toNat (toSize num) = none :=
        Mem.loadAll_over (by omega) (by omega)
      rw [strcpyr_eq hv, toInt_eq (by omega) hover, if_pos (by omega), Mem.memcpy, hload]
      exact iff_of_true rfl hover
    · rw [strcpyr_over hne hv hs hlo hsz (not_lt.1 hover)]
      exact iff_of_false (Option.some_ne_none _) hover
  · rw [if_neg (by omega), strcpyr_nonneg hne hv hs h0 hhi hsz]
    exact iff_of_true rfl (by omega)

/-- The last two characters of three. -/
theorem strcpyr_iff_two : strcpyr (fun b => [[97, 98, 99, 0], [7, 7, 7, 7]].getD b []) 1 0 2 =
    (right [97, 98, 99] 2).map
      (fun t => Mem.put (fun b => [[97, 98, 99, 0], [7, 7, 7, 7]].getD b []) 1 (t ++ [0])) :=
  (@strcpyr_iff (fun b => [[97, 98, 99, 0], [7, 7, 7, 7]].getD b []) 1 0 2 [97, 98, 99] (by decide)
    ⟨by decide, [], rfl⟩ (by decide) (by decide) (by decide) (by decide) (by decide)).1.2
    (by decide)

/-! ## `my_strncpy` -/

theorem myStrncpy_eq (hne : src ≠ dst) (hv : m.IsStr src s) (hlo : -2 ^ 31 < num)
    (hhi : num ≤ 2 ^ 31) (h1 : 1 ≤ (m dst).length) (hsz : num ≤ (m dst).length) :
    myStrncpy m (some dst) (some src) num end_ =
      some (m.put dst ((s.takeWhile (· ≠ end_)).take (num - 1).toNat ++ [0])) := by
  have hcopy := @copyPara_put m src dst 0 (num - 1).toNat 0 end_ s [] hne hv.at_end hv.1 rfl
    (by omega)
  rw [Mem.put_nil, Nat.zero_add, List.nil_append] at hcopy
  have hlen := List.length_take_le (num - 1).toNat (s.takeWhile (· ≠ end_))
  rw [myStrncpy, checkedInt_eq (by omega) (by omega), Option.bind_eq_bind, Option.bind_some, hcopy,
    Option.bind_eq_bind, Option.bind_some]
  exact Mem.store_put rfl (by omega)

/-- A number below one leaves room for nothing but the terminator. -/
theorem myStrncpy_nonpos (hne : src ≠ dst) (hv : m.IsStr src s) (hlo : -2 ^ 31 < num)
    (h1 : 1 ≤ (m dst).length) (hnum : num < 1) :
    myStrncpy m (some dst) (some src) num end_ = some (m.put dst [0]) := by
  rw [myStrncpy_eq hne hv hlo (by omega) h1 (by omega), Int.toNat_of_nonpos (by omega),
    List.take_zero, List.nil_append]

/-- **When `my_strncpy` copies what `Left` returns** of the text before `end`: if
    the number is positive.  Otherwise it writes a terminator, and `Left`
    returns the whole text for a negative number. -/
theorem myStrncpy_iff (hne : src ≠ dst) (hv : m.IsStr src s) (hs : s.length < 2 ^ 31)
    (hlo : -2 ^ 31 < num) (hhi : num ≤ 2 ^ 31) (h1 : 1 ≤ (m dst).length)
    (hsz : num ≤ (m dst).length) :
    (myStrncpy m (some dst) (some src) num end_ =
        (left (s.takeWhile (· ≠ end_)) (num - 1)).map (fun t => m.put dst (t ++ [0])) ↔
      1 ≤ num ∨ s.takeWhile (· ≠ end_) = []) ∧
    (num < 1 → myStrncpy m (some dst) (some src) num end_ = some (m.put dst [0])) := by
  refine ⟨?_, myStrncpy_nonpos hne hv hlo h1⟩
  have hlen := (List.takeWhile_sublist (p := fun c => decide (c ≠ end_)) (l := s)).length_le
  have h0 : 0 ∉ s.takeWhile (· ≠ end_) := fun h => hv.1 ((List.takeWhile_sublist _).subset h)
  rw [StringFunc.left_eq (by omega) (by omega) (by omega), Option.map_some]
  by_cases hnum : 1 ≤ num
  · rw [myStrncpy_eq hne hv hlo hhi h1 hsz, if_neg (by omega)]
    exact iff_of_true rfl (.inl hnum)
  · rw [myStrncpy_nonpos hne hv hlo h1 (by omega), if_pos (by omega), Option.some_inj]
    constructor
    · intro h
      have hempty := (@Mem.isStr_put m dst [] List.not_mem_nil).cstr
      rw [List.nil_append, h, (Mem.isStr_put h0).cstr] at hempty
      exact .inr hempty
    · rintro (h | h)
      · exact absurd h hnum
      · rw [h, List.nil_append]

/-- `ab` before a `,`, in a buffer for one character. -/
theorem myStrncpy_iff_comma :
    myStrncpy (fun b => [[97, 98, 44, 99, 0], [7, 7]].getD b []) (some 1) (some 0) 2 44 =
      (left ([97, 98, 44, 99].takeWhile (· ≠ 44)) (2 - 1)).map
        (fun t => Mem.put (fun b => [[97, 98, 44, 99, 0], [7, 7]].getD b []) 1 (t ++ [0])) :=
  (@myStrncpy_iff (fun b => [[97, 98, 44, 99, 0], [7, 7]].getD b []) 0 1 2 [97, 98, 44, 99] 44
    (by decide) ⟨by decide, [], rfl⟩ (by decide) (by decide) (by decide) (by decide)
    (by decide)).1.2 (.inl (by decide))

/-! ## `GenerateDesKey` -/

/-- The characters of the key from `i` on, `k` of them. -/
def desKey (rand : ℕ → ℕ) (i k : ℕ) : List UInt8 :=
  (List.range' i k).map fun j => pszDesKey.getD (rand j % 62) 0

theorem desKeyLoop_char (rand : ℕ → ℕ) (i : ℕ) :
    pszDesKey[rand i % 62]? = some (pszDesKey.getD (rand i % 62) 0) := by
  have hlen : pszDesKey.length = 62 := by decide
  have hlt : rand i % 62 < pszDesKey.length := by
    rw [hlen]
    exact Nat.mod_lt _ (by decide)
  rw [List.getD_eq_getElem _ _ hlt, List.getElem?_eq_getElem hlt]

/-- A key that is shorter than the buffer. -/
theorem desKeyLoop_put (hlen : pszDesLen < 2 ^ 32) (hroom : uLen < pszDesLen)
    (hsz : pszDesLen = (m pszDes).length) (hi : i = p.length) (hle : i ≤ uLen)
    (hfuel : uLen - i < fuel) :
    desKeyLoop pszDes pszDesLen uLen rand fuel (m.put pszDes p) i =
      some (m.put pszDes (p ++ desKey rand i (uLen - i))) := by
  induction hk : uLen - i generalizing i p fuel with
  | zero =>
    obtain ⟨fuel, rfl⟩ := Nat.exists_eq_succ_of_ne_zero (Nat.ne_zero_of_lt hfuel)
    rw [desKeyLoop, if_neg (by omega)]
    simp [desKey]
  | succ k ih =>
    obtain ⟨fuel, rfl⟩ := Nat.exists_eq_succ_of_ne_zero (Nat.ne_zero_of_lt hfuel)
    have hwrap : (pszDesLen + 2 ^ 32 - 1) % 2 ^ 32 = pszDesLen - 1 := by omega
    rw [desKeyLoop, if_pos (by omega), hwrap, if_neg (by omega), desKeyLoop_char,
      Option.bind_eq_bind, Option.bind_some, Mem.store_put hi (by omega), Option.bind_eq_bind,
      Option.bind_some, ih (by simp [hi]) (by omega) (by omega) (by omega)]
    simp [desKey, List.range'_succ]

/-- A step of the loop leaves the size of the buffer as it is. -/
theorem desKeyLoop_length {m' : Mem}
    (h : desKeyLoop pszDes pszDesLen uLen rand fuel m i = some m') :
    (m' pszDes).length = (m pszDes).length := by
  induction fuel generalizing m i with
  | zero => cases h
  | succ fuel ih =>
    rw [desKeyLoop] at h
    split at h
    · split at h
      · cases h
        rfl
      · rw [desKeyLoop_char, Option.bind_eq_bind, Option.bind_some, Option.bind_eq_bind,
          Option.bind_eq_some_iff] at h
        obtain ⟨m₁, hstore, hrest⟩ := h
        rw [ih hrest]
        unfold Mem.store at hstore
        split at hstore
        · cases hstore
          simp
        · cases hstore
    · cases h
      rfl

/-- **`GenerateDesKey` stays in its buffer** iff the key is shorter than the
    buffer; then it leaves a string of `uLen` characters of its alphabet. -/
theorem generateDesKey_iff (hlen : pszDesLen < 2 ^ 32) (hsz : (m pszDes).length = pszDesLen)
    (rand : ℕ → ℕ) :
    (∃ m', generateDesKey m pszDes pszDesLen uLen rand = some m' ∧ ∃ key,
      m'.IsStr pszDes key ∧ key.length = uLen ∧ ∀ c ∈ key, c ∈ pszDesKey) ↔ uLen < pszDesLen := by
  constructor
  · rintro ⟨m', hrun, -⟩
    rw [generateDesKey, Option.bind_eq_bind, Option.bind_eq_some_iff] at hrun
    obtain ⟨m₁, hloop, hstore⟩ := hrun
    have hsame := desKeyLoop_length hloop
    unfold Mem.store at hstore
    split at hstore
    · omega
    · cases hstore
  · intro hroom
    have hloop := @desKeyLoop_put m 0 (uLen + 1) pszDes pszDesLen uLen [] rand hlen hroom hsz.symm
      rfl (Nat.zero_le _) (by omega)
    rw [Mem.put_nil, List.nil_append, Nat.sub_zero] at hloop
    have hkey : (desKey rand 0 uLen).length = uLen := by simp [desKey]
    have hmem : ∀ c ∈ desKey rand 0 uLen, c ∈ pszDesKey := by
      intro c hc
      obtain ⟨j, -, rfl⟩ := List.mem_map.1 hc
      exact List.mem_of_getElem? (desKeyLoop_char rand j)
    have h0 : 0 ∉ desKey rand 0 uLen := fun h => absurd (hmem 0 h) (by decide)
    refine ⟨m.put pszDes (desKey rand 0 uLen ++ [0]), ?_, _, Mem.isStr_put h0, hkey, hmem⟩
    rw [generateDesKey, hloop, Option.bind_eq_bind, Option.bind_some]
    exact Mem.store_put hkey.symm (by omega)

/-- A key of eight characters in a buffer of nine bytes. -/
theorem generateDesKey_iff_eight : ∃ m',
    generateDesKey (fun _ => List.replicate 9 7) 0 9 8 (fun i => 7 * i) = some m' ∧ ∃ key,
      m'.IsStr 0 key ∧ key.length = 8 ∧ ∀ c ∈ key, c ∈ pszDesKey :=
  (@generateDesKey_iff (fun _ => List.replicate 9 7) 0 9 8 (by decide) List.length_replicate
    (fun i => 7 * i)).2 (by decide)

end CppExperiment.STD
