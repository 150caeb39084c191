/-
  `dai::GetCheckCode` in CommonTools/PoboTool.cc.

  `checkSum s` is the sum of the words of the text `s`, its odd last byte for
  itself.  `getCheckCode_eq`: this is what `GetCheckCode` returns.
  `checkSum_set` says how one byte goes into the sum; so a sum with a byte
  changed is another one (`getCheckCode_set`).
-/
import CppExperiment.Lib.LittleEndian

namespace CppExperiment.PoboTool

variable {m m' : Mem} {b b' i j p n : ℕ} {s : List UInt8} {c d : UInt8} {size checknum : UInt16}

/-- The loop of `GetCheckCode` with `n` words left, from `p` on. -/
def checkLoop (m : Mem) (b : ℕ) : (n p : ℕ) → (checknum : UInt16) → Option UInt16
  | 0, _, checknum => some checknum
  | n + 1, p, checknum => do
    let w ← m.loadWord b p
    checkLoop m b n (p + 2) (checknum + w)

/-- `GetCheckCode(src, size)`, where `src` is the index `p` of the block `b`. -/
def getCheckCode (m : Mem) (b p : ℕ) (size : UInt16) : Option UInt16 := do
  let num := size / 2
  let checknum ← checkLoop m b num.toNat p 0
  if size &&& 1 ≠ 0 then do
    let t ← m.load b (p + size.toNat - 1)
    some (checknum + t.toUInt16)
  else some checknum

/-! ## The sum -/

/-- The sum of the words of a text, and of its odd last byte. -/
def checkSum : List UInt8 → UInt16
  | [] => 0
  | [c] => c.toUInt16
  | lo :: hi :: s => word lo hi + checkSum s

/-- The words in front of the odd byte. -/
theorem checkLoop_eq (h : m.At b p s) :
    checkLoop m b (s.length / 2) p checknum =
      some (checknum + checkSum (s.take (2 * (s.length / 2)))) := by
  induction s using checkSum.induct generalizing p checknum with
  | case1 => simp [checkLoop, checkSum]
  | case2 c => simp [checkLoop, checkSum]
  | case3 lo hi s ih =>
    have hlen : (lo :: hi :: s).length / 2 = s.length / 2 + 1 := by
      rw [List.length_cons, List.length_cons]; omega
    rw [hlen, checkLoop, h.loadWord, Option.bind_eq_bind, Option.bind_some, ih h.tail.tail,
      Nat.mul_add, List.take_succ_cons, List.take_succ_cons, checkSum, add_assoc]

/-- The odd byte is added last. -/
theorem checkSum_concat (hs : s.length % 2 = 0) :
    checkSum (s ++ [c]) = checkSum s + c.toUInt16 := by
  induction s using checkSum.induct with
  | case1 => exact (zero_add _).symm
  | case2 d => simp at hs
  | case3 lo hi s ih =>
    rw [List.length_cons, List.length_cons] at hs
    rw [List.cons_append, List.cons_append, checkSum, checkSum, ih (by omega), add_assoc]

/-- **What `GetCheckCode` returns.** -/
theorem getCheckCode_eq (h : m.At b p s) (hsize : s.length = size.toNat) :
    getCheckCode m b p size = some (checkSum s) := by
  have hnum : (size / 2).toNat = s.length / 2 := by rw [UInt16.toNat_div, hsize]; rfl
  have hodd : size &&& 1 ≠ 0 ↔ s.length % 2 = 1 := by
    rw [hsize, Ne, ← UInt16.toNat_inj, UInt16.toNat_and]
    simp only [UInt16.reduceToNat, Nat.and_one_is_mod]
    omega
  rw [getCheckCode, hnum, checkLoop_eq h, Option.bind_eq_bind, Option.bind_some, zero_add]
  by_cases hs : s.length % 2 = 1
  · obtain rfl | ⟨t, c, rfl⟩ := List.eq_nil_or_concat' s
    · cases hs
    rw [List.length_append, List.length_singleton] at hs hsize
    have hlast : p + size.toNat - 1 = p + t.length := by omega
    have htwo : 2 * ((t ++ [c]).length / 2) = t.length := by
      rw [List.length_append, List.length_singleton]; omega
    rw [if_pos (hodd.2 (by simpa using hs)), hlast, h.drop.load, Option.bind_eq_bind,
      Option.bind_some, htwo, List.take_left, checkSum_concat (by omega)]
  · rw [if_neg (mt hodd.1 hs), List.take_of_length_le (by omega)]

/-! ## One byte -/

/-- What a byte counts at its place. -/
def weight (i : ℕ) : UInt16 := if i % 2 = 0 then 1 else 256

/-- **How one byte goes into the sum.** -/
theorem checkSum_set (hi : i < s.length) (c : UInt8) :
    checkSum (s.set i c) + weight i * s[i].toUInt16 = checkSum s + weight i * c.toUInt16 := by
  induction s using checkSum.induct generalizing i with
  | case1 => exact absurd hi (Nat.not_lt_zero i)
  | case2 d =>
    obtain rfl : i = 0 := by simpa using hi
    simp only [List.set_cons_zero, List.getElem_cons_zero, checkSum, weight]
    grind
  | case3 lo high s ih =>
    match i with
    | 0 =>
      simp only [List.set_cons_zero, List.getElem_cons_zero, checkSum, weight, word]
      grind
    | 1 =>
      simp only [List.set_cons_succ, List.set_cons_zero, List.getElem_cons_succ,
        List.getElem_cons_zero, checkSum, weight, word]
      grind
    | i + 2 =>
      have ih := @ih i (by simpa using hi)
      have hw : weight (i + 2) = weight i := by rw [weight, weight, Nat.add_mod_right]
      rw [List.set_cons_succ, List.set_cons_succ, checkSum, checkSum, List.getElem_cons_succ,
        List.getElem_cons_succ, hw, add_assoc, ih, add_assoc]

/-- A byte at its place does not go round. -/
theorem weight_mul_inj (h : weight i * c.toUInt16 = weight i * d.toUInt16) : c = d := by
  have hc := c.toNat_lt
  have hd := d.toNat_lt
  have hnat := congrArg UInt16.toNat h
  apply UInt8.toNat_inj.1
  rw [UInt16.toNat_mul, UInt16.toNat_mul, UInt8.toNat_toUInt16, UInt8.toNat_toUInt16,
    weight] at hnat
  split_ifs at hnat
  · simp only [UInt16.reduceToNat] at hnat
    omega
  · simp only [UInt16.reduceToNat] at hnat
    omega

/-- **One byte is changed**: then the check code is another one. -/
theorem getCheckCode_set (hs : s.length ≤ 65535) (hi : i < s.length) (hc : c ≠ s[i])
    (h : m.At b p s) (h' : m'.At b' j (s.set i c)) :
    ∃ k k', getCheckCode m b p (.ofNat s.length) = some k ∧
      getCheckCode m' b' j (.ofNat s.length) = some k' ∧ k ≠ k' := by
  have hsize : s.length = (UInt16.ofNat s.length).toNat := by
    rw [UInt16.toNat_ofNat_of_lt' (Nat.lt_succ_of_le hs)]
  refine ⟨checkSum s, checkSum (s.set i c), getCheckCode_eq h hsize,
    getCheckCode_eq h' (by rwa [List.length_set]), fun heq => hc ?_⟩
  have hset := checkSum_set hi c
  rw [← heq] at hset
  exact (weight_mul_inj (add_left_cancel hset)).symm

/-- The odd last byte of three. -/
theorem getCheckCode_set_three : ∃ k k', getCheckCode (fun _ => [1, 2, 3]) 0 0 3 = some k ∧
    getCheckCode (fun _ => [1, 2, 4]) 0 0 3 = some k' ∧ k ≠ k' :=
  getCheckCode_set (s := [1, 2, 3]) (i := 2) (c := 4) (by decide) (by decide) (by decide)
    (List.prefix_refl _) (List.prefix_refl _)

end CppExperiment.PoboTool
