/-
  Decimal numbers as text, as `printf` and `atoi` have them.

  * `fixedDigits d n` are the last `d` digits of `n`.  Texts of digits are
    these: they are determined by their length and their value
    (`fixedDigits_value`, `value_fixedDigits`).
  * `printInt w x` is `%0wd`: at least `w` characters, zeros in front.
  * `atoi` reads a number; a text of digits is read as its value
    (`atoi_digits`).
  * `Mem.snprintf`, `Mem.atoi` and `Mem.strchr` do this in memory.
-/
import CppExperiment.Lib.Memory

namespace CppExperiment

/-- The digits `0` to `9`. -/
def IsDigit (c : UInt8) : Prop := 48 ≤ c ∧ c ≤ 57

instance (c : UInt8) : Decidable (IsDigit c) := inferInstanceAs (Decidable (_ ∧ _))

/-- The value of a text of digits. -/
def digitsValue (s : List UInt8) : ℕ := s.foldl (fun v c => 10 * v + (c.toNat - 48)) 0

/-- The last `d` digits of a number. -/
def fixedDigits : (d n : ℕ) → List UInt8
  | 0, _ => []
  | d + 1, n => fixedDigits d (n / 10) ++ [.ofNat (48 + n % 10)]

variable {s t : List UInt8} {c : UInt8} {d n w : ℕ}

theorem isDigit_iff : IsDigit c ↔ 48 ≤ c.toNat ∧ c.toNat ≤ 57 := Iff.rfl

theorem notMem_of_isDigit (hs : ∀ c ∈ s, IsDigit c) (hc : ¬ IsDigit c) : c ∉ s :=
  fun h => hc (hs c h)

theorem toNat_digit (n : ℕ) : (UInt8.ofNat (48 + n % 10)).toNat = 48 + n % 10 := by
  rw [UInt8.toNat_ofNat']
  omega

theorem digitsValue_concat (s : List UInt8) (c : UInt8) :
    digitsValue (s ++ [c]) = 10 * digitsValue s + (c.toNat - 48) := by
  rw [digitsValue, List.foldl_append]
  rfl

theorem digitsValue_append (s t : List UInt8) :
    digitsValue (s ++ t) = digitsValue s * 10 ^ t.length + digitsValue t := by
  induction t using List.reverseRecOn with
  | nil => rw [List.append_nil]; simp [digitsValue]
  | append_singleton t c ih =>
    rw [← List.append_assoc, digitsValue_concat, ih, digitsValue_concat, List.length_append,
      List.length_singleton, pow_succ]
    ring

theorem length_fixedDigits (d n : ℕ) : (fixedDigits d n).length = d := by
  induction d generalizing n with
  | zero => rfl
  | succ d ih => rw [fixedDigits, List.length_append, ih, List.length_singleton]

theorem isDigit_fixedDigits {d n : ℕ} (h : c ∈ fixedDigits d n) : IsDigit c := by
  induction d generalizing n with
  | zero => cases h
  | succ d ih =>
    rw [fixedDigits, List.mem_append, List.mem_singleton] at h
    rcases h with h | rfl
    · exact ih h
    · have := Nat.mod_lt n (by decide : 10 > 0)
      rw [isDigit_iff, toNat_digit]
      omega

/-- **The value of digits.** -/
theorem value_fixedDigits (d n : ℕ) : digitsValue (fixedDigits d n) = n % 10 ^ d := by
  induction d generalizing n with
  | zero => exact (Nat.mod_one n).symm
  | succ d ih =>
    rw [fixedDigits, digitsValue_concat, ih, toNat_digit, Nat.add_sub_cancel_left, pow_succ',
      Nat.mod_mul, Nat.add_comm]

/-- **Digits are determined by their value.** -/
theorem fixedDigits_value (hs : ∀ c ∈ s, IsDigit c) :
    fixedDigits s.length (digitsValue s) = s := by
  induction s using List.reverseRecOn with
  | nil => rfl
  | append_singleton s c ih =>
    rw [List.forall_mem_append, List.forall_mem_singleton, isDigit_iff] at hs
    obtain ⟨hs, hlo, hhi⟩ := hs
    have hdiv : (10 * digitsValue s + (c.toNat - 48)) / 10 = digitsValue s := by omega
    have hmod : 48 + (10 * digitsValue s + (c.toNat - 48)) % 10 = c.toNat := by omega
    rw [List.length_append, List.length_singleton, digitsValue_concat, fixedDigits, hdiv, hmod,
      ih hs, UInt8.ofNat_toNat]

theorem digitsValue_lt (hs : ∀ c ∈ s, IsDigit c) : digitsValue s < 10 ^ s.length := by
  rw [← fixedDigits_value hs, value_fixedDigits, length_fixedDigits]
  exact Nat.mod_lt _ (by positivity)

/-! ## Printing -/

/-- `%0wd` of a number that is not negative. -/
def printDecimal (w n : ℕ) : List UInt8 := fixedDigits (max (max w 1) (Nat.digits 10 n).length) n

/-- `%0wd` -/
def printInt (w : ℕ) (x : ℤ) : List UInt8 :=
  if x < 0 then 45 :: printDecimal (w - 1) x.natAbs else printDecimal w x.toNat

theorem isDigit_printDecimal (h : c ∈ printDecimal w n) : IsDigit c := isDigit_fixedDigits h

theorem value_printDecimal (w n : ℕ) : digitsValue (printDecimal w n) = n := by
  rw [printDecimal, value_fixedDigits]
  refine Nat.mod_eq_of_lt ((Nat.lt_base_pow_length_digits (by decide : 1 < 10)).trans_le ?_)
  exact Nat.pow_le_pow_right (by decide) (le_max_right _ _)

theorem printDecimal_eq (hw : 1 ≤ w) (h : n < 10 ^ w) : printDecimal w n = fixedDigits w n := by
  rw [printDecimal, max_eq_left hw,
    max_eq_left ((Nat.digits_length_le_iff (by decide : 1 < 10) n).2 h)]

theorem length_printDecimal (hw : 1 ≤ w) (h : n < 10 ^ w) : (printDecimal w n).length = w := by
  rw [printDecimal_eq hw h, length_fixedDigits]

theorem length_printDecimal_le (hw : w ≤ d) (hd : 1 ≤ d) (h : n < 10 ^ d) :
    (printDecimal w n).length ≤ d := by
  rw [printDecimal, length_fixedDigits]
  exact max_le (max_le hw hd) ((Nat.digits_length_le_iff (by decide : 1 < 10) n).2 h)

theorem printInt_nonneg {x : ℤ} (hx : 0 ≤ x) (w : ℕ) : printInt w x = printDecimal w x.toNat :=
  if_neg (not_lt.2 hx)

theorem mem_printInt {x : ℤ} (h : c ∈ printInt w x) : c = 45 ∨ IsDigit c := by
  unfold printInt at h
  split at h
  · exact (List.mem_cons.1 h).imp_right isDigit_printDecimal
  · exact .inr (isDigit_printDecimal h)

theorem length_printInt_le {x : ℤ} (hw : w ≤ d) (hd : 1 ≤ d) (h : x.natAbs < 10 ^ d) :
    (printInt w x).length ≤ d + 1 := by
  unfold printInt
  split
  · have := length_printDecimal_le (w := w - 1) (by omega) hd h
    rw [List.length_cons]
    omega
  · have := length_printDecimal_le (n := x.toNat) hw hd (by omega)
    omega

/-- The minus signs of a number. -/
theorem count_printInt (w : ℕ) (x : ℤ) : (printInt w x).count 45 = if x < 0 then 1 else 0 := by
  have hdigits (w n : ℕ) : (printDecimal w n).count 45 = 0 :=
    List.count_eq_zero.2 (notMem_of_isDigit (fun _ => isDigit_printDecimal) (by decide))
  unfold printInt
  split
  · rw [List.count_cons_self, hdigits]
  · exact hdigits w _

/-- The text of a number is the text that has its value. -/
theorem printDecimal_value (hs : ∀ c ∈ s, IsDigit c) (hne : s ≠ []) :
    printDecimal s.length (digitsValue s) = s := by
  rw [printDecimal_eq (List.length_pos_iff.2 hne) (digitsValue_lt hs), fixedDigits_value hs]

/-! ## Reading -/

/-- `isspace(c)` -/
def IsSpace (c : UInt8) : Prop := c = 32 ∨ 9 ≤ c ∧ c ≤ 13

instance (c : UInt8) : Decidable (IsSpace c) := inferInstanceAs (Decidable (_ ∨ _))

/-- An `int`: signed overflow is undefined. -/
def checkedInt (x : ℤ) : Option ℤ := if -2 ^ 31 ≤ x ∧ x < 2 ^ 31 then some x else none

theorem checkedInt_eq {x : ℤ} (h : -2 ^ 31 ≤ x) (h' : x < 2 ^ 31) : checkedInt x = some x :=
  if_pos ⟨h, h'⟩

/-- The digits at the start of a text. -/
def leadingValue (s : List UInt8) : ℕ := digitsValue (s.takeWhile (IsDigit ·))

/-- `atoi` of a text: spaces, a sign and digits. -/
def atoi (s : List UInt8) : Option ℤ :=
  match s.dropWhile (IsSpace ·) with
  | 45 :: s => checkedInt (-leadingValue s)
  | 43 :: s => checkedInt (leadingValue s)
  | s => checkedInt (leadingValue s)

theorem leadingValue_append (hs : ∀ c ∈ s, IsDigit c) (ht : ∀ c, t.head? = some c → ¬ IsDigit c) :
    leadingValue (s ++ t) = digitsValue s := by
  have hrest : t.takeWhile (IsDigit ·) = [] := by
    cases t with
    | nil => rfl
    | cons c t => exact List.takeWhile_cons_of_neg (by rw [decide_eq_true_eq]; exact ht c rfl)
  rw [leadingValue, List.takeWhile_append_of_pos fun c hc => decide_eq_true (hs c hc), hrest,
    List.append_nil]

theorem leadingValue_digits (hs : ∀ c ∈ s, IsDigit c) : leadingValue s = digitsValue s := by
  have h := @leadingValue_append s [] hs fun c hc => by cases hc
  rwa [List.append_nil] at h

/-- **`atoi` stops behind the digits.** -/
theorem atoi_append (hs : ∀ c ∈ s, IsDigit c) (hne : s ≠ [])
    (ht : ∀ c, t.head? = some c → ¬ IsDigit c) (h : digitsValue s < 2 ^ 31) :
    atoi (s ++ t) = some (digitsValue s : ℤ) := by
  have hint : checkedInt (leadingValue (s ++ t)) = some (digitsValue s : ℤ) := by
    rw [leadingValue_append hs ht, checkedInt_eq (by omega) (by omega)]
  cases s with
  | nil => exact absurd rfl hne
  | cons c s =>
    have hc := (List.forall_mem_cons.1 hs).1
    have hspace : ¬ IsSpace c := by
      rintro (rfl | ⟨-, h13⟩)
      · exact absurd hc (by decide)
      · exact absurd (UInt8.le_trans hc.1 h13) (by decide)
    have hdrop : (c :: s ++ t).dropWhile (IsSpace ·) = c :: s ++ t :=
      List.dropWhile_cons_of_neg (by rwa [decide_eq_true_eq])
    rw [atoi, hdrop]
    split
    · next heq => cases heq; exact absurd hc (by decide)
    · next heq => cases heq; exact absurd hc (by decide)
    · exact hint

/-- **`atoi` of digits.** -/
theorem atoi_digits (hs : ∀ c ∈ s, IsDigit c) (h : digitsValue s < 2 ^ 31) :
    atoi s = some (digitsValue s : ℤ) := by
  cases s with
  | nil => rfl
  | cons c s =>
    have hread := @atoi_append (c :: s) [] hs (by simp) (fun c hc => by cases hc) h
    rwa [List.append_nil] at hread

/-- Without a minus sign, the number is not negative. -/
theorem atoi_nonneg {x : ℤ} (h45 : 45 ∉ s) (h : atoi s = some x) : 0 ≤ x := by
  have hint (n : ℕ) (h : checkedInt n = some x) : 0 ≤ x := by
    unfold checkedInt at h
    split at h
    · cases h
      omega
    · cases h
  rw [atoi] at h
  split at h
  · next t heq =>
    have hsub := List.dropWhile_sublist (p := (IsSpace ·)) (l := s)
    rw [heq] at hsub
    exact absurd (hsub.subset List.mem_cons_self) h45
  · exact hint _ h
  · exact hint _ h

/-- **`atoi` reads back what `%0wd` prints.** -/
theorem atoi_printInt {x : ℤ} (hlo : -2 ^ 31 ≤ x) (hhi : x < 2 ^ 31) :
    atoi (printInt w x) = some x := by
  by_cases hx : x < 0
  · have hvalue : leadingValue (printDecimal (w - 1) x.natAbs) = x.natAbs := by
      rw [leadingValue_digits fun _ => isDigit_printDecimal, value_printDecimal]
    rw [printInt, if_pos hx, atoi, List.dropWhile_cons_of_neg (by decide)]
    change checkedInt (-(leadingValue (printDecimal (w - 1) x.natAbs) : ℤ)) = some x
    rw [hvalue, Int.ofNat_natAbs_of_nonpos hx.le, neg_neg, checkedInt_eq hlo hhi]
  · rw [printInt_nonneg (not_lt.1 hx), atoi_digits (fun _ => isDigit_printDecimal)
      (by rw [value_printDecimal]; omega), value_printDecimal, Int.toNat_of_nonneg (not_lt.1 hx)]

/-! ## In memory -/

namespace Mem
variable {m : Mem} {b out i size : ℕ}

/-- The C string at index `i` of the block `b`. -/
def cstrAt (m : Mem) (b i : ℕ) : Option (List UInt8) :=
  if 0 ∈ (m b).drop i then some (cstr ((m b).drop i)) else none

/-- `atoi` of the string at index `i`. -/
def atoi (m : Mem) (b i : ℕ) : Option ℤ := do CppExperiment.atoi (← m.cstrAt b i)

/-- `strchr` of a character that is not NUL: where it stands in the string at
    the start of the block. -/
def strchr (m : Mem) (b : ℕ) (c : UInt8) : Option (Option ℕ) := do
  let s ← m.cstrAt b 0
  some (s.findIdx? (· = c))

/-- `snprintf` of the text `s`: as much of it as has room, and its length. -/
def snprintf (m : Mem) (out size : ℕ) (s : List UInt8) : Option (Mem × ℕ) := do
  let m ← if size = 0 then some m else m.storeAll out 0 (s.take (size - 1) ++ [0])
  some (m, s.length)

theorem At.cstrAt (h : m.At b i (s ++ [0])) (h0 : 0 ∉ s) : m.cstrAt b i = some s := by
  obtain ⟨r, hr⟩ := h
  rw [List.append_assoc] at hr
  rw [Mem.cstrAt, if_pos (by rw [← hr]; simp), cstr_eq h0 hr.symm]

theorem IsStr.cstrAt (h : m.IsStr b s) : m.cstrAt b 0 = some s := h.at_end.cstrAt h.1

/-- A number in memory. -/
theorem At.atoi (h : m.At b i (s ++ [0])) (hs : ∀ c ∈ s, IsDigit c)
    (hint : digitsValue s < 2 ^ 31) : m.atoi b i = some (digitsValue s : ℤ) := by
  rw [Mem.atoi, h.cstrAt (notMem_of_isDigit hs (by decide)), Option.bind_eq_bind, Option.bind_some,
    atoi_digits hs hint]

theorem IsStr.strchr (h : m.IsStr b s) (c : UInt8) :
    m.strchr b c = some (s.findIdx? (· = c)) := by
  rw [Mem.strchr, h.cstrAt]
  rfl

/-- The room is enough for what is written. -/
theorem snprintf_eq (h : size ≤ (m out).length) : m.snprintf out size s =
    some (if size = 0 then m else m.put out (s.take (size - 1) ++ [0]), s.length) := by
  rw [snprintf]
  split_ifs with h0
  · rfl
  · have hlen : (s.take (size - 1) ++ [0]).length ≤ size := by
      rw [List.length_append, List.length_take, List.length_singleton]
      omega
    have hput := @storeAll_put m out 0 [] (s.take (size - 1) ++ [0]) rfl
      ((Nat.zero_add _).trans_le (hlen.trans h))
    rw [put_nil, List.nil_append] at hput
    rw [hput]
    rfl

/-- **`snprintf` of a text that has room.** -/
theorem snprintf_isStr (hs : s.length < size) (hsz : size ≤ (m out).length) (h0 : 0 ∉ s) :
    ∃ m', m.snprintf out size s = some (m', s.length) ∧ m.SameBut out m' ∧ m'.IsStr out s := by
  refine ⟨m.put out (s ++ [0]), ?_, sameBut_put ?_, isStr_put h0⟩
  · rw [snprintf_eq hsz, if_neg (Nat.ne_zero_of_lt hs), List.take_of_length_le (by omega)]
  · rw [List.length_append, List.length_singleton]
    omega

end Mem

end CppExperiment
