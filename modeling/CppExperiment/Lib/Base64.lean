/-
  The Base64 encoding of RFC 4648, section 4, with the standard alphabet and
  padding.

  Three bytes are a 24-bit number, written as four digits to the base 64; a
  last group of one or two bytes is filled up with zero bits to whole digits
  and with `=` to four characters.

  * `encode` is the encoding, `length_encode` its length, `mem_encode` the
    characters it uses.
  * `high_toNat` and `span_toNat` are the digits of a group as the shifts and
    masks of bytes that an encoder computes; `byte1_toNat` to `byte3_toNat` the
    bytes of a group as a decoder computes them from its digits.
-/
import Mathlib

namespace CppExperiment.Base64

/-- The digits. -/
def alphabet : List UInt8 :=
  "ABCDEFGHIJKLMNOPQRSTUVWXYZabcdefghijklmnopqrstuvwxyz0123456789+/".toList.map
    fun c => UInt8.ofNat c.toNat

/-- The digit of the value `v < 64`. -/
def digit (v : ℕ) : UInt8 := alphabet.getD v 0

/-- The padding character, `=`. -/
def pad : UInt8 := 61

/-- The Base64 text of some bytes. -/
def encode : List UInt8 → List UInt8
  | [] => []
  | [a] =>
    let v := a.toNat * 2 ^ 4
    [digit (v / 2 ^ 6), digit (v % 2 ^ 6), pad, pad]
  | [a, b] =>
    let v := (a.toNat * 2 ^ 8 + b.toNat) * 2 ^ 2
    [digit (v / 2 ^ 12), digit (v / 2 ^ 6 % 2 ^ 6), digit (v % 2 ^ 6), pad]
  | a :: b :: c :: s =>
    let v := (a.toNat * 2 ^ 8 + b.toNat) * 2 ^ 8 + c.toNat
    digit (v / 2 ^ 18) :: digit (v / 2 ^ 12 % 2 ^ 6) :: digit (v / 2 ^ 6 % 2 ^ 6) ::
      digit (v % 2 ^ 6) :: encode s

example : encode [102, 111, 111, 98, 97] = [90, 109, 57, 118, 89, 109, 69, 61] := by decide

section
variable (a b c : UInt8) (s : List UInt8)

theorem encode_nil : encode [] = [] := rfl

/-- A last group of one byte. -/
theorem encode_one :
    encode [a] = [digit (a.toNat / 4), digit (a.toNat % 4 * 16), pad, pad] := by
  have h1 : a.toNat * 2 ^ 4 / 2 ^ 6 = a.toNat / 4 := by omega
  have h2 : a.toNat * 2 ^ 4 % 2 ^ 6 = a.toNat % 4 * 16 := by omega
  rw [encode, h1, h2]

/-- A last group of two bytes. -/
theorem encode_two :
    encode [a, b] = [digit (a.toNat / 4), digit (a.toNat % 4 * 16 + b.toNat / 16),
      digit (b.toNat % 16 * 4), pad] := by
  have hb := b.toNat_lt
  have h1 : (a.toNat * 2 ^ 8 + b.toNat) * 2 ^ 2 / 2 ^ 12 = a.toNat / 4 := by omega
  have h2 : (a.toNat * 2 ^ 8 + b.toNat) * 2 ^ 2 / 2 ^ 6 % 2 ^ 6 =
      a.toNat % 4 * 16 + b.toNat / 16 := by omega
  have h3 : (a.toNat * 2 ^ 8 + b.toNat) * 2 ^ 2 % 2 ^ 6 = b.toNat % 16 * 4 := by omega
  rw [encode, h1, h2, h3]

/-- A group of three bytes. -/
theorem encode_three :
    encode (a :: b :: c :: s) =
      digit (a.toNat / 4) :: digit (a.toNat % 4 * 16 + b.toNat / 16) ::
        digit (b.toNat % 16 * 4 + c.toNat / 64) :: digit (c.toNat % 64) :: encode s := by
  have hb := b.toNat_lt
  have hc := c.toNat_lt
  have h1 : ((a.toNat * 2 ^ 8 + b.toNat) * 2 ^ 8 + c.toNat) / 2 ^ 18 = a.toNat / 4 := by omega
  have h2 : ((a.toNat * 2 ^ 8 + b.toNat) * 2 ^ 8 + c.toNat) / 2 ^ 12 % 2 ^ 6 =
      a.toNat % 4 * 16 + b.toNat / 16 := by omega
  have h3 : ((a.toNat * 2 ^ 8 + b.toNat) * 2 ^ 8 + c.toNat) / 2 ^ 6 % 2 ^ 6 =
      b.toNat % 16 * 4 + c.toNat / 64 := by omega
  have h4 : ((a.toNat * 2 ^ 8 + b.toNat) * 2 ^ 8 + c.toNat) % 2 ^ 6 = c.toNat % 64 := by omega
  rw [encode, h1, h2, h3, h4]

end

/-- Induction on the groups of three bytes. -/
theorem group_induction {P : List UInt8 → Prop} (nil : P []) (one : ∀ a, P [a])
    (two : ∀ a b, P [a, b]) (more : ∀ a b c s, P s → P (a :: b :: c :: s)) : ∀ s, P s
  | [] => nil
  | [a] => one a
  | [a, b] => two a b
  | a :: b :: c :: s => more a b c s (group_induction nil one two more s)

/-- Four characters for every three bytes. -/
theorem length_encode (s : List UInt8) : (encode s).length = 4 * ((s.length + 2) / 3) := by
  induction s using group_induction with
  | nil => rfl
  | one a => simp [encode_one]
  | two a b => simp [encode_two]
  | more a b c s ih => rw [encode_three]; simp only [List.length_cons, ih]; omega

/-- Every character of a text is a digit or padding. -/
theorem mem_encode {s : List UInt8} {x : UInt8} (hx : x ∈ encode s) :
    (∃ v < 64, x = digit v) ∨ x = pad := by
  induction s using group_induction with
  | nil => cases hx
  | one a =>
    have ha := a.toNat_lt
    simp only [encode_one, List.mem_cons, List.not_mem_nil, or_false] at hx
    rcases hx with rfl | rfl | rfl | rfl
    · exact .inl ⟨_, by omega, rfl⟩
    · exact .inl ⟨_, by omega, rfl⟩
    · exact .inr rfl
    · exact .inr rfl
  | two a b =>
    have ha := a.toNat_lt
    have hb := b.toNat_lt
    simp only [encode_two, List.mem_cons, List.not_mem_nil, or_false] at hx
    rcases hx with rfl | rfl | rfl | rfl
    · exact .inl ⟨_, by omega, rfl⟩
    · exact .inl ⟨_, by omega, rfl⟩
    · exact .inl ⟨_, by omega, rfl⟩
    · exact .inr rfl
  | more a b c s ih =>
    have ha := a.toNat_lt
    have hb := b.toNat_lt
    have hc := c.toNat_lt
    simp only [encode_three, List.mem_cons] at hx
    rcases hx with rfl | rfl | rfl | rfl | hx
    · exact .inl ⟨_, by omega, rfl⟩
    · exact .inl ⟨_, by omega, rfl⟩
    · exact .inl ⟨_, by omega, rfl⟩
    · exact .inl ⟨_, by omega, rfl⟩
    · exact ih hx

theorem digit_ne_pad {v : ℕ} (h : v < 64) : digit v ≠ pad := by
  have : ∀ v : Fin 64, digit v ≠ pad := by decide +kernel
  exact this ⟨v, h⟩

/-! ## Digits and bytes as bit operations

An encoder takes the digits of a group from its bytes by shifts and masks, a
decoder the bytes from the digits. -/

section
variable (a b : UInt8)

theorem toNat_mask : (a &&& 0x3F).toNat = a.toNat % 64 := by
  rw [UInt8.toNat_and]
  exact Nat.and_two_pow_sub_one_eq_mod a.toNat 6

/-- The digit that starts a byte. -/
theorem high_toNat : ((a >>> 2) &&& 0x3F).toNat = a.toNat / 4 := by
  have ha := a.toNat_lt
  rw [toNat_mask, UInt8.toNat_shiftRight, Nat.shiftRight_eq_div_pow]
  change a.toNat / 2 ^ 2 % 64 = _
  omega

/-- The bits that a byte leaves to the next digit, `k` of them missing. -/
theorem left_toNat {k : ℕ} (hk : k < 6) :
    ((a <<< UInt8.ofNat k) &&& 0x3F).toNat = a.toNat % 2 ^ (6 - k) * 2 ^ k := by
  rw [toNat_mask, UInt8.toNat_shiftLeft, Nat.shiftLeft_eq]
  have h : (UInt8.ofNat k).toNat % 8 = k := by rw [UInt8.toNat_ofNat']; omega
  rw [h]
  interval_cases k <;> omega

/-- **The digit that spans two bytes**: the last bits of `a`, then the first
    `k` bits of `b`. -/
theorem span_toNat {k : ℕ} (hk : 0 < k) (hk' : k < 6) :
    ((((a <<< UInt8.ofNat k) &&& 0x3F) ||| (b >>> UInt8.ofNat (8 - k))) &&& 0x3F).toNat =
      a.toNat % 2 ^ (6 - k) * 2 ^ k + b.toNat / 2 ^ (8 - k) := by
  have hb := b.toNat_lt
  have hr : (b >>> UInt8.ofNat (8 - k)).toNat = b.toNat / 2 ^ (8 - k) := by
    have h : (UInt8.ofNat (8 - k)).toNat % 8 = 8 - k := by rw [UInt8.toNat_ofNat']; omega
    rw [UInt8.toNat_shiftRight, Nat.shiftRight_eq_div_pow, h]
  have hlt : b.toNat / 2 ^ (8 - k) < 2 ^ k := by
    rw [Nat.div_lt_iff_lt_mul (by positivity), ← pow_add]
    rwa [show k + (8 - k) = 8 by omega]
  rw [toNat_mask, UInt8.toNat_or, left_toNat a hk', hr, Nat.mul_comm,
    ← Nat.two_pow_add_eq_or_of_lt hlt]
  apply Nat.mod_eq_of_lt
  interval_cases k <;> omega

/-- The second digit of a group. -/
theorem second_toNat : ((((a <<< (4 : UInt8)) &&& 0x3F) ||| (b >>> (4 : UInt8))) &&& 0x3F).toNat =
    a.toNat % 4 * 16 + b.toNat / 16 :=
  span_toNat a b (k := 4) (by decide) (by decide)

/-- The third digit of a group. -/
theorem third_toNat : ((((a <<< (2 : UInt8)) &&& 0x3F) ||| (b >>> (6 : UInt8))) &&& 0x3F).toNat =
    a.toNat % 16 * 4 + b.toNat / 64 :=
  span_toNat a b (k := 2) (by decide) (by decide)

/-- The third digit of a group of two bytes. -/
theorem third_toNat_pad : (((a <<< 2) &&& 0x3F) &&& 0x3F).toNat = a.toNat % 16 * 4 := by
  have h := left_toNat a (k := 2) (by decide)
  change ((a <<< 2) &&& 0x3F).toNat = a.toNat % 16 * 4 at h
  rw [toNat_mask, h]; omega

/-- The second digit of a group of one byte. -/
theorem second_toNat_pad : (((a <<< 4) &&& 0x3F) &&& 0x3F).toNat = a.toNat % 4 * 16 := by
  have h := left_toNat a (k := 4) (by decide)
  change ((a <<< 4) &&& 0x3F).toNat = a.toNat % 4 * 16 at h
  rw [toNat_mask, h]; omega

/-- The last digit of a group. -/
theorem last_toNat : ((a &&& 0x3F) &&& 0x3F).toNat = a.toNat % 64 := by
  rw [toNat_mask, toNat_mask]; omega

end

section
variable {a b : UInt8}

/-- A fact about a digit value, by trying all of them. -/
theorem of_lt_64 {P : UInt8 → Prop} (h : ∀ v : Fin 64, P (UInt8.ofNat v)) (ha : a.toNat < 64) :
    P a := by
  simpa using h ⟨a.toNat, ha⟩

/-- The first byte of a group, from its first two digits. -/
theorem byte1_toNat (ha : a.toNat < 64) (hb : b.toNat < 64) :
    ((a <<< 2) ||| ((b &&& 0x30) >>> 4)).toNat = a.toNat * 4 + b.toNat / 16 := by
  have h1 : (a <<< 2).toNat = 2 ^ 2 * a.toNat :=
    of_lt_64 (P := fun a => (a <<< 2).toNat = 2 ^ 2 * a.toNat) (by decide +kernel) ha
  have h2 : ((b &&& 0x30) >>> 4).toNat = b.toNat / 16 :=
    of_lt_64 (P := fun b => ((b &&& 0x30) >>> 4).toNat = b.toNat / 16) (by decide +kernel) hb
  rw [UInt8.toNat_or, h1, h2, ← Nat.two_pow_add_eq_or_of_lt (by omega)]
  omega

/-- The second byte, from the second and the third digit. -/
theorem byte2_toNat (ha : a.toNat < 64) (hb : b.toNat < 64) :
    (((a &&& 0x0F) <<< 4) ||| ((b &&& 0x3C) >>> 2)).toNat = a.toNat % 16 * 16 + b.toNat / 4 := by
  have h1 : ((a &&& 0x0F) <<< 4).toNat = 2 ^ 4 * (a.toNat % 16) :=
    of_lt_64 (P := fun a => ((a &&& 0x0F) <<< 4).toNat = 2 ^ 4 * (a.toNat % 16))
      (by decide +kernel) ha
  have h2 : ((b &&& 0x3C) >>> 2).toNat = b.toNat / 4 :=
    of_lt_64 (P := fun b => ((b &&& 0x3C) >>> 2).toNat = b.toNat / 4) (by decide +kernel) hb
  rw [UInt8.toNat_or, h1, h2, ← Nat.two_pow_add_eq_or_of_lt (by omega)]
  omega

/-- The third byte, from the third and the last digit. -/
theorem byte3_toNat (ha : a.toNat < 64) (hb : b.toNat < 64) :
    (((a &&& 0x03) <<< 6) ||| (b &&& 0x3F)).toNat = a.toNat % 4 * 64 + b.toNat := by
  have h1 : ((a &&& 0x03) <<< 6).toNat = 2 ^ 6 * (a.toNat % 4) :=
    of_lt_64 (P := fun a => ((a &&& 0x03) <<< 6).toNat = 2 ^ 6 * (a.toNat % 4))
      (by decide +kernel) ha
  rw [UInt8.toNat_or, h1, toNat_mask, Nat.mod_eq_of_lt hb,
    ← Nat.two_pow_add_eq_or_of_lt (by omega)]
  omega

end

end CppExperiment.Base64
