/-
  `to_utf_16` (Standard/std_attri/Features.hpp).

  The range check lets every code point up to 0x10FFFF through, also those that
  are halves of a pair.  `joinUtf16` reads pairs; it undoes the encoder on lists
  in which no two code points make up a pair (`joinUtf16_flatMap`), so that only
  there the encoder can be undone (`toUtf16All_inj`).
-/
import CppExperiment.StdAttri.Features

namespace CppExperiment.StdAttri

/-- A number as a `char16_t`. -/
def toChar16 (x : UInt32) : UInt16 := x.toUInt16

/-- `to_utf_16(ch, result)`: what it leaves in `result`; `none` if it throws. -/
def toUtf16 (ch : UInt32) (result : List UInt16) : Option (List UInt16) :=
  if ch > unicodeMax then none
  else if ch < 0x10000 then some (result ++ [toChar16 ch])
  else
    some (result ++ [toChar16 ((0xD800 : UInt32) ||| ((ch - 0x10000) >>> 10)),
      toChar16 ((0xDC00 : UInt32) ||| (ch &&& 0x3FF))])

/-- `to_utf_16` for one code point after the other, as `TestCodeTransfer` calls
    it. -/
def toUtf16All : List UInt32 → List UInt16 → Option (List UInt16)
  | [], result => some result
  | ch :: chs, result => do
    let result ← toUtf16 ch result
    toUtf16All chs result

/-! ## Pairs -/

/-- The first half of a pair. -/
def IsHigh (n : ℕ) : Prop := 0xD800 ≤ n ∧ n < 0xDC00

/-- The second half of a pair. -/
def IsLow (n : ℕ) : Prop := 0xDC00 ≤ n ∧ n < 0xE000

instance (n : ℕ) : Decidable (IsHigh n) := inferInstanceAs (Decidable (_ ∧ _))

instance (n : ℕ) : Decidable (IsLow n) := inferInstanceAs (Decidable (_ ∧ _))

/-- No code point that is the first half of a pair stands directly before one
    that is a second half. -/
def NoPair (chs : List UInt32) : Prop :=
  chs.IsChain fun a b => ¬ (IsHigh a.toNat ∧ IsLow b.toNat)

/-- The code points of a text: every two units that can be a pair are one. -/
def joinUtf16 : List UInt16 → List UInt32
  | [] => []
  | [a] => [a.toUInt32]
  | a :: b :: s =>
    if IsHigh a.toNat ∧ IsLow b.toNat then
      UInt32.ofNat (0x10000 + (a.toNat - 0xD800) * 1024 + (b.toNat - 0xDC00)) :: joinUtf16 s
    else a.toUInt32 :: joinUtf16 (b :: s)

/-- The units of a code point. -/
def utf16Of (ch : UInt32) : List UInt16 := (toUtf16 ch []).getD []

variable {ch : UInt32} {chs chs' : List UInt32} {result s w : List UInt16} {a b : UInt16}

theorem toUtf16_eq (h : ch ≤ unicodeMax) : toUtf16 ch result = some (result ++ utf16Of ch) := by
  have hle : ¬ ch > unicodeMax := UInt32.not_lt.2 h
  unfold utf16Of toUtf16
  rw [if_neg hle, if_neg hle]
  split_ifs <;> rfl

/-- The encoder throws at no code point of the list, and what it leaves. -/
theorem toUtf16All_some (h : toUtf16All chs result = some w) :
    (∀ ch ∈ chs, ch ≤ unicodeMax) ∧ w = result ++ chs.flatMap utf16Of := by
  induction chs generalizing result with
  | nil =>
    rw [toUtf16All, Option.some_inj] at h
    exact ⟨fun _ h => absurd h List.not_mem_nil, by rw [List.flatMap_nil, List.append_nil, h]⟩
  | cons ch chs ih =>
    by_cases hch : ch ≤ unicodeMax
    · rw [toUtf16All, toUtf16_eq hch, Option.bind_eq_bind, Option.bind_some] at h
      obtain ⟨hle, hw⟩ := ih h
      exact ⟨List.forall_mem_cons.2 ⟨hch, hle⟩, by rw [hw, List.flatMap_cons, List.append_assoc]⟩
    · rw [toUtf16All, toUtf16, if_pos (UInt32.not_le.1 hch)] at h
      cases h

/-! ## The units of a code point -/

/-- A small number in the low bits. -/
theorem or_low {k x : ℕ} (hx : x < 2 ^ 10) : (k * 2 ^ 10) ||| x = k * 2 ^ 10 + x := by
  rw [← Nat.shiftLeft_eq, Nat.shiftLeft_add_eq_or_of_lt hx]

/-- A code point that is a unit by itself. -/
theorem utf16Of_unit (h : ch < 0x10000) : ∃ a, utf16Of ch = [a] ∧ a.toNat = ch.toNat ∧
    a.toUInt32 = ch := by
  have hlt : ch.toNat < 0x10000 := UInt32.lt_iff_toNat_lt.1 h
  have hmax : ¬ ch > unicodeMax := by
    rw [gt_iff_lt, UInt32.not_lt, UInt32.le_iff_toNat_le]
    exact hlt.le.trans (by decide)
  have hnat : (toChar16 ch).toNat = ch.toNat := by
    rw [toChar16, UInt32.toNat_toUInt16, Nat.mod_eq_of_lt hlt]
  refine ⟨toChar16 ch, ?_, hnat, ?_⟩
  · rw [utf16Of, toUtf16, if_neg hmax, if_pos h]
    rfl
  · rw [← UInt32.toNat_inj, UInt16.toNat_toUInt32, hnat]

/-- A code point that takes a pair. -/
theorem utf16Of_pair (h : ¬ ch < 0x10000) (hmax : ch ≤ unicodeMax) :
    ∃ a b, utf16Of ch = [a, b] ∧ a.toNat = 0xD800 + (ch.toNat - 0x10000) / 1024 ∧
      b.toNat = 0xDC00 + ch.toNat % 1024 := by
  have hge : 0x10000 ≤ ch := UInt32.not_lt.1 h
  have hle : ch.toNat ≤ 0x10FFFF := UInt32.le_iff_toNat_le.1 hmax
  have hshift : ((ch - 0x10000) >>> 10).toNat = (ch.toNat - 0x10000) / 1024 := by
    rw [UInt32.toNat_shiftRight, UInt32.toNat_sub_of_le _ _ hge]
    exact Nat.shiftRight_eq_div_pow _ 10
  have hmask : (ch &&& 0x3FF).toNat = ch.toNat % 1024 := by
    rw [UInt32.toNat_and]
    exact Nat.and_two_pow_sub_one_eq_mod _ 10
  have hD800 : (0xD800 : UInt32).toNat = 54 * 2 ^ 10 := by decide
  have hDC00 : (0xDC00 : UInt32).toNat = 55 * 2 ^ 10 := by decide
  have hhigh : ((0xD800 : UInt32) ||| ((ch - 0x10000) >>> 10)).toNat =
      0xD800 + (ch.toNat - 0x10000) / 1024 := by
    rw [UInt32.toNat_or, hshift, hD800]
    exact or_low (by omega)
  have hlow : ((0xDC00 : UInt32) ||| (ch &&& 0x3FF)).toNat = 0xDC00 + ch.toNat % 1024 := by
    rw [UInt32.toNat_or, hmask, hDC00]
    exact or_low (Nat.mod_lt _ (by decide))
  have hunits : utf16Of ch = [toChar16 ((0xD800 : UInt32) ||| ((ch - 0x10000) >>> 10)),
      toChar16 ((0xDC00 : UInt32) ||| (ch &&& 0x3FF))] := by
    rw [utf16Of, toUtf16, if_neg (UInt32.not_lt.2 hmax), if_neg h]
    rfl
  refine ⟨_, _, hunits, ?_, ?_⟩
  · rw [toChar16, UInt32.toNat_toUInt16, hhigh, Nat.mod_eq_of_lt (by omega)]
  · rw [toChar16, UInt32.toNat_toUInt16, hlow, Nat.mod_eq_of_lt (by omega)]

/-! ## Reading the units -/

theorem joinUtf16_unit (h : ∀ b r, s = b :: r → ¬ (IsHigh a.toNat ∧ IsLow b.toNat)) :
    joinUtf16 (a :: s) = a.toUInt32 :: joinUtf16 s := by
  cases s with
  | nil => rfl
  | cons b r => rw [joinUtf16, if_neg (h b r rfl)]

/-- The first unit of a list is a second half, only if the first code point is
    one. -/
theorem isLow_head {r : List UInt16} (hmax : ∀ ch ∈ chs, ch ≤ unicodeMax)
    (h : chs.flatMap utf16Of = b :: r) (hb : IsLow b.toNat) :
    ∃ ch chs', chs = ch :: chs' ∧ IsLow ch.toNat := by
  cases chs with
  | nil => cases h
  | cons ch chs =>
    refine ⟨ch, chs, rfl, ?_⟩
    rw [List.flatMap_cons] at h
    by_cases hch : ch < 0x10000
    · obtain ⟨a, ha, hnat, -⟩ := utf16Of_unit hch
      rw [ha] at h
      rwa [← hnat, (List.cons.inj h).1]
    · have hle := hmax ch List.mem_cons_self
      obtain ⟨a, b', hab, hnat, -⟩ := utf16Of_pair hch hle
      rw [hab] at h
      -- a pair starts with a first half
      rw [← (List.cons.inj h).1, IsLow, hnat] at hb
      have hle' : ch.toNat ≤ 0x10FFFF := UInt32.le_iff_toNat_le.1 hle
      omega

/-- **Reading undoes the encoder**, if no two code points make up a pair. -/
theorem joinUtf16_flatMap (hmax : ∀ ch ∈ chs, ch ≤ unicodeMax) (hpair : NoPair chs) :
    joinUtf16 (chs.flatMap utf16Of) = chs := by
  induction chs with
  | nil => rfl
  | cons ch chs ih =>
    obtain ⟨hch, hchs⟩ := List.forall_mem_cons.1 hmax
    obtain ⟨hhead, htail⟩ := List.isChain_cons.1 hpair
    rw [List.flatMap_cons]
    by_cases hunit : ch < 0x10000
    · obtain ⟨a, ha, hnat, hback⟩ := utf16Of_unit hunit
      rw [ha, List.singleton_append, joinUtf16_unit, hback, ih hchs htail]
      rintro b r hr ⟨hhigh, hlow⟩
      obtain ⟨ch', chs', rfl, hlow'⟩ := isLow_head hchs hr hlow
      exact hhead ch' rfl ⟨hnat ▸ hhigh, hlow'⟩
    · obtain ⟨a, b, hab, ha, hb⟩ := utf16Of_pair hunit hch
      have hge : 0x10000 ≤ ch.toNat := UInt32.le_iff_toNat_le.1 (UInt32.not_lt.1 hunit)
      have hle : ch.toNat ≤ 0x10FFFF := UInt32.le_iff_toNat_le.1 hch
      have hhalves : IsHigh a.toNat ∧ IsLow b.toNat := by
        rw [IsHigh, IsLow, ha, hb]
        omega
      have hsum : 0x10000 + (a.toNat - 0xD800) * 1024 + (b.toNat - 0xDC00) = ch.toNat := by
        rw [ha, hb]
        omega
      rw [hab]
      change joinUtf16 (a :: b :: chs.flatMap utf16Of) = _
      rw [joinUtf16, if_pos hhalves, hsum, UInt32.ofNat_toNat, ih hchs htail]

/-- **Lists without such pairs can be told apart** by what is encoded. -/
theorem toUtf16All_inj (h : toUtf16All chs result = some w) (h' : toUtf16All chs' result = some w)
    (hpair : NoPair chs) (hpair' : NoPair chs') : chs = chs' := by
  obtain ⟨hmax, hw⟩ := toUtf16All_some h
  obtain ⟨hmax', hw'⟩ := toUtf16All_some h'
  have heq := List.append_cancel_left (hw.symm.trans hw')
  rw [← joinUtf16_flatMap hmax hpair, heq, joinUtf16_flatMap hmax' hpair']

/-- U+0061 and U+1F600. -/
theorem toUtf16All_inj_face : toUtf16All [0x61, 0x1F600] [] = some [0x61, 0xD83D, 0xDE00] ∧
    NoPair [0x61, 0x1F600] ∧ [(0x61 : UInt32), 0x1F600] = [0x61, 0x1F600] := by
  have h : toUtf16All [0x61, 0x1F600] [] = some [0x61, 0xD83D, 0xDE00] := by decide
  have hpair : NoPair [0x61, 0x1F600] := by
    rw [NoPair, List.isChain_cons_cons]
    exact ⟨by decide, List.IsChain.singleton _⟩
  exact ⟨h, hpair, toUtf16All_inj h h hpair hpair⟩

/-- The two halves of a pair, and the code point that the pair stands for. -/
theorem toUtf16All_pair : ¬ ∀ (chs chs' : List UInt32) (w : List UInt16),
    toUtf16All chs [] = some w → toUtf16All chs' [] = some w → chs = chs' := by
  intro h
  cases h [0xD83D, 0xDE00] [0x1F600] [0xD83D, 0xDE00] (by decide) (by decide)

end CppExperiment.StdAttri
