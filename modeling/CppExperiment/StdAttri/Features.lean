/-
  `to_utf_8` (Standard/std_attri/Features.hpp) and the two readers of UTF-8 in
  CommonTools/STD.cc.

  `utf8Of ch` are the bytes that `to_utf_8` appends for a code point.
  `utf8_text`: what it writes is text for `CheckTextType`, and `get_utf8_words`
  cuts it behind the last code point that fits.
-/
import CppExperiment.STD.TextType

namespace CppExperiment.StdAttri
open STD

def unicodeMax : UInt32 := 0x10FFFF

/-- A number as a `char`. -/
def toChar (x : UInt32) : UInt8 := x.toUInt8

/-- `to_utf_8(ch, result)`: what it leaves in `result`; `none` if it throws. -/
def toUtf8 (ch : UInt32) (result : List UInt8) : Option (List UInt8) :=
  if ch > unicodeMax then none
  else if ch < 0x80 then some (result ++ [toChar ch])
  else if ch < 0x800 then
    some (result ++ [toChar ((0xC0 : UInt32) ||| (ch >>> 6)),
      toChar ((0x80 : UInt32) ||| (ch &&& 0x3F))])
  else if ch < 0x10000 then
    some (result ++ [toChar ((0xE0 : UInt32) ||| (ch >>> 12)),
      toChar ((0x80 : UInt32) ||| ((ch >>> 6) &&& 0x3F)),
      toChar ((0x80 : UInt32) ||| (ch &&& 0x3F))])
  else
    some (result ++ [toChar ((0xF0 : UInt32) ||| (ch >>> 18)),
      toChar ((0x80 : UInt32) ||| ((ch >>> 12) &&& 0x3F)),
      toChar ((0x80 : UInt32) ||| ((ch >>> 6) &&& 0x3F)),
      toChar ((0x80 : UInt32) ||| (ch &&& 0x3F))])

/-- `to_utf_8` for one code point after the other, as `TestCodeTransfer` calls
    it. -/
def toUtf8All : List UInt32 → List UInt8 → Option (List UInt8)
  | [], result => some result
  | ch :: chs, result => do
    let result ← toUtf8 ch result
    toUtf8All chs result

/-- The bytes of a code point. -/
def utf8Of (ch : UInt32) : List UInt8 := (toUtf8 ch []).getD []

variable {m : Mem} {src dest n : ℕ} {destSize : ℤ} {ch x : UInt32} {chs : List UInt32}
  {result : List UInt8}

theorem toUtf8_eq (h : ch ≤ unicodeMax) : toUtf8 ch result = some (result ++ utf8Of ch) := by
  have hle : ¬ ch > unicodeMax := UInt32.not_lt.2 h
  unfold utf8Of toUtf8
  rw [if_neg hle, if_neg hle]
  split_ifs <;> rfl

theorem toUtf8All_eq (h : ∀ ch ∈ chs, ch ≤ unicodeMax) :
    toUtf8All chs result = some (result ++ (chs.map utf8Of).flatten) := by
  induction chs generalizing result with
  | nil => rw [List.map_nil, List.flatten_nil, List.append_nil, toUtf8All]
  | cons ch chs ih =>
    obtain ⟨hch, hchs⟩ := List.forall_mem_cons.1 h
    rw [toUtf8All, toUtf8_eq hch, Option.bind_eq_bind, Option.bind_some, ih hchs, List.map_cons,
      List.flatten_cons, List.append_assoc]

/-! ## The bytes of a code point -/

/-- A fact about a small number, by trying all of them. -/
theorem of_lt {P : UInt32 → Prop} (h : ∀ k < n, P (UInt32.ofNat k)) (hx : x.toNat < n) : P x := by
  have hk := h x.toNat hx
  rwa [UInt32.ofNat_toNat] at hk

/-- The first byte of a code point: what a shift leaves of it is small. -/
theorem leadSize_shiftRight {lead k : UInt32} {size : ℕ}
    (h : ∀ i < n, leadSize (toChar (lead ||| UInt32.ofNat i)) = some size) (hk : k.toNat < 32)
    (hx : x.toNat < n * 2 ^ k.toNat) : leadSize (toChar (lead ||| (x >>> k))) = some size := by
  have hlt : (x >>> k).toNat < n := by
    rw [UInt32.toNat_shiftRight, Nat.mod_eq_of_lt hk, Nat.shiftRight_eq_div_pow]
    exact Nat.div_lt_of_lt_mul (by rwa [Nat.mul_comm])
  exact of_lt (P := fun y => leadSize (toChar (lead ||| y)) = some size) h hlt

theorem toChar_continuation (x : UInt32) :
    toChar ((0x80 : UInt32) ||| (x &&& 0x3F)) &&& 0xc0 = 0x80 := by
  have hlt : (x &&& 0x3F).toNat < 64 := by
    rw [UInt32.toNat_and]
    exact Nat.and_lt_two_pow _ (by decide : (0x3F : UInt32).toNat < 2 ^ 6)
  exact of_lt (P := fun y => toChar ((0x80 : UInt32) ||| y) &&& 0xc0 = 0x80) (by decide +kernel) hlt

/-- **The bytes of a code point** are a character of at most four bytes. -/
theorem isChar_utf8Of (h : ch ≤ unicodeMax) : IsChar (utf8Of ch) ∧ (utf8Of ch).length ≤ 4 := by
  have hmax : ch.toNat ≤ 0x10FFFF := UInt32.le_iff_toNat_le.1 h
  unfold utf8Of toUtf8
  rw [if_neg (UInt32.not_lt.2 h)]
  split_ifs with h1 h2 h3
  · have hlt : ch.toNat < 0x80 := UInt32.lt_iff_toNat_lt.1 h1
    have hlead := of_lt (P := fun y => leadSize (toChar y) = some 1) (by decide +kernel) hlt
    exact ⟨⟨hlead, by simp⟩, by simp⟩
  · have hlt : ch.toNat < 32 * 2 ^ 6 := UInt32.lt_iff_toNat_lt.1 h2
    have hlead : leadSize (toChar ((0xC0 : UInt32) ||| (ch >>> 6))) = some 2 :=
      leadSize_shiftRight (by decide +kernel) (by decide) hlt
    exact ⟨⟨hlead, by simp [toChar_continuation]⟩, by simp⟩
  · have hlt : ch.toNat < 16 * 2 ^ 12 := UInt32.lt_iff_toNat_lt.1 h3
    have hlead : leadSize (toChar ((0xE0 : UInt32) ||| (ch >>> 12))) = some 3 :=
      leadSize_shiftRight (by decide +kernel) (by decide) hlt
    exact ⟨⟨hlead, by simp [toChar_continuation]⟩, by simp⟩
  · have hlt : ch.toNat < 8 * 2 ^ 18 := by omega
    have hlead : leadSize (toChar ((0xF0 : UInt32) ||| (ch >>> 18))) = some 4 :=
      leadSize_shiftRight (by decide +kernel) (by decide) hlt
    exact ⟨⟨hlead, by simp [toChar_continuation]⟩, by simp⟩

/-! ## A text of code points -/

theorem words_utf8Of (h : ∀ ch ∈ chs, ch ≤ unicodeMax) : Words utf8WordSize (chs.map utf8Of) := by
  intro w hw
  obtain ⟨ch, hch, rfl⟩ := List.mem_map.1 hw
  obtain ⟨hchar, h4⟩ := isChar_utf8Of (h ch hch)
  have hwords := words_wordsOfChar hchar
  rw [wordsOfChar, if_pos h4] at hwords
  exact hwords _ List.mem_cons_self

theorem utf8Text_utf8Of (h : ∀ ch ∈ chs, ch ≤ unicodeMax) :
    Utf8Text (chs.map utf8Of).flatten := by
  induction chs with
  | nil => exact .nil
  | cons ch chs ih =>
    obtain ⟨hch, hchs⟩ := List.forall_mem_cons.1 h
    exact .cons (isChar_utf8Of hch).1 (ih hchs)

/-- **Code points are written, known and cut.**  `CheckTextType` knows the text
    of any code points, and `get_utf8_words` leaves the text of as many of them
    as fit. -/
theorem utf8_text (h : ∀ ch ∈ chs, ch ≤ unicodeMax) :
    ∃ s, toUtf8All chs [] = some s ∧ ∀ (m : Mem) (src dest : ℕ) (destSize : ℤ),
      src ≠ dest → m.At src 0 s → (s.length : ℤ) < 2 ^ 31 → 1 ≤ destSize →
      destSize ≤ (m dest).length →
      checkTextType m src s.length = some .FT_UTF8 ∧
      ∃ q t, q <+: chs ∧ toUtf8All q [] = some t ∧ (t.length : ℤ) ≤ destSize - 1 ∧
        (∀ q' t', q' <+: chs → toUtf8All q' [] = some t' → (t'.length : ℤ) ≤ destSize - 1 →
          q' <+: q) ∧
        getUtf8Words m (some src) s.length (some dest) destSize =
          some (m.put dest (t ++ [0]), t.length) := by
  refine ⟨(chs.map utf8Of).flatten, by rw [toUtf8All_eq h, List.nil_append], ?_⟩
  intro m src dest destSize hne hat hint h1 hsz
  refine ⟨(checkTextType_iff hat).2 (utf8Text_utf8Of h), ?_⟩
  have hstart := fit_isPrefix (List.length ∘ utf8Of) (destSize - 1).toNat chs
  have hroom := room_fit_le List.length (destSize - 1).toNat (chs.map utf8Of)
  have hget := getUtf8Words_words hne (words_utf8Of h) hat hint h1 hsz
  have hq {q : List UInt32} (hq : q <+: chs) : toUtf8All q [] = some (q.map utf8Of).flatten := by
    rw [toUtf8All_eq fun ch hch => h ch (hq.subset hch), List.nil_append]
  rw [fit_map, ← length_flatten] at hroom
  rw [fit_map] at hget
  refine ⟨_, _, hstart, hq hstart, by omega, ?_, hget⟩
  intro q' t' hq' ht' hle
  rw [hq hq', Option.some_inj] at ht'
  subst ht'
  refine prefix_fit hq' ?_
  rw [length_flatten, room, List.map_map] at hle
  rw [room]
  omega

/-- U+0061 and U+00E9 in a buffer with room for two bytes. -/
theorem utf8_text_two : toUtf8All [0x61, 0xE9] [] = some [97, 195, 169] ∧
    ∃ t, getUtf8Words (fun b => [[97, 195, 169], [7, 7, 7]].getD b []) (some 0) 3 (some 1) 3 =
      some (Mem.put (fun b => [[97, 195, 169], [7, 7, 7]].getD b []) 1 (t ++ [0]), t.length) := by
  have hs : toUtf8All [0x61, 0xE9] [] = some [97, 195, 169] := by decide +kernel
  have hmax : ∀ ch ∈ [(0x61 : UInt32), 0xE9], ch ≤ unicodeMax := by simp [unicodeMax]
  obtain ⟨s, hs', h⟩ := utf8_text hmax
  rw [hs, Option.some_inj] at hs'
  subst hs'
  obtain ⟨-, q, t, -, -, -, -, hget⟩ := h (fun b => [[97, 195, 169], [7, 7, 7]].getD b []) 0 1 3
    (by decide) List.prefix_rfl (by decide) (by decide) (by decide)
  exact ⟨hs, t, hget⟩

end CppExperiment.StdAttri
