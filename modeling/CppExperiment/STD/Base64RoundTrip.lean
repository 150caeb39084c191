/-
  Encoding and decoding with CommonTools/STD.cc.

  * `base64_encode_decode`: with room enough, the encoder writes the text of
    RFC 4648 and the decoder gives the bytes back.
  * `cut_off_iff`: with any room, both stay within it and the decoder gives the
    first bytes back, iff no sum of the encoder overflows.
-/
import CppExperiment.STD.Base64Encode
import CppExperiment.STD.Base64Decode

namespace CppExperiment.STD

variable {m : Mem} {out str : ℕ} {len : ℤ} {a b c : UInt8} {s u : List UInt8}

/-- **Encoding and decoding.**  For any bytes `s`: into a buffer with six bytes
    to spare the encoder writes the Base64 text of `s` and its terminator,
    nothing else; from this text, wherever it stands, the decoder writes back
    `s` and returns its length, if its buffer has room for `s` and a
    terminator. -/
theorem base64_encode_decode (hne : str ≠ out) (hs : m.At str 0 s) (hb : len ≤ (m out).length)
    (hint : len < 2 ^ 31) (hr : 4 * (((s.length : ℤ) + 2) / 3) + 6 ≤ len) :
    base64EncodeWithAdd m out len str s.length = some (m.put out (Base64.encode s ++ [0])) ∧
    ∀ (m : Mem) (inp out : ℕ) (outLen : ℤ), m.IsStr inp (Base64.encode s) → inp ≠ out →
      outLen ≤ (m out).length → outLen < 2 ^ 31 → (s.length : ℤ) + 1 ≤ outLen →
      base64Decode m inp out outLen = some (m.put out (s ++ [0]), s.length) := by
  constructor
  · exact encode_spec hne hs hb hint (by rw [Base64.length_encode]; omega)
  · intro m inp out outLen hm hne hb hint hr
    have hbufs : DecodeBufs m inp out (outLen - 1) := ⟨hne, by omega, by omega⟩
    have h := decode_spec hbufs hm (by omega)
    rwa [Int.sub_add_cancel] at h

/-- Four bytes, encoded into a buffer of fourteen and decoded again. -/
theorem base64_encode_decode_four : ∃ m : Mem,
    base64EncodeWithAdd
      (fun b => [[1, 255, 0, 7], List.replicate 14 9, List.replicate 5 9].getD b [])
      1 14 0 4 = some m ∧ m 1 = [65, 102, 56, 65, 66, 119, 61, 61, 0, 9, 9, 9, 9, 9] ∧
    (base64Decode m 1 2 5).map (fun r => (r.1 2, r.2)) = some ([1, 255, 0, 7, 0], 4) := by
  obtain ⟨he, hd⟩ := @base64_encode_decode
    (fun b => [[1, 255, 0, 7], List.replicate 14 9, List.replicate 5 9].getD b [])
    1 0 14 [1, 255, 0, 7] (by decide) ⟨[], rfl⟩ (by decide) (by decide) (by decide)
  refine ⟨_, he, by decide, ?_⟩
  rw [hd _ 1 2 5 (Mem.isStr_put (by decide)) (by decide) (by decide) (by decide) (by decide)]
  decide

/-! ## Any room -/

/-- The digits of a group. -/
theorem group_lt_64 (a b c : UInt8) : a.toNat / 4 < 64 ∧ a.toNat % 4 * 16 + b.toNat / 16 < 64 ∧
    b.toNat % 16 * 4 + c.toNat / 64 < 64 ∧ c.toNat % 64 < 64 ∧ b.toNat % 16 * 4 < 64 := by
  have ha := a.toNat_lt
  have hb := b.toNat_lt
  have hc := c.toNat_lt
  omega

/-- A text that is cut off has the characters of Base64. -/
theorem Cut.chars (h : Cut s u) : ∀ x ∈ u, isBase64Chr x := by
  have hdigit : ∀ v < 64, isBase64Chr (Base64.digit v) := fun v hv => isBase64Chr_digit hv
  have hpad : isBase64Chr Base64.pad := by decide
  induction h with
  | stop s => exact nofun
  | one a s =>
    obtain ⟨h1, -⟩ := group_lt_64 a a a
    simpa using hdigit _ h1
  | two a b s =>
    obtain ⟨h1, h2, -⟩ := group_lt_64 a b b
    simpa using ⟨hdigit _ h1, hdigit _ h2⟩
  | padOne a => exact List.filter_eq_self.1 (filter_encode [a])
  | padTwo a b s => exact List.filter_eq_self.1 (filter_encode [a, b])
  | padBoth a b s =>
    obtain ⟨h1, h2, -, -, h3⟩ := group_lt_64 a b b
    simpa using ⟨hdigit _ h1, hdigit _ h2, hdigit _ h3, hpad⟩
  | group a b c _ ih =>
    obtain ⟨h1, h2, h3, h4, -⟩ := group_lt_64 a b c
    simpa using ⟨hdigit _ h1, hdigit _ h2, hdigit _ h3, hdigit _ h4, ih⟩

/-- Padding comes with a group. -/
theorem Cut.short (h : Cut s u) : 4 ≤ u.length ∨ Base64.pad ∉ u := by
  cases h with
  | stop => exact .inr nofun
  | one a s =>
    obtain ⟨h1, -⟩ := group_lt_64 a a a
    exact .inr (by simpa using (Base64.digit_ne_pad h1).symm)
  | two a b s =>
    obtain ⟨h1, h2, -⟩ := group_lt_64 a b b
    exact .inr (by simpa using ⟨(Base64.digit_ne_pad h1).symm, (Base64.digit_ne_pad h2).symm⟩)
  | padOne a => exact .inl (by simp [Base64.length_encode])
  | padTwo a b s => exact .inl (by simp [Base64.length_encode])
  | padBoth a b s => exact .inl (by simp)
  | group a b c _ => exact .inl (by simp)

/-- **What a cut text stands for** is the start of the bytes encoded. -/
theorem Cut.textBytes_prefix (h : Cut s u) : textBytes u <+: s := by
  induction h with
  | stop s => exact List.nil_prefix
  | one a s =>
    rw [textBytes_short (by simp)]
    exact List.nil_prefix
  | two a b s =>
    rw [textBytes_short (by simp)]
    exact List.nil_prefix
  | padOne a => rw [textBytes_encode]
  | padTwo a b s =>
    rw [textBytes_encode]
    exact ⟨s, rfl⟩
  | padBoth a b s =>
    have hpad : paddingOf [Base64.digit (a.toNat / 4),
        Base64.digit (a.toNat % 4 * 16 + b.toNat / 16), Base64.digit (b.toNat % 16 * 4),
        Base64.pad, Base64.pad] = 2 := if_pos rfl
    -- only the first byte is left of the group
    have hfirst : (groupBytes (chr2Base (Base64.digit (a.toNat / 4)),
        chr2Base (Base64.digit (a.toNat % 4 * 16 + b.toNat / 16)),
        chr2Base (Base64.digit (b.toNat % 16 * 4)), chr2Base Base64.pad)).take 1 = [a] :=
      congrArg (List.take 1) (groupBytes_three (a := a) (b := b) (c := 0))
    rw [textBytes, hpad, groupsBytes]
    simp only [List.length_cons, List.length_nil, Nat.reduceAdd, Nat.reduceDiv, Nat.reduceMul,
      Nat.reduceSub]
    rw [List.take_append_of_le_length (by rw [length_groupBytes]; omega), hfirst]
    exact ⟨b :: s, rfl⟩
  | group a b c hcut ih =>
    rw [textBytes_group, groupBytes_three]
    · exact (List.prefix_append_right_inj [a, b, c]).2 ih
    · refine hcut.short.imp id ?_
      intro hu hm
      exact (List.mem_append.1 (show Base64.pad ∈ [_, _, _, _] ++ _ from hm)).elim
        pad_notMem_group hu

/-- The decoder on a text that is cut off. -/
theorem decode_cut {inp : ℕ} {outLen : ℤ} (hcut : Cut s u) (hu : (u.length : ℤ) < 2 ^ 31)
    (hs : m.IsStr inp u) (hne : inp ≠ out) (h1 : 1 ≤ outLen) (hint : outLen < 2 ^ 31)
    (hb : outLen ≤ (m out).length) : ∃ q, q <+: s ∧ (q.length : ℤ) < outLen ∧
      base64Decode m inp out outLen = some (m.put out (q ++ [0]), q.length) := by
  obtain ⟨n, rfl⟩ : ∃ n : ℕ, outLen = n + 1 := ⟨(outLen - 1).toNat, by omega⟩
  have hf : u.filter isBase64Chr = u := List.filter_eq_self.2 hcut.chars
  have hle := length_decoded_le n u
  obtain ⟨-, r, hr⟩ := id hs
  have h := decode_text (n := n) ⟨hne, by omega, by omega⟩ hs
    (by rw [filtered_eq_self hf]; omega)
  rw [filtered_eq_self hf, hf, Mem.put_prefix ⟨0 :: r, hr.symm⟩] at h
  exact ⟨_, (decoded_prefix_textBytes n u).trans hcut.textBytes_prefix, by omega, h⟩

/-- The encoder leaves a text `u` in the first `len` bytes of its buffer, from
    which the decoder writes the first bytes of `s` into a buffer of any size,
    within its size, and returns their number. -/
def CutsOff (m : Mem) (out str : ℕ) (len : ℤ) (s : List UInt8) : Prop :=
  ∃ u, 0 ∉ u ∧ (u.length : ℤ) < len ∧
    base64EncodeWithAdd m out len str s.length = some (m.put out (u ++ [0])) ∧
    ∀ (m : Mem) (inp out : ℕ) (outLen : ℤ), m.IsStr inp u → inp ≠ out → 1 ≤ outLen →
      outLen < 2 ^ 31 → outLen ≤ (m out).length → ∃ q, q <+: s ∧ (q.length : ℤ) < outLen ∧
        base64Decode m inp out outLen = some (m.put out (q ++ [0]), q.length)

/-- **Encoding and decoding with any room.**  For any bytes `s` and buffers of
    any size: the encoder writes within its buffer, the decoder within its own,
    and the bytes decoded are the first ones of `s`, iff the encoder's buffer
    is not of the greatest size of an `int` with more than 1.6 GB for it. -/
theorem cut_off_iff (hne : str ≠ out) (hs : m.At str 0 s) (hb : len ≤ (m out).length)
    (h1 : 1 ≤ len) (hint : len < 2 ^ 31) :
    CutsOff m out str len s ↔ ¬ (len = 2 ^ 31 - 1 ∧ 1610612733 ≤ s.length) := by
  constructor
  · rintro ⟨u, -, -, hrun, -⟩ ⟨hlen, hn⟩
    rw [encode_overflow hne hs hb hlen hn] at hrun
    cases hrun
  · intro hover
    obtain ⟨u, hcut, hlt, hrun⟩ := encode_cut hne hs hb h1 hint hover
    refine ⟨u, ?_, hlt, hrun, ?_⟩
    · intro h0
      exact absurd (hcut.chars 0 h0) (by decide)
    · intro m inp out outLen hm hne h1 hint hb
      exact decode_cut hcut (by omega) hm hne h1 hint hb

/-- Five bytes into a buffer of nine: the first three are left. -/
theorem cut_off_nine : CutsOff (fun b => [[1, 255, 0, 7, 8], List.replicate 9 9].getD b [])
    1 0 9 [1, 255, 0, 7, 8] :=
  (cut_off_iff (by decide) ⟨[], rfl⟩ (by decide) (by decide) (by decide)).2 (by decide)

/-- Zeros, as many as fill a buffer of the greatest size. -/
theorem cut_off_overflow : ¬ ∀ (m : Mem) (out str : ℕ) (len : ℤ) (s : List UInt8), str ≠ out →
    m.At str 0 s → len ≤ (m out).length → 1 ≤ len → len < 2 ^ 31 → CutsOff m out str len s := by
  intro hall
  obtain ⟨n, hn⟩ : ∃ n, n = 1610612733 := ⟨_, rfl⟩
  obtain ⟨l, hl⟩ : ∃ l, l = 2 ^ 31 - 1 := ⟨_, rfl⟩
  let m : Mem := fun b => List.replicate (if b = 0 then n else l) 0
  have hs : m.At 0 0 (List.replicate n 0) := ⟨[], List.append_nil _⟩
  have hb : ((2 : ℤ) ^ 31 - 1) ≤ (m 1).length := by
    show ((2 : ℤ) ^ 31 - 1) ≤ (List.replicate l (0 : UInt8)).length
    rw [List.length_replicate, hl]
    norm_num
  obtain ⟨u, -, -, hrun, -⟩ := hall m 1 0 (2 ^ 31 - 1) _ (by decide) hs hb (by norm_num)
    (by norm_num)
  rw [encode_overflow (by decide) hs hb rfl (by rw [List.length_replicate, hn])] at hrun
  cases hrun

end CppExperiment.STD
