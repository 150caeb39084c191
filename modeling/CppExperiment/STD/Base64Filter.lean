/-
  Characters that are not Base64 in a text for `STD::Base64Decode`
  (CommonTools/STD.cc).

  `STD::Base64Filter` writes no terminator behind the characters that it keeps:
  the decoder takes the length and the padding of the text from before.

  * `ignores_iff`: the decoder makes the same of a text and of its characters
    of Base64, iff it counts as many groups and as many padding characters.
-/
import CppExperiment.STD.Base64Decode

namespace CppExperiment.STD

variable {m m' : Mem} {inp out inp' out' k : ℕ} {outLen : ℤ} {t u v w : List UInt8}

/-- Whole groups of a text do not depend on what follows. -/
theorem take_groupsBytes_append (w : List UInt8) (h : 4 * k ≤ v.length) :
    (groupsBytes (v ++ w)).take (3 * k) = (groupsBytes v).take (3 * k) := by
  induction k generalizing v with
  | zero => rfl
  | succ k ih =>
    obtain ⟨x, y, z, a, r, rfl⟩ := exists_group (u := v) (by omega)
    simp only [List.length_cons] at h
    simp only [List.cons_append, take_groupsBytes_cons]
    rw [ih (by omega)]

/-- A text with something behind it stands for the same bytes, if neither the
    number of groups nor the padding changes. -/
theorem textBytes_append (hk : (v ++ w).length / 4 = v.length / 4)
    (hy : paddingOf (v ++ w) = paddingOf v) : textBytes (v ++ w) = textBytes v := by
  have hle : 3 * (v.length / 4) - paddingOf v ≤ 3 * (v.length / 4) := Nat.sub_le _ _
  have hgroups := take_groupsBytes_append (k := v.length / 4) w (Nat.mul_div_le _ 4)
  have h := congrArg (List.take (3 * (v.length / 4) - paddingOf v)) hgroups
  rw [List.take_take, List.take_take, Nat.min_eq_left hle] at h
  rw [textBytes, textBytes, hk, hy, h]

/-- The number of bytes tells the groups and the padding, if there is a group. -/
theorem length_textBytes_inj (h : (textBytes u).length = (textBytes v).length)
    (hu : 4 ≤ u.length) : u.length / 4 = v.length / 4 ∧ paddingOf u = paddingOf v := by
  have hy := paddingOf_le u
  have hy' := paddingOf_le v
  rw [length_textBytes, length_textBytes] at h
  omega

/-- The decoder on a text, into a buffer with room for all its bytes. -/
theorem decode_room (hne : inp ≠ out) (ht : m.IsStr inp t) (hb : outLen ≤ (m out).length)
    (hint : outLen < 2 ^ 31) (hr : (textBytes (filtered t)).length + 1 ≤ outLen) :
    base64Decode m inp out outLen =
      some ((m.put inp (t.filter isBase64Chr)).put out (textBytes (filtered t) ++ [0]),
        (textBytes (filtered t)).length) := by
  obtain ⟨n, rfl⟩ : ∃ n : ℕ, outLen = n + 1 := ⟨(outLen - 1).toNat, by omega⟩
  have hlen := length_textBytes (filtered t)
  rw [length_filtered] at hlen
  have h := decode_text (n := n) ⟨hne, by omega, by omega⟩ ht (by omega)
  rwa [decoded_eq (by omega)] at h

/-- The decoder writes the same bytes for two texts, and returns their number
    for both. -/
def DecodeAlike (m : Mem) (inp out : ℕ) (m' : Mem) (inp' out' : ℕ) (outLen : ℤ) : Prop :=
  ∃ s r r', base64Decode m inp out outLen = some (r, s.length) ∧ r.At out 0 (s ++ [0]) ∧
    base64Decode m' inp' out' outLen = some (r', s.length) ∧ r'.At out' 0 (s ++ [0])

/-- With room for the bytes of both, what counts is the bytes of the texts. -/
theorem decodeAlike_iff (hne : inp ≠ out) (hne' : inp' ≠ out') (hu : m.IsStr inp u)
    (hv : m'.IsStr inp' v) (hb : outLen ≤ (m out).length) (hb' : outLen ≤ (m' out').length)
    (hint : outLen < 2 ^ 31) (hr : (textBytes (filtered u)).length + 1 ≤ outLen)
    (hr' : (textBytes (filtered v)).length + 1 ≤ outLen) :
    DecodeAlike m inp out m' inp' out' outLen ↔
      textBytes (filtered u) = textBytes (filtered v) := by
  have hrun := decode_room hne hu hb hint hr
  have hrun' := decode_room hne' hv hb' hint hr'
  constructor
  · rintro ⟨s, r, r', h, hat, h', hat'⟩
    rw [hrun, Option.some.injEq, Prod.mk.injEq] at h
    rw [hrun', Option.some.injEq, Prod.mk.injEq] at h'
    obtain ⟨rfl, hs⟩ := h
    obtain ⟨rfl, hs'⟩ := h'
    have hbytes := hat.eq_of_length Mem.at_put (by simp [hs])
    have hbytes' := hat'.eq_of_length Mem.at_put (by simp [hs'])
    exact List.append_cancel_right (hbytes.symm.trans hbytes')
  · intro heq
    rw [← heq] at hrun'
    exact ⟨_, _, _, hrun, Mem.at_put, hrun', Mem.at_put⟩

/-- **Characters that are not Base64.**  For any text and a buffer with room
    for the bytes of both: the decoder makes the same of the text and of its
    characters of Base64, iff the text has no group, or the other characters
    leave the number of groups as it is and, at the end of what the filter
    leaves, the padding. -/
theorem ignores_iff (hne : inp ≠ out) (hne' : inp' ≠ out') (ht : m.IsStr inp t)
    (ht' : m'.IsStr inp' (t.filter isBase64Chr)) (hb : outLen ≤ (m out).length)
    (hb' : outLen ≤ (m' out').length) (hint : outLen < 2 ^ 31)
    (hr : (textBytes (filtered t)).length + 1 ≤ outLen)
    (hr' : (textBytes (t.filter isBase64Chr)).length + 1 ≤ outLen) :
    DecodeAlike m inp out m' inp' out' outLen ↔
      t.length < 4 ∨ (t.length / 4 = (t.filter isBase64Chr).length / 4 ∧
        paddingOf (t.filter isBase64Chr ++ t.drop (t.filter isBase64Chr).length) =
          paddingOf (t.filter isBase64Chr)) := by
  have hle := List.length_filter_le isBase64Chr t
  have hlen := length_filtered t
  have hself : filtered (t.filter isBase64Chr) = t.filter isBase64Chr :=
    filtered_eq_self (by rw [List.filter_filter]; simp)
  rw [decodeAlike_iff hne hne' ht ht' hb hb' hint hr (by rwa [hself]), hself]
  constructor
  · intro heq
    refine (Nat.lt_or_ge t.length 4).imp_right ?_
    intro h4
    have h := length_textBytes_inj (congrArg List.length heq) (by rwa [hlen])
    rwa [hlen] at h
  · rintro (h4 | ⟨hk, hy⟩)
    · rw [textBytes_short (by rwa [hlen]), textBytes_short (by omega)]
    · exact textBytes_append (by rw [← filtered, hlen, hk]) hy

/-- A line break behind whole groups. -/
theorem ignores_lineBreak :
    DecodeAlike (fun b => [[81, 85, 74, 68, 10, 0], List.replicate 8 9].getD b []) 0 1
      (fun b => [[81, 85, 74, 68, 0], List.replicate 8 9].getD b []) 0 1 8 :=
  (@ignores_iff _ _ 0 1 0 1 8 [81, 85, 74, 68, 10] (by decide) (by decide)
    ⟨by decide, [], rfl⟩ ⟨by decide, [], rfl⟩ (by decide) (by decide) (by decide) (by decide)
    (by decide)).2 (.inr (by decide))

/-- A line break behind a padded group: `QUI=` stands for two bytes, with the
    line break the decoder makes three of it. -/
theorem lineBreak_moves_padding : ¬ ∀ (m m' : Mem) (inp out inp' out' : ℕ) (outLen : ℤ)
    (t : List UInt8), inp ≠ out → inp' ≠ out' → m.IsStr inp t →
    m'.IsStr inp' (t.filter isBase64Chr) → outLen ≤ (m out).length → outLen ≤ (m' out').length →
    outLen < 2 ^ 31 → (textBytes (filtered t)).length + 1 ≤ outLen →
    (textBytes (t.filter isBase64Chr)).length + 1 ≤ outLen →
    DecodeAlike m inp out m' inp' out' outLen := by
  intro hall
  obtain ⟨s, r, r', h, -, h', -⟩ := hall
    (fun b => [[81, 85, 73, 61, 10, 0], List.replicate 8 9].getD b [])
    (fun b => [[81, 85, 73, 61, 0], List.replicate 8 9].getD b []) 0 1 0 1 8
    [81, 85, 73, 61, 10] (by decide) (by decide) ⟨by decide, [], rfl⟩ ⟨by decide, [], rfl⟩
    (by decide) (by decide) (by decide) (by decide) (by decide)
  have hs := congrArg (Option.map Prod.snd) h
  have hs' := congrArg (Option.map Prod.snd) h'
  exact absurd (hs.trans hs'.symm) (by decide)

end CppExperiment.STD
