/-
  `STD::TranslateData` (CommonTools/STD.cc): a backslash before `:`, `,`
  and `;`.

  The loop is that of `to_zhuangyi_string`, with other cases.  A backslash of
  the value is not escaped; still a value can be read off its translation
  (`untranslate_flatMap`): the characters `:`, `,` and `;` never stand in a
  translation but behind the backslash that was written for them.
-/
import CppExperiment.Lib.LetterCode
import CppExperiment.STD.Zhuangyi

namespace CppExperiment.STD

/-- The cases of the switch of `TranslateData`: `:`, `,`, `;`. -/
def translateChar (c : UInt8) : Option UInt8 :=
  if c = 58 then some 58
  else if c = 44 then some 44
  else if c = 59 then some 59
  else none

/-- `TranslateData(value, out, size)` -/
def translateData (m : Mem) (value out : ℕ) (size : ℤ) : Option Mem :=
  escapeLoop translateChar (size - 1) value out (m value).length m 0 0

/-- The complete translation of a value. -/
def translation (s : List UInt8) : List UInt8 := s.flatMap (escapeWord translateChar)

/-- A character behind a backslash loses it, if it is one of the three. -/
def untranslate : List UInt8 → List UInt8
  | [] => []
  | [c] => [c]
  | c :: d :: s =>
    if c = 92 ∧ translateChar d ≠ none then d :: untranslate s else c :: untranslate (d :: s)

variable {m m' : Mem} {value value' out out' : ℕ} {size size' : ℤ} {s s' t : List UInt8}
  {c d l : UInt8}

theorem translateChar_some (h : translateChar c = some l) : l = c ∧ c ≠ 0 := by
  unfold translateChar at h
  split_ifs at h with h1 h2 h3
  · exact ⟨by rw [h1]; exact (Option.some_inj.1 h).symm, by rw [h1]; decide⟩
  · exact ⟨by rw [h2]; exact (Option.some_inj.1 h).symm, by rw [h2]; decide⟩
  · exact ⟨by rw [h3]; exact (Option.some_inj.1 h).symm, by rw [h3]; decide⟩

/-- A translation does not start with one of the three characters. -/
theorem translateChar_head (h : translation s = d :: t) : translateChar d = none := by
  cases s with
  | nil => cases h
  | cons c s =>
    rw [translation, List.flatMap_cons] at h
    cases hc : translateChar c with
    | none =>
      rw [escapeWord_plain hc] at h
      rw [← (List.cons.inj h).1, hc]
    | some l =>
      rw [escapeWord_special hc] at h
      rw [← (List.cons.inj h).1]
      rfl

theorem untranslate_plain (h : ∀ d s, t = d :: s → translateChar d = none) :
    untranslate (c :: t) = c :: untranslate t := by
  cases t with
  | nil => rfl
  | cons d s => rw [untranslate, if_neg fun hcd => hcd.2 (h d s rfl)]

/-- **A value is read off its translation.** -/
theorem untranslate_translation (s : List UInt8) : untranslate (translation s) = s := by
  refine decode_flatMap rfl (fun c s => ?_) s
  cases hc : translateChar c with
  | none =>
    rw [escapeWord_plain hc, List.singleton_append]
    exact untranslate_plain fun d t h => translateChar_head h
  | some l =>
    obtain ⟨rfl, -⟩ := translateChar_some hc
    have hne : translateChar l ≠ none := by rw [hc]; exact Option.some_ne_none l
    rw [escapeWord_special hc]
    change untranslate (92 :: l :: s.flatMap (escapeWord translateChar)) = _
    rw [untranslate, if_pos ⟨rfl, hne⟩]

theorem zero_notMem_translation (h0 : 0 ∉ s) : 0 ∉ translation s := by
  refine notMem_flatMap fun c hc => ?_
  cases henc : translateChar c with
  | none =>
    rw [escapeWord_plain henc, List.mem_singleton]
    rintro rfl
    exact h0 hc
  | some l =>
    obtain ⟨rfl, hl⟩ := translateChar_some henc
    rw [escapeWord_special henc]
    rintro h
    rcases List.mem_pair.1 h with h | h
    · cases h
    · exact hl h.symm

/-- **What is written**: the longest start of the value whose translation
    fits. -/
theorem translateData_fit (hne : value ≠ out) (hv : m.IsStr value s) (h1 : 1 ≤ size)
    (hsz : size ≤ (m out).length) :
    translateData m value out size =
      some (m.put out (translation
        (fit (fun c => (escapeWord translateChar c).length) (size - 1).toNat s) ++ [0])) := by
  have hsz' : size - 1 < (m out).length := by omega
  have h := @escapeLoop_put m value out 0 0 (size - 1) s [] translateChar (m value).length
    (size - 1).toNat hne hsz' hv.at_end hv.1 rfl (by omega) hv.length_lt
  rwa [Mem.put_nil, List.nil_append] at h

/-- A translation that fits is written whole. -/
theorem translateData_eq (hne : value ≠ out) (hv : m.IsStr value s)
    (hfit : ((translation s).length : ℤ) < size) (hsz : size ≤ (m out).length) :
    translateData m value out size = some (m.put out (translation s ++ [0])) := by
  have hroom : room (fun c => (escapeWord translateChar c).length) s ≤ (size - 1).toNat := by
    rw [← length_flatMap_code]
    change (translation s).length ≤ _
    omega
  rw [translateData_fit hne hv (by omega) hsz, fit_eq_self hroom]

/-- **A value is translated up to a character**, and two values whose
    translations fit have different translations. -/
theorem translateData_spec (hne : value ≠ out) (hv : m.IsStr value s) (h1 : 1 ≤ size)
    (hsz : size ≤ (m out).length) :
    (∃ u, u <+: s ∧ ((translation u).length : ℤ) + 1 ≤ size ∧
      translateData m value out size = some (m.put out (translation u ++ [0]))) ∧
    ∀ (m' : Mem) (value' out' : ℕ) (size' : ℤ) (s' : List UInt8), value' ≠ out' →
      m'.IsStr value' s' → size' ≤ (m' out').length →
      ((translation s).length : ℤ) < size → ((translation s').length : ℤ) < size' →
      ∀ r r', translateData m value out size = some r →
        translateData m' value' out' size' = some r' → cstr (r out) = cstr (r' out') → s = s' := by
  constructor
  · have hroom := room_fit_le (fun c => (escapeWord translateChar c).length) (size - 1).toNat s
    rw [← length_flatMap_code] at hroom
    refine ⟨_, fit_isPrefix _ _ _, ?_, translateData_fit hne hv h1 hsz⟩
    rw [translation]
    omega
  · intro m' value' out' size' s' hne' hv' hsz' hfit hfit' r r' hr hr' heq
    rw [translateData_eq hne hv hfit hsz, Option.some_inj] at hr
    rw [translateData_eq hne' hv' hfit' hsz', Option.some_inj] at hr'
    rw [← hr, ← hr', (Mem.isStr_put (zero_notMem_translation hv.1)).cstr,
      (Mem.isStr_put (zero_notMem_translation hv'.1)).cstr] at heq
    rw [← untranslate_translation s, heq, untranslate_translation]

/-- The value `\:`, whose translation finds no room. -/
theorem translateData_spec_colon : ∃ u, u <+: [92, 58] ∧ ((translation u).length : ℤ) + 1 ≤ 3 ∧
    translateData (fun b => [[92, 58, 0], [7, 7, 7]].getD b []) 0 1 3 =
      some (Mem.put (fun b => [[92, 58, 0], [7, 7, 7]].getD b []) 1 (translation u ++ [0])) :=
  (@translateData_spec (fun b => [[92, 58, 0], [7, 7, 7]].getD b []) 0 1 3 [92, 58] (by decide)
    ⟨by decide, [], rfl⟩ (by decide) (by decide)).1

end CppExperiment.STD
