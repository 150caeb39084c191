/-
  Texts that are written letter by letter.

  A code gives every letter the word that is written for it.  A reader that
  undoes one word in front of a written text undoes the whole text
  (`decode_flatMap`), so that no two texts are written in the same way.

  `FormCode` is the code of web forms: some bytes stand for themselves, a space
  is written as `+`, and any other byte as `%` with two hexadecimal digits.
-/
import CppExperiment.Lib.Fit

namespace CppExperiment

section
variable {α β : Type*} {code : α → List β} {decode : List β → List α} {s : List α} {x : β}

/-- **Reading what is written**, letter by letter. -/
theorem decode_flatMap (hnil : decode [] = [])
    (hcons : ∀ (c : α) (s : List α),
      decode (code c ++ s.flatMap code) = c :: decode (s.flatMap code))
    (s : List α) : decode (s.flatMap code) = s := by
  induction s with
  | nil => exact hnil
  | cons c s ih => rw [List.flatMap_cons, hcons, ih]

/-- The room of a written text. -/
theorem length_flatMap_code (s : List α) :
    (s.flatMap code).length = room (fun c => (code c).length) s := List.length_flatMap

theorem notMem_flatMap (h : ∀ c ∈ s, x ∉ code c) : x ∉ s.flatMap code := by
  rw [List.mem_flatMap]
  rintro ⟨c, hc, hx⟩
  exact h c hc hx

end

/-! ## Web forms -/

/-- The digit for a number below 16. -/
def hexDigit (n : UInt8) : UInt8 := if n < 10 then 48 + n else 55 + n

/-- The two digits of a byte, as `%02X` writes them. -/
def hexByte (c : UInt8) : List UInt8 := [hexDigit (c >>> 4), hexDigit (c &&& 0xF)]

def unhexDigit (d : UInt8) : Option UInt8 :=
  if 48 ≤ d ∧ d ≤ 57 then some (d - 48)
  else if 65 ≤ d ∧ d ≤ 70 then some (d - 55)
  else if 97 ≤ d ∧ d ≤ 102 then some (d - 87)
  else none

/-- The byte that `%XX` stands for. -/
def unhexByte (h l : UInt8) : Option UInt8 := do
  let h ← unhexDigit h
  let l ← unhexDigit l
  some ((h <<< 4) ||| l)

/-- A character that does not start a `%XX`. -/
def formChar (c : UInt8) : UInt8 := if c = 43 then 32 else c

/-- Form decoding: `+` is a space, `%XX` a byte, any other character itself. -/
def formDecode : List UInt8 → List UInt8
  | [] => []
  | [c] => [formChar c]
  | [c, d] => [formChar c, formChar d]
  | c :: h :: l :: s =>
    if c = 37 then
      match unhexByte h l with
      | some b => b :: formDecode s
      | none => c :: formDecode (h :: l :: s)
    else formChar c :: formDecode (h :: l :: s)

/-- The bytes that stand for themselves. -/
structure FormCode where
  plain : UInt8 → Bool
  percent : plain 37 = false
  plus : plain 43 = false

namespace FormCode
variable (F : FormCode)

/-- What is written for a byte. -/
def code (c : UInt8) : List UInt8 :=
  if F.plain c then [c] else if c = 32 then [43] else 37 :: hexByte c

variable {F} {c : UInt8} {s : List UInt8}

theorem code_plain (h : F.plain c) : F.code c = [c] := by rw [code, if_pos h]

theorem code_percent (h : ¬ F.plain c) (h32 : c ≠ 32) : F.code c = 37 :: hexByte c := by
  rw [code, if_neg h, if_neg h32]

theorem length_code_le (c : UInt8) : (F.code c).length ≤ 3 := by
  unfold code
  split_ifs <;> simp [hexByte]

theorem length_flatMap_le (s : List UInt8) : (s.flatMap F.code).length ≤ 3 * s.length := by
  induction s with
  | nil => exact le_rfl
  | cons c s ih =>
    have hc := length_code_le (F := F) c
    rw [List.flatMap_cons, List.length_append, List.length_cons]
    omega

theorem unhexByte_hexByte (c : UInt8) :
    unhexByte (hexDigit (c >>> 4)) (hexDigit (c &&& 0xF)) = some c := by
  obtain ⟨⟨c⟩⟩ := c
  revert c
  decide +kernel

theorem formDecode_cons (h : c ≠ 37) (s : List UInt8) :
    formDecode (c :: s) = formChar c :: formDecode s := by
  match s with
  | [] => rfl
  | [d] => rfl
  | d :: e :: s => rw [formDecode, if_neg h]

theorem formDecode_hexByte (c : UInt8) (s : List UInt8) :
    formDecode (37 :: hexByte c ++ s) = c :: formDecode s := by
  change formDecode (37 :: hexDigit (c >>> 4) :: hexDigit (c &&& 0xF) :: s) = _
  rw [formDecode, if_pos rfl, unhexByte_hexByte]

/-- **Form decoding undoes the code.** -/
theorem formDecode_flatMap (s : List UInt8) : formDecode (s.flatMap F.code) = s := by
  refine decode_flatMap rfl (fun c s => ?_) s
  rw [code]
  split_ifs with hplain h32
  · have h37 : c ≠ 37 := by
      rintro rfl
      exact absurd hplain (by simp [F.percent])
    have h43 : c ≠ 43 := by
      rintro rfl
      exact absurd hplain (by simp [F.plus])
    rw [List.singleton_append, formDecode_cons h37, formChar, if_neg h43]
  · rw [List.singleton_append, formDecode_cons (by decide), formChar, if_pos rfl, h32]
  · exact formDecode_hexByte c _

/-- No NUL is written. -/
theorem zero_notMem (h : F.plain 0 = false) : 0 ∉ s.flatMap F.code := by
  refine notMem_flatMap fun c _ => ?_
  unfold code
  split_ifs with hplain
  · rw [List.mem_singleton]
    rintro rfl
    exact absurd hplain (by simp [h])
  · decide
  · revert c
    rintro ⟨⟨c⟩⟩ - - -
    revert c
    decide +kernel

end FormCode

end CppExperiment
