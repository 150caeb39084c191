/-
  `str::StartsWith` and `str::EndsWith` (CommonTools/StringFunc.cc).

  Both compare what a search returns with a number, as values of 64 bits.  For
  `EndsWith` this number is a difference of lengths: it is `npos` if the text
  that is looked for is one letter longer than the string.

  `affix_iff`: both functions are right, except at these lengths.
-/
import CppExperiment.StringFunc.Split

namespace CppExperiment.StringFunc
open StdString

/-- `std::string::npos` -/
def npos : UInt64 := 0xFFFFFFFFFFFFFFFF

/-- What a search returns as a `size_t`. -/
def sizeOfFound : Option ℕ → UInt64
  | none => npos
  | some pos => UInt64.ofNat pos

/-- `StartsWith(src, sub)` -/
def startsWith (src sub : Str) : Bool := sizeOfFound (findStr src sub) = 0

/-- `EndsWith(src, sub)` -/
def endsWith (src sub : Str) : Bool :=
  sizeOfFound (rfindStr src sub) = UInt64.ofNat src.length - UInt64.ofNat sub.length

variable {src sub : Str}

theorem toNat_size {n : ℕ} (h : n < 2 ^ 64) : (UInt64.ofNat n).toNat = n :=
  UInt64.toNat_ofNat_of_lt' h

theorem startsWith_iff (hsrc : src.length < 2 ^ 64) : startsWith src sub = true ↔ sub <+: src := by
  rw [startsWith, decide_eq_true_eq, ← findStr_eq_zero]
  cases h : findStr src sub with
  | none => exact iff_of_false (by decide) nofun
  | some pos =>
    have hpos := findStr_le h
    rw [sizeOfFound, Option.some_inj, ← UInt64.toNat_inj, toNat_size (by omega)]
    rfl

/-- The difference of the lengths is not `npos` where the text may be found. -/
theorem endsWith_iff (hsrc : src.length < 2 ^ 64) (hsub : sub.length < 2 ^ 64) :
    endsWith src sub = true ↔ sub <:+ src ∨ sub.length = src.length + 1 := by
  have hdiff : (UInt64.ofNat src.length - UInt64.ofNat sub.length).toNat =
      (2 ^ 64 - sub.length + src.length) % 2 ^ 64 := by
    rw [UInt64.toNat_sub, toNat_size hsrc, toNat_size hsub]
  rw [endsWith, decide_eq_true_eq, ← UInt64.toNat_inj, hdiff]
  by_cases hsuf : sub <:+ src
  · have hle := hsuf.length_le
    rw [rfindStr_suffix hsuf, sizeOfFound, toNat_size (by omega)]
    exact iff_of_true (by omega) (.inl hsuf)
  · have hpos : 0 < sub.length := by
      refine List.length_pos_iff.2 ?_
      rintro rfl
      exact hsuf List.nil_suffix
    rw [or_iff_right hsuf]
    cases h : rfindStr src sub with
    | none =>
      have hnpos : npos.toNat = 2 ^ 64 - 1 := rfl
      rw [sizeOfFound, hnpos]
      omega
    | some pos =>
      obtain ⟨hle, hp⟩ := rfindStrFrom_some h
      have hlen := hp.length_le
      rw [List.length_drop] at hlen
      rw [sizeOfFound, toNat_size (by omega)]
      refine iff_of_false ?_ (by omega)
      intro heq
      -- the occurrence reaches to the end
      have hend : sub = src.drop pos := hp.eq_of_length (by rw [List.length_drop]; omega)
      exact hsuf (hend ▸ List.drop_suffix pos src)

/-- **When `EndsWith` and `StartsWith` are right.** -/
theorem affix_iff (hsrc : src.length < 2 ^ 64) (hsub : sub.length < 2 ^ 64) :
    ((endsWith src sub = true ↔ sub <:+ src) ∧ (startsWith src sub = true ↔ sub <+: src)) ↔
      sub.length ≠ src.length + 1 := by
  rw [and_iff_left (startsWith_iff hsrc), endsWith_iff hsrc hsub]
  constructor
  · intro h heq
    have hle := (h.1 (.inr heq)).length_le
    omega
  · intro hne
    rw [or_iff_left hne]

/-- A text that overlaps itself. -/
theorem affix_iff_overlap :
    (endsWith [97, 97, 97] [97, 97] = true ↔ ([97, 97] : Str) <:+ [97, 97, 97]) ∧
      (startsWith [97, 97, 97] [97, 97] = true ↔ ([97, 97] : Str) <+: [97, 97, 97]) :=
  (@affix_iff [97, 97, 97] [97, 97] (by decide) (by decide)).2 (by decide)

/-- The empty string does not end with `a`. -/
theorem endsWith_empty : ¬ (endsWith [] [97] = true ↔ ([97] : Str) <:+ []) := by
  have hends : endsWith [] [97] = true := rfl
  intro h
  exact absurd (h.1 hends).length_le (by decide)

end CppExperiment.StringFunc
