/-
  What `STD::CheckTextType` (CommonTools/STD.cc) accepts, in terms of the bits
  of the bytes.

  A group is a byte without a leading one bit, or a byte with two to six of
  them, followed by as many bytes as it needs that have exactly one.
  `checkTextType_groups`: the texts of groups are the texts that are `FT_UTF8`;
  this is found out without a look behind their end.
-/
import CppExperiment.STD.TextType

namespace CppExperiment.STD

/-- The bits of a byte, the highest first. -/
def bits (c : UInt8) : List Bool := [7, 6, 5, 4, 3, 2, 1, 0].map c.toNat.testBit

/-- How many one bits a byte starts with. -/
def leadingOnes (c : UInt8) : ℕ := ((bits c).takeWhile id).length

/-- A byte 0xxx xxxx, or a byte with `k` leading one bits before `k - 1` bytes
    10xx xxxx. -/
def IsGroup : List UInt8 → Prop
  | [] => False
  | c :: t => (leadingOnes c = 0 ∧ t = []) ∨
      ((2 ≤ leadingOnes c ∧ leadingOnes c ≤ 6) ∧ t.length = leadingOnes c - 1 ∧
        ∀ x ∈ t, leadingOnes x = 1)

/-- A concatenation of groups. -/
def GroupText (s : List UInt8) : Prop :=
  ∃ ws : List (List UInt8), (∀ w ∈ ws, IsGroup w) ∧ ws.flatten = s

variable {m : Mem} {data : ℕ} {s t w : List UInt8}

/-! ## The masks -/

/-- The masks of the six cases count the leading one bits. -/
theorem leadSize_eq (c : UInt8) :
    leadSize c = if leadingOnes c = 0 then some 1
      else if 2 ≤ leadingOnes c ∧ leadingOnes c ≤ 6 then some (leadingOnes c) else none := by
  revert c
  rintro ⟨⟨x⟩⟩
  revert x
  decide +kernel

theorem continuation_iff (c : UInt8) : c &&& 0xc0 = 0x80 ↔ leadingOnes c = 1 := by
  revert c
  rintro ⟨⟨x⟩⟩
  revert x
  decide +kernel

theorem isChar_iff : IsChar w ↔ IsGroup w := by
  cases w with
  | nil => exact Iff.rfl
  | cons c t =>
    simp only [IsChar, IsGroup, leadSize_eq, continuation_iff]
    split_ifs with h0 h26
    · constructor
      · rintro ⟨hlen, -⟩
        exact .inl ⟨h0, List.eq_nil_of_length_eq_zero (by simpa using hlen.symm)⟩
      · rintro (⟨-, rfl⟩ | ⟨⟨h2, -⟩, -⟩)
        · exact ⟨rfl, List.forall_mem_nil _⟩
        · omega
    · rw [Option.some_inj]
      constructor
      · rintro ⟨hlen, hall⟩
        exact .inr ⟨h26, by omega, hall⟩
      · rintro (⟨h, -⟩ | ⟨-, hlen, hall⟩)
        · exact absurd h h0
        · exact ⟨by omega, hall⟩
    · constructor
      · rintro ⟨hlen, -⟩
        cases hlen
      · rintro (⟨h, -⟩ | ⟨h, -⟩)
        · exact absurd h h0
        · exact absurd h h26

theorem utf8Text_iff : Utf8Text s ↔ GroupText s := by
  constructor
  · intro h
    induction h with
    | nil => exact ⟨[], nofun, rfl⟩
    | cons hw _ ih =>
      obtain ⟨ws, hws, rfl⟩ := ih
      exact ⟨_ :: ws, List.forall_mem_cons.2 ⟨isChar_iff.1 hw, hws⟩, rfl⟩
  · rintro ⟨ws, hws, rfl⟩
    induction ws with
    | nil => exact .nil
    | cons w ws ih =>
      obtain ⟨hw, hws⟩ := List.forall_mem_cons.1 hws
      exact .cons (isChar_iff.2 hw) (ih hws)

/-! ## Texts of groups -/

theorem GroupText.append (hs : GroupText s) (ht : GroupText t) : GroupText (s ++ t) := by
  obtain ⟨us, hus, rfl⟩ := hs
  obtain ⟨vs, hvs, rfl⟩ := ht
  exact ⟨us ++ vs, List.forall_mem_append.2 ⟨hus, hvs⟩, List.flatten_append⟩

/-- **`CheckTextType` accepts the texts of groups**, and reads nothing else; two
    texts that are accepted are accepted one behind the other. -/
theorem checkTextType_groups (h : m.At data 0 s) :
    (∃ r, checkTextType m data s.length = some r ∧ (r = .FT_UTF8 ↔ GroupText s)) ∧
    ∀ (m' m'' : Mem) (data' data'' : ℕ) (t : List UInt8), m'.At data' 0 t →
      m''.At data'' 0 (s ++ t) → checkTextType m data s.length = some .FT_UTF8 →
      checkTextType m' data' t.length = some .FT_UTF8 →
      checkTextType m'' data'' (s ++ t).length = some .FT_UTF8 := by
  constructor
  · obtain ⟨r, hr, hiff⟩ := checkLoop_eq h (Nat.lt_succ_self _)
    exact ⟨r, hr, hiff.trans utf8Text_iff⟩
  · intro m' m'' data' data'' t h' h'' hs ht
    rw [checkTextType_iff h, utf8Text_iff] at hs
    rw [checkTextType_iff h', utf8Text_iff] at ht
    rw [checkTextType_iff h'', utf8Text_iff]
    exact hs.append ht

/-- A character of three bytes at the end of the block, without its last byte. -/
theorem checkTextType_groups_cut : ∃ r,
    checkTextType (fun b => [[97, 0xE4, 0xB8]].getD b []) 0 3 = some r ∧
      (r = .FT_UTF8 ↔ GroupText [97, 0xE4, 0xB8]) :=
  (@checkTextType_groups (fun b => [[97, 0xE4, 0xB8]].getD b []) 0 [97, 0xE4, 0xB8]
    List.prefix_rfl).1

end CppExperiment.STD
