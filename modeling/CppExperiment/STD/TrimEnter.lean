/-
  `STD::TrimEnter` and `STD::TrimSpaceAndLine` in CommonTools/STD.cc: the first
  line of a text, and what it is without the spaces around it.

  * `trimEnter_eq`: the text ends at its first line feed or carriage return.
  * `trimSpaceAndLine_iff`: when the spaces can be taken off, which `ltrim` does
    with a `strcpy` to the front of the same text.
-/
import CppExperiment.Lib.Decimal
import CppExperiment.STD.GetValue

namespace CppExperiment.STD

/-- `ptr = strchr(str, c); if (ptr) *ptr = 0;`, and where `ptr` points to -/
def endAt (m : Mem) (str : ℕ) (c : UInt8) : Option (Mem × Option ℕ) := do
  match ← m.strchr str c with
  | none => some (m, none)
  | some i => do
    let m ← m.store str i 0
    return (m, some i)

/-- `TrimEnter(str)`: what is left, and the pointer that it returns, the one of
    the second search. -/
def trimEnter (m : Mem) : (str : Option ℕ) → Option (Mem × Option ℕ)
  | none => some (m, none)
  | some str => do
    let (m, _) ← endAt m str 10
    endAt m str 13

/-- `TrimSpaceAndLine(str)` -/
def trimSpaceAndLine (m : Mem) (str : ℕ) : Option Mem := do
  let (m, _) ← trimEnter m (some str)
  alltrim m str

/-- The text before the first line feed or carriage return. -/
def firstLine (s : List UInt8) : List UInt8 := s.takeWhile fun c => c ≠ 10 ∧ c ≠ 13

variable {m : Mem} {str : ℕ} {s : List UInt8} {c : UInt8}

/-! ## The first line -/

/-- **The text ends at the first `c`.** -/
theorem endAt_eq (hv : m.IsStr str s) (c : UInt8) : ∃ m' ptr, endAt m str c = some (m', ptr) ∧
    m.SameBut str m' ∧ m'.IsStr str (s.takeWhile (· ≠ c)) := by
  rw [endAt, hv.strchr, Option.bind_eq_bind, Option.bind_some]
  by_cases hc : c ∈ s
  · obtain ⟨u, r, rfl, hu⟩ := List.eq_append_cons_of_mem hc
    have hfind : (u ++ c :: r).findIdx? (· = c) = some u.length := by
      have h : StdString.findFirstOf (u ++ c :: r) c 0 = some (0 + u.length) :=
        StdString.findFirstOf_mem hu List.drop_zero
      rw [StdString.findFirstOf, List.drop_zero, Nat.zero_add] at h
      simpa using h
    have hlt := hv.length_lt
    rw [List.length_append, List.length_cons] at hlt
    obtain ⟨m', hstore, hsame, hstr⟩ := Mem.isStr_store hv.at.of_append
      (fun h => hv.1 (List.mem_append_left _ h)) (by omega)
    rw [hfind, takeWhile_append_cons hu]
    dsimp only
    rw [hstore]
    exact ⟨m', some u.length, rfl, hsame, hstr⟩
  · rw [StdString.findIdx?_notMem hc, takeWhile_last hc]
    exact ⟨m, none, rfl, ⟨fun _ _ => rfl, rfl⟩, hv⟩

/-- **`TrimEnter` leaves the first line.** -/
theorem trimEnter_eq (hv : m.IsStr str s) : ∃ m' ptr, trimEnter m (some str) = some (m', ptr) ∧
    m.SameBut str m' ∧ m'.IsStr str (firstLine s) := by
  obtain ⟨m₁, ptr, hrun, hsame, hstr⟩ := endAt_eq hv 10
  obtain ⟨m₂, ptr', hrun', hsame', hstr'⟩ := endAt_eq hstr 13
  refine ⟨m₂, ptr', ?_, hsame.trans hsame', ?_⟩
  · rw [trimEnter, hrun, Option.bind_eq_bind, Option.bind_some]
    exact hrun'
  · rw [List.takeWhile_takeWhile] at hstr'
    have hline : firstLine s = s.takeWhile fun c => (c ≠ 13) ∧ (c ≠ 10) := by
      unfold firstLine
      congr 1
      ext c
      simp [and_comm]
    rw [hline]
    simpa using hstr'

theorem notMem_firstLine (s : List UInt8) : 10 ∉ firstLine s := by
  intro h
  have hc := List.mem_takeWhile_imp h
  simp at hc

/-! ## The spaces around it -/

/-- **`TrimSpaceAndLine` leaves the first line without the spaces around it**, if
    it has no spaces in front, or more of them than other characters.  With as
    many or fewer, `ltrim` copies a text over itself. -/
theorem trimSpaceAndLine_iff (hv : m.IsStr str s) :
    (Gives m str (trimSpaceAndLine m str) (trim 32 (firstLine s)) ↔
      leadingSpaces (firstLine s) = 0 ∨
        (firstLine s).length < 2 * leadingSpaces (firstLine s)) ∧
    (leadingSpaces (firstLine s) ≠ 0 →
      2 * leadingSpaces (firstLine s) ≤ (firstLine s).length → trimSpaceAndLine m str = none) := by
  obtain ⟨m', ptr, hrun, hsame, hstr⟩ := trimEnter_eq hv
  have htrim : trimSpaceAndLine m str = alltrim m' str := by
    rw [trimSpaceAndLine, hrun]
    rfl
  rw [htrim]
  refine ⟨?_, alltrim_overlap hstr⟩
  rw [← alltrim_iff hstr (notMem_firstLine s)]
  constructor
  · rintro ⟨m'', h, hsame', hstr'⟩
    exact ⟨m'', h, hsame.symm.trans hsame', hstr'⟩
  · rintro ⟨m'', h, hsame', hstr'⟩
    exact ⟨m'', h, hsame.trans hsame', hstr'⟩

/-- A line with three spaces in front of `a ` and another line behind it. -/
theorem trimSpaceAndLine_iff_crlf :
    Gives (fun b => [[32, 32, 32, 97, 32, 13, 10, 98, 0]].getD b []) 0
      (trimSpaceAndLine (fun b => [[32, 32, 32, 97, 32, 13, 10, 98, 0]].getD b []) 0) [97] :=
  (@trimSpaceAndLine_iff (fun b => [[32, 32, 32, 97, 32, 13, 10, 98, 0]].getD b []) 0
    [32, 32, 32, 97, 32, 13, 10, 98] ⟨by decide, [], rfl⟩).1.2 (.inr (by decide))

end CppExperiment.STD
