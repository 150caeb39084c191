/-
  The overloads of `STD::GetPara` in CommonTools/STD.cc that return an `int`, and
  those whose separators are `|` and `=`.

  They read the text of the parameter into an array of 50 bytes.
  `getParaInt_eq`: the number of a listed name is returned, and 0 for any other
  name.
-/
import CppExperiment.Lib.Decimal
import CppExperiment.STD.Para

namespace CppExperiment.STD

/-- `GetPara(src, para, first, second)`; `data` is the block of its array of 50
    bytes. -/
def getParaInt (m : Mem) (src data para : ℕ) (first second : UInt8) : Option ℤ := do
  let m ← getPara m src data 50 para first second
  m.atoi data 0

/-- `GetPara(src, dst, size, para)` -/
def getParaDefault (m : Mem) (src dst : ℕ) (size : ℤ) (para : ℕ) : Option Mem :=
  getPara m src dst size para 124 61

/-- `GetPara(src, para)` -/
def getParaIntDefault (m : Mem) (src data para : ℕ) : Option ℤ := do
  let m ← getParaDefault m src data 50 para
  m.atoi data 0

variable {m : Mem} {src data para w : ℕ} {f : UInt8} {n : List UInt8} {x : ℤ}
  {ps : List (List UInt8 × List UInt8)}

theorem getParaIntDefault_eq :
    getParaIntDefault m src data para = getParaInt m src data para 124 61 := rfl

/-- A number has no character that needs an escape. -/
theorem escape_printInt (w : ℕ) (x : ℤ) : zhuangyi.escape (printInt w x) = printInt w x := by
  refine EscapeCode.escape_eq_self fun c hc => ?_
  have hplain : c ≠ 92 ∧ c ≠ 61 ∧ c ≠ 38 ∧ c ≠ 10 := by
    rcases mem_printInt hc with rfl | hdigit
    · decide
    · refine ⟨?_, ?_, ?_, ?_⟩ <;> rintro rfl <;> exact absurd hdigit (by decide)
  obtain ⟨h92, h61, h38, h10⟩ := hplain
  change zhuangyiChar c = none
  rw [zhuangyiChar, if_neg h92, if_neg h61, if_neg h38, if_neg h10]

/-- **The number of a parameter**, and 0 for a name that is not listed.  The
    fields are written as `to_zhuangyi_string` writes them; with `|` between them
    `GetPara(src, para)` reads them too. -/
theorem getParaInt_eq (hf : IsSeparator f) (hps : ∀ p ∈ ps, IsName f p.1 ∧ IsValue f p.2)
    (hnd : (ps.map Prod.fst).Nodup) (hsrc : m.IsStr src (join f 61 (escaped ps)))
    (hpara : m.IsStr para n) (hn : IsName f n) (hsd : src ≠ data) (hpd : para ≠ data)
    (hdata : (m data).length = 50) :
    (∀ w x, (n, printInt w x) ∈ ps → (printInt w x).length < 50 → -2 ^ 31 ≤ x → x < 2 ^ 31 →
      getParaInt m src data para f 61 = some x ∧
        (f = 124 → getParaIntDefault m src data para = some x)) ∧
    (n ∉ ps.map Prod.fst → getParaInt m src data para f 61 = some 0 ∧
      (f = 124 → getParaIntDefault m src data para = some 0)) := by
  -- the overload without separators reads the fields that `|` separates
  have hdefault {y : ℤ} (hy : getParaInt m src data para f 61 = some y) (hbar : f = 124) :
      getParaIntDefault m src data para = some y := by
    rw [getParaIntDefault_eq, ← hbar, hy]
  obtain ⟨m', hget, hstr, -⟩ := getPara_eq hsd hpd hsrc hpara hn.length hf.nul
    (by decide : (61 : UInt8) ≠ 0) (by decide : (1 : ℤ) ≤ 50) (by omega)
  rw [lookup_join (separate_escaped hf hps) hn.eq, lookup_escaped] at hstr
  have hread : getParaInt m src data para f 61 = atoi (zhuangyi.unescape
      ((((ps.lookup n).map zhuangyi.escape).getD []).take (50 - 1 : ℤ).toNat)) := by
    rw [getParaInt, hget, Option.bind_eq_bind, Option.bind_some, Mem.atoi, hstr.cstrAt]
    rfl
  constructor
  · intro w x hmem hlen hlo hhi
    have hcut : (printInt w x).take (50 - 1 : ℤ).toNat = printInt w x :=
      List.take_of_length_le (Nat.le_of_lt_succ hlen)
    have hback := EscapeCode.unescape_escape (E := zhuangyi) (printInt w x)
    rw [escape_printInt] at hback
    rw [lookup_of_mem hnd hmem, Option.map_some, Option.getD_some, escape_printInt, hcut, hback,
      atoi_printInt hlo hhi] at hread
    exact ⟨hread, hdefault hread⟩
  · intro hno
    rw [lookup_of_notMem hno] at hread
    exact ⟨hread, hdefault hread⟩

/-- The number `-7` of `b` behind a value of `a` with an escape. -/
theorem getParaInt_eq_second :
    getParaIntDefault (fun b => [[97, 61, 92, 97, 124, 98, 61, 45, 55, 0], [98, 0]].getD b
      (List.replicate 50 7)) 0 2 1 = some (-7) := by
  have hf : IsSeparator 124 := ⟨by decide, by decide, by decide⟩
  have hnumber : printInt 1 (-7) = [45, 55] := by
    rw [printInt, if_pos (by decide), printDecimal]
    norm_num
    decide
  have hps : ∀ p ∈ [([97], [61]), ([98], printInt 1 (-7))], IsName 124 p.1 ∧ IsValue 124 p.2 := by
    intro p hp
    rw [List.mem_cons, List.mem_singleton, hnumber] at hp
    rcases hp with rfl | rfl
    · exact ⟨⟨by decide, by decide, by decide, by decide⟩, ⟨by decide, by decide⟩⟩
    · exact ⟨⟨by decide, by decide, by decide, by decide⟩, ⟨by decide, by decide⟩⟩
  refine ((@getParaInt_eq (fun b => [[97, 61, 92, 97, 124, 98, 61, 45, 55, 0], [98, 0]].getD b
    (List.replicate 50 7)) 0 2 1 124 [98] _ hf hps (by decide) ⟨by decide, [], ?_⟩
    ⟨by decide, [], rfl⟩ ⟨by decide, by decide, by decide, by decide⟩ (by decide) (by decide)
    List.length_replicate).1 1 (-7) (by simp) (by rw [hnumber]; decide) (by decide)
      (by decide)).2 rfl
  rw [hnumber]
  decide

end CppExperiment.STD
