/-
  `STD::TrimChar` and `STD::FormatInt` in CommonTools/STD.cc.

  Both go through a text with two pointers and leave a character out:
  `TrimChar` in place, `FormatInt` from the text of an amount to a buffer of
  100 bytes, which it does not check.

  * `trimCharLoop_put`: the loop, where it has room and where it has not.
  * `trimChar_iff`: `TrimChar` knows nothing of characters of two bytes; when
    it does what `DeleteCtrlCharFromGBK` does.
  * `formatInt_eq`: what `FormatInt` reads; the commas of the thousands do not
    matter.
-/
import CppExperiment.Lib.Decimal
import CppExperiment.Lib.Split
import CppExperiment.STD.Gbk

namespace CppExperiment.STD

/-- The loop of `TrimChar` and `FormatInt`, with at most `fuel` characters left:
    `src` is read at `i` and `dst` written at `j`, if these are not the same
    byte. -/
def trimCharLoop (src dst : ℕ) (c : UInt8) : (fuel : ℕ) → Mem → (i j : ℕ) → Option Mem
  | 0, _, _, _ => none
  | fuel + 1, m, i, j => do
    let p ← m.load src i
    if p = 0 then m.store dst j 0
    else if p = c then trimCharLoop src dst c fuel m (i + 1) j
    else if dst = src ∧ j = i then trimCharLoop src dst c fuel m (i + 1) (j + 1)
    else
      let m ← m.store dst j p
      trimCharLoop src dst c fuel m (i + 1) (j + 1)

/-- `TrimChar(str, c)` -/
def trimChar (m : Mem) (str : ℕ) (c : UInt8) : Option Mem :=
  trimCharLoop str str c (m str).length m 0 0

/-- `FormatInt(money)`, with `out` for its buffer. -/
def formatInt (m : Mem) (money out : ℕ) : Option ℤ := do
  let m ← trimCharLoop money out 44 (m money).length m 0 0
  m.atoi out 0

variable {m : Mem} {src dst str money out fuel i j : ℕ} {s p tail : List UInt8}
  {ws : List (List UInt8)} {c d : UInt8}

/-! ## The loop -/

/-- A character that is kept: it stands behind those that are kept before, or
    there is no room for it. -/
theorem trimCharLoop_keep (hload : m.load src i = some d) (hd0 : d ≠ 0) (hd : d ≠ c)
    (hj : j = p.length) (hle : src = dst → j ≤ i) (hp : p.length ≤ (m dst).length) :
    trimCharLoop src dst c (fuel + 1) (m.put dst p) i j =
      if j < (m dst).length then
        trimCharLoop src dst c fuel (m.put dst (p ++ [d])) (i + 1) (j + 1)
      else none := by
  have hread : (m.put dst p).load src i = some d := by
    rw [Mem.load_put fun h => hj ▸ hle h, hload]
  rw [trimCharLoop, hread, Option.bind_eq_bind, Option.bind_some, if_neg hd0, if_neg hd]
  by_cases hsame : dst = src ∧ j = i
  · obtain ⟨rfl, rfl⟩ := hsame
    have hlt : j < (m dst).length := (List.getElem?_eq_some_iff.1 hload).1
    rw [if_pos ⟨rfl, rfl⟩, if_pos hlt, Mem.put_append_load (hj ▸ hload)]
  · rw [if_neg hsame]
    by_cases hlt : j < (m dst).length
    · rw [if_pos hlt, Mem.store_put hj hlt]
      rfl
    · rw [if_neg hlt, Mem.store_put_none (not_lt.1 hlt) hp]
      rfl

/-- **The loop** from index `i` on, `p` what is kept of the characters before.
    The induction is on the characters left; in place, what is written never
    reaches what is still to be read. -/
theorem trimCharLoop_put (hat : m.At src i (s ++ [0])) (h0 : 0 ∉ s) (hj : j = p.length)
    (hle : src = dst → j ≤ i) (hp : p.length ≤ (m dst).length) (hfuel : s.length < fuel) :
    trimCharLoop src dst c fuel (m.put dst p) i j =
      if (p ++ s.filter (· ≠ c)).length < (m dst).length then
        some (m.put dst (p ++ s.filter (· ≠ c) ++ [0]))
      else none := by
  induction s generalizing fuel i j p with
  | nil =>
    obtain ⟨fuel, rfl⟩ := Nat.exists_eq_succ_of_ne_zero (Nat.ne_zero_of_lt hfuel)
    have hread : (m.put dst p).load src i = some 0 := by
      rw [Mem.load_put fun h => hj ▸ hle h, hat.load]
    rw [trimCharLoop, hread, Option.bind_eq_bind, Option.bind_some, if_pos rfl, List.filter_nil,
      List.append_nil]
    split
    · next hlt => exact Mem.store_put hj (hj ▸ hlt)
    · next hlt => exact Mem.store_put_none (hj ▸ not_lt.1 hlt) hp
  | cons d s ih =>
    obtain ⟨fuel, rfl⟩ := Nat.exists_eq_succ_of_ne_zero (Nat.ne_zero_of_lt hfuel)
    rw [List.length_cons] at hfuel
    obtain ⟨h0d, h0s⟩ := not_or.1 (mt List.mem_cons.2 h0)
    rw [List.cons_append] at hat
    by_cases hd : d = c
    · have hread : (m.put dst p).load src i = some d := by
        rw [Mem.load_put fun h => hj ▸ hle h, hat.load]
      rw [trimCharLoop, hread, Option.bind_eq_bind, Option.bind_some, if_neg (Ne.symm h0d),
        if_pos hd, ih hat.tail h0s hj (fun h => (hle h).trans (Nat.le_succ i)) hp (by omega),
        List.filter_cons_of_neg (by simp [hd])]
    · rw [trimCharLoop_keep hat.load (Ne.symm h0d) hd hj hle hp,
        List.filter_cons_of_pos (by simp [hd]), List.append_cons p d (s.filter _)]
      have hlen : (p ++ [d]).length = j + 1 := by rw [hj, List.length_append]; rfl
      split
      · next hlt =>
        have hnext : src = dst → j + 1 ≤ i + 1 := fun h => Nat.succ_le_succ (hle h)
        exact ih hat.tail h0s hlen.symm hnext (by omega) (Nat.lt_of_succ_lt_succ hfuel)
      · next hlt =>
        rw [if_neg]
        rw [List.length_append]
        omega

/-! ## `TrimChar` -/

theorem notMem_filter (h0 : 0 ∉ s) (c : UInt8) : 0 ∉ s.filter (· ≠ c) :=
  fun h => h0 (List.mem_filter.1 h).1

/-- `TrimChar` leaves all bytes but `c`. -/
theorem trimChar_eq (hv : m.IsStr str s) :
    trimChar m str c = some (m.put str (s.filter (· ≠ c) ++ [0])) := by
  have h := @trimCharLoop_put m str str (m str).length 0 0 s [] c hv.at_end hv.1 rfl
    (fun _ => le_rfl) (Nat.zero_le _) hv.length_lt
  have hroom : (s.filter (· ≠ c)).length < (m str).length :=
    (List.length_filter_le _ s).trans_lt hv.length_lt
  rwa [Mem.put_nil, List.nil_append, if_pos hroom] at h

/-- Bytes or characters: the same is left iff `c` stands in no other character. -/
theorem filter_flatten_iff :
    (ws.flatten ++ tail).filter (· ≠ c) = (ws.filter (· ≠ [c])).flatten ++ tail ↔
      (∀ w ∈ ws, w ≠ [c] → c ∉ w) ∧ c ∉ tail := by
  constructor
  · intro h
    have hc : c ∉ (ws.filter (· ≠ [c])).flatten ++ tail := by
      rw [← h]
      simp
    obtain ⟨hws, htail⟩ := not_or.1 (mt List.mem_append.2 hc)
    refine ⟨fun w hw hne hcw => hws ?_, htail⟩
    exact List.mem_flatten.2 ⟨w, List.mem_filter.2 ⟨hw, by simpa using hne⟩, hcw⟩
  · rintro ⟨hws, htail⟩
    rw [List.filter_append, filter_ne_self htail]
    congr 1
    induction ws with
    | nil => rfl
    | cons w ws ih =>
      obtain ⟨hw, hrest⟩ := List.forall_mem_cons.1 hws
      rw [List.flatten_cons, List.filter_append, ih hrest]
      by_cases hwc : w = [c]
      · rw [List.filter_cons_of_neg (by simp [hwc]), hwc]
        simp
      · rw [List.filter_cons_of_pos (by simp [hwc]), List.flatten_cons,
          filter_ne_self (hw hwc)]

/-- **When `TrimChar` does what `DeleteCtrlCharFromGBK` does**: if the byte `c`
    stands in no character of two bytes. -/
theorem trimChar_iff (hv : m.IsStr str s) (c : UInt8) :
    trimChar m str c = some (m.put str (s.filter (· ≠ c) ++ [0])) ∧
      ∃ ws tail, s = ws.flatten ++ tail ∧ Words gbkWidth ws ∧
        (tail = [] ∨ CutShort gbkWidth tail) ∧
        (trimChar m str c = deleteCtrlCharFromGBK m (some str) c ↔
          (∀ w ∈ ws, w ≠ [c] → c ∉ w) ∧ c ∉ tail) := by
  refine ⟨trimChar_eq hv, ?_⟩
  obtain ⟨ws, tail, rfl, hws, htail⟩ := exists_words gbkWidth_pos s
  have hat := hv.at_end
  rw [List.append_assoc] at hat
  have hgbk := @deleteCtrlCharLoop_put m str _ 0 0 [] tail ws c hws htail hat hv.1 rfl le_rfl
    (by rw [Nat.zero_add]; exact hv.length_lt) hv.length_lt
  rw [Mem.put_nil, List.nil_append] at hgbk
  refine ⟨ws, tail, rfl, hws, htail, ?_⟩
  rw [trimChar_eq hv, deleteCtrlCharFromGBK, hgbk, Option.some_inj, ← filter_flatten_iff]
  constructor
  · intro h
    have h0 : 0 ∉ (ws.filter (· ≠ [c])).flatten ++ tail := by
      intro hmem
      refine hv.1 (List.mem_append.2 ((List.mem_append.1 hmem).imp_left ?_))
      rintro hmem
      obtain ⟨w, hw, hcw⟩ := List.mem_flatten.1 hmem
      exact List.mem_flatten.2 ⟨w, (List.mem_filter.1 hw).1, hcw⟩
    -- the same block holds both strings
    have hleft := (@Mem.isStr_put m str _ (notMem_filter hv.1 c)).cstr
    have hright := (@Mem.isStr_put m str _ h0).cstr
    rw [← hleft, ← hright, h]
  · intro h
    rw [h]

/-- The second byte of a character is `|`. -/
theorem trimChar_iff_bar :
    trimChar (fun b => [[0xB0, 124, 0]].getD b []) 0 124 =
        some (Mem.put (fun b => [[0xB0, 124, 0]].getD b []) 0
          ([0xB0, 124].filter (· ≠ 124) ++ [0])) ∧
      ∃ ws tail, [0xB0, 124] = ws.flatten ++ tail ∧ Words gbkWidth ws ∧
        (tail = [] ∨ CutShort gbkWidth tail) ∧
        (trimChar (fun b => [[0xB0, 124, 0]].getD b []) 0 124 =
            deleteCtrlCharFromGBK (fun b => [[0xB0, 124, 0]].getD b []) (some 0) 124 ↔
          (∀ w ∈ ws, w ≠ [124] → 124 ∉ w) ∧ 124 ∉ tail) :=
  @trimChar_iff (fun b => [[0xB0, 124, 0]].getD b []) 0 [0xB0, 124] ⟨by decide, [], rfl⟩ 124

/-! ## `FormatInt` -/

/-- **What `FormatInt` reads**: `atoi` of the text without its commas, if fewer
    than 100 characters are left.  A number is read back, wherever the commas
    stand. -/
theorem formatInt_eq (hne : money ≠ out) (hv : m.IsStr money s) (hsz : (m out).length = 100) :
    (formatInt m money out =
      if (s.filter (· ≠ 44)).length < 100 then atoi (s.filter (· ≠ 44)) else none) ∧
    ∀ x : ℤ, -2 ^ 31 ≤ x → x < 2 ^ 31 → s.filter (· ≠ 44) = printInt 1 x →
      formatInt m money out = some x := by
  have hmain : formatInt m money out =
      if (s.filter (· ≠ 44)).length < 100 then atoi (s.filter (· ≠ 44)) else none := by
    have h := @trimCharLoop_put m money out (m money).length 0 0 s [] 44 hv.at_end hv.1 rfl
      (fun h => absurd h hne) (Nat.zero_le _) hv.length_lt
    rw [Mem.put_nil, List.nil_append, hsz] at h
    rw [formatInt, h]
    split
    · have hstr := @Mem.isStr_put m out _ (notMem_filter hv.1 44)
      rw [Option.bind_eq_bind, Option.bind_some, Mem.atoi, hstr.cstrAt]
      rfl
    · rfl
  refine ⟨hmain, fun x hlo hhi hx => ?_⟩
  have hlen : (printInt 1 x).length < 100 := by
    have hdigits (w n : ℕ) (hw : w ≤ 10) (hn : n < 10 ^ 10) : (printDecimal w n).length ≤ 10 :=
      length_printDecimal_le hw (by decide) hn
    unfold printInt
    split
    · have := hdigits (1 - 1) x.natAbs (by decide) (by omega)
      rw [List.length_cons]
      omega
    · have := hdigits 1 x.toNat (by decide) (by omega)
      omega
  rw [hmain, hx, if_pos hlen, atoi_printInt hlo hhi]

/-- The text `-1,234`. -/
theorem formatInt_eq_thousands :
    formatInt (fun b => [[45, 49, 44, 50, 51, 52, 0], List.replicate 100 7].getD b []) 0 1 =
      some (-1234) :=
  (@formatInt_eq (fun b => [[45, 49, 44, 50, 51, 52, 0], List.replicate 100 7].getD b []) 0 1
    [45, 49, 44, 50, 51, 52] (by decide) ⟨by decide, [], rfl⟩ List.length_replicate).2 (-1234)
    (by decide) (by decide) (by
      rw [printInt, if_pos (by decide), printDecimal]
      norm_num
      decide)

end CppExperiment.STD
