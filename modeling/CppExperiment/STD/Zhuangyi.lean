/-
  The escapes of CommonTools/STD.cc: `STD::to_zhuangyi_string` writes a value
  with escapes, `STD::Get_zhuanyi_string` reads it.

  * `zhuangyi` is the escape code of the two functions.
  * `toZhuangyiString_fit`: the longest start of the value is written whose
    escape fits; it is read back (`zhuangyi_cut`).
  * `getZhuanyiString_put`: any string is read, up to the size of the buffer,
    also in place: the loop writes at most as many characters as it has read
    (`zhuanyi_in_place`).
-/
import CppExperiment.Lib.Memory
import CppExperiment.Lib.Escape

namespace CppExperiment.STD

/-- The cases of the switch of `to_zhuangyi_string`: `\`, `=`, `&`, newline. -/
def zhuangyiChar (c : UInt8) : Option UInt8 :=
  if c = 92 then some 92
  else if c = 61 then some 97
  else if c = 38 then some 98
  else if c = 10 then some 110
  else none

/-- The characters that `Get_zhuanyi_string` knows behind a `\`. -/
def zhuanyiChar (c1 : UInt8) : Option UInt8 :=
  if c1 = 92 then some 92
  else if c1 = 97 then some 61
  else if c1 = 98 then some 38
  else if c1 = 110 then some 10
  else none

/-- The loop of `to_zhuangyi_string`, with the cases of its switch as a
    parameter: `size` is one less than the size of the buffer. -/
def escapeLoop (enc : UInt8 → Option UInt8) (size : ℤ) (value out : ℕ) :
    (fuel : ℕ) → Mem → (i len : ℕ) → Option Mem
  | 0, _, _, _ => none
  | fuel + 1, m, i, len => do
    let c ← m.load value i
    if c ≠ 0 ∧ (len : ℤ) < size then
      match enc c with
      | some l =>
        if (len : ℤ) + 1 < size then
          let m ← m.store out len 92
          let m ← m.store out (len + 1) l
          escapeLoop enc size value out fuel m (i + 1) (len + 2)
        else m.store out len 0
      | none =>
        let m ← m.store out len c
        escapeLoop enc size value out fuel m (i + 1) (len + 1)
    else m.store out len 0

/-- `to_zhuangyi_string(value, out, size)`. -/
def toZhuangyiString (m : Mem) (value out : ℕ) (size : ℤ) : Option Mem :=
  escapeLoop zhuangyiChar (size - 1) value out (m value).length m 0 0

/-- The loop of `Get_zhuanyi_string`, with `k` characters of the buffer left. -/
def getZhuanyiLoop (value out : ℕ) : (k : ℕ) → Mem → (i o : ℕ) → Option Mem
  | 0, m, _, o => m.store out o 0
  | k + 1, m, i, o => do
    let c ← m.load value i
    if c = 0 then m.store out o 0
    else if c = 92 then
      let c1 ← m.load value (i + 1)
      if c1 = 0 then
        let m ← m.store out o c
        getZhuanyiLoop value out k m (i + 1) (o + 1)
      else
        let m ← m.store out o ((zhuanyiChar c1).getD c)
        getZhuanyiLoop value out k m (i + 2) (o + 1)
    else
      let m ← m.store out o c
      getZhuanyiLoop value out k m (i + 1) (o + 1)

/-- `Get_zhuanyi_string(value, out, size)`; `GetPara` calls it in place. -/
def getZhuanyiString (m : Mem) (value out : ℕ) (size : ℤ) : Option Mem :=
  getZhuanyiLoop value out (size - 1).toNat m 0 0

/-! ## The escape code -/

/-- The escape code that the two functions share. -/
def zhuangyi : EscapeCode UInt8 where
  esc := 92
  enc := zhuangyiChar
  dec := zhuanyiChar
  enc_esc := by decide
  dec_enc c l h := by
    unfold zhuangyiChar at h
    split_ifs at h with h1 h2 h3 h4
    · subst h1; cases h; rfl
    · subst h2; cases h; rfl
    · subst h3; cases h; rfl
    · subst h4; cases h; rfl

variable {m : Mem} {value out i o k len : ℕ} {size : ℤ} {s p : List UInt8} {c l x : UInt8}

/-- The letters are none of the special characters. -/
theorem zhuangyiChar_letter (h : zhuangyiChar c = some l) : l = 92 ∨ l = 97 ∨ l = 98 ∨ l = 110 := by
  unfold zhuangyiChar at h
  split_ifs at h <;> cases h <;> simp

/-- An escaped value has only plain characters of the value, `\`, `a`, `b` and
    `n`. -/
theorem mem_zhuangyi (hx : x ∈ zhuangyi.escape s) :
    (x = 92 ∨ x = 97 ∨ x = 98 ∨ x = 110) ∨ (x ∈ s ∧ zhuangyiChar x = none) := by
  rcases EscapeCode.mem_escape hx with h | ⟨c, -, h⟩ | h
  · exact .inl (.inl h)
  · exact .inl (zhuangyiChar_letter h)
  · exact .inr h

/-- A character read from a pair is no terminator. -/
theorem zhuanyiChar_ne_zero : (zhuanyiChar c).getD 92 ≠ 0 := by
  unfold zhuanyiChar
  split_ifs <;> decide

theorem zero_notMem_unescape (h0 : 0 ∉ s) : 0 ∉ zhuangyi.unescape s := by
  induction s using EscapeCode.unescape.induct (E := zhuangyi) with
  | case1 => exact h0
  | case2 c => exact h0
  | case3 d s ih =>
    rw [EscapeCode.unescape_pair, List.mem_cons, not_or]
    simp only [List.mem_cons, not_or] at h0
    exact ⟨zhuanyiChar_ne_zero.symm, ih h0.2.2⟩
  | case4 c d s hc ih =>
    rw [EscapeCode.unescape_plain hc, List.mem_cons, not_or]
    rw [List.mem_cons, not_or] at h0
    exact ⟨h0.1, ih h0.2⟩

/-- A special character other than `\` does not stand in an escaped value. -/
theorem notMem_zhuangyi (hc : zhuangyiChar x ≠ none) (h92 : x ≠ 92) : x ∉ zhuangyi.escape s := by
  intro hx
  rcases mem_zhuangyi hx with (rfl | rfl | rfl | rfl) | ⟨-, h⟩
  · exact h92 rfl
  · exact hc (by decide)
  · exact hc (by decide)
  · exact hc (by decide)
  · exact hc h

theorem zero_notMem_escape (h0 : 0 ∉ s) : 0 ∉ zhuangyi.escape s := by
  intro h
  rcases mem_zhuangyi h with h | ⟨h, -⟩
  · exact absurd h (by decide)
  · exact h0 h

/-! ## Writing a value -/

/-- What the loop writes for a character. -/
def escapeWord (enc : UInt8 → Option UInt8) (c : UInt8) : List UInt8 :=
  match enc c with
  | some l => [92, l]
  | none => [c]

theorem escapeWord_special {enc : UInt8 → Option UInt8} (h : enc c = some l) :
    escapeWord enc c = [92, l] := by
  rw [escapeWord, h]

theorem escapeWord_plain {enc : UInt8 → Option UInt8} (h : enc c = none) :
    escapeWord enc c = [c] := by
  rw [escapeWord, h]

/-- The loop from a character on, `p` what is written before and `n` the
    characters left: it writes the longest start of the value that fits.  The
    induction is on the characters of the value left. -/
theorem escapeLoop_put {enc : UInt8 → Option UInt8} {fuel n : ℕ} (hne : value ≠ out)
    (hsz : size < (m out).length) (hs : m.At value i (s ++ [0])) (h0 : 0 ∉ s)
    (hlen : len = p.length) (hn : (len : ℤ) + n = size) (hfuel : s.length < fuel) :
    escapeLoop enc size value out fuel (m.put out p) i len =
      some (m.put out (p ++
        (fit (fun c => (escapeWord enc c).length) n s).flatMap (escapeWord enc) ++ [0])) := by
  induction s generalizing fuel i len p n with
  | nil =>
    obtain ⟨fuel, rfl⟩ := Nat.exists_eq_succ_of_ne_zero (Nat.ne_zero_of_lt hfuel)
    rw [escapeLoop, Mem.load_put_ne hne, hs.load, Option.bind_eq_bind, Option.bind_some,
      if_neg (by simp), Mem.store_put hlen (by omega), fit, List.flatMap_nil, List.append_nil]
  | cons c s ih =>
    obtain ⟨fuel, rfl⟩ := Nat.exists_eq_succ_of_ne_zero (Nat.ne_zero_of_lt hfuel)
    rw [List.mem_cons, not_or] at h0
    rw [List.length_cons] at hfuel
    rw [escapeLoop, Mem.load_put_ne hne, hs.load, Option.bind_eq_bind, Option.bind_some]
    cases hc : enc c with
    | none =>
      have hw : (escapeWord enc c).length = 1 := by rw [escapeWord_plain hc]; rfl
      by_cases hfull : n = 0
      · rw [if_neg (by omega), Mem.store_put hlen (by omega), fit_cons_of_lt (by omega),
          List.flatMap_nil, List.append_nil]
      · rw [if_pos ⟨Ne.symm h0.1, by omega⟩]
        change (Mem.store _ _ _ _ >>= _) = _
        rw [Mem.store_put hlen (by omega), Option.bind_eq_bind, Option.bind_some,
          ih hs.tail h0.2 (by simp [hlen]) (n := n - 1) (by push_cast; omega) (by omega),
          fit_cons_of_le (by omega), hw, List.flatMap_cons, escapeWord_plain hc,
          ← List.append_assoc]
    | some l =>
      have hw : (escapeWord enc c).length = 2 := by rw [escapeWord_special hc]; rfl
      by_cases hfull : n = 0
      · rw [if_neg (by omega), Mem.store_put hlen (by omega), fit_cons_of_lt (by omega),
          List.flatMap_nil, List.append_nil]
      · rw [if_pos ⟨Ne.symm h0.1, by omega⟩]
        change (if _ then _ else _) = _
        by_cases h2 : 2 ≤ n
        · rw [if_pos (by omega), Mem.store_put hlen (by omega), Option.bind_eq_bind,
            Option.bind_some, Mem.store_put (by simp [hlen]) (by omega), Option.bind_some,
            ih hs.tail h0.2 (by simp [hlen]) (n := n - 2) (by push_cast; omega) (by omega),
            fit_cons_of_le (by omega), hw, List.flatMap_cons, escapeWord_special hc]
          simp
        · rw [if_neg (by omega), Mem.store_put hlen (by omega), fit_cons_of_lt (by omega),
            List.flatMap_nil, List.append_nil]

theorem flatMap_escapeWord (s : List UInt8) :
    s.flatMap (escapeWord zhuangyiChar) = zhuangyi.escape s := by
  induction s with
  | nil => rfl
  | cons c s ih =>
    rw [List.flatMap_cons, ih]
    cases hc : zhuangyiChar c with
    | none => rw [escapeWord_plain hc, EscapeCode.escape_plain hc]; rfl
    | some l => rw [escapeWord_special hc, EscapeCode.escape_special hc]; rfl

theorem length_escapeWord (c : UInt8) : (escapeWord zhuangyiChar c).length = zhuangyi.width c := by
  cases hc : zhuangyiChar c with
  | none => rw [escapeWord_plain hc, EscapeCode.width_plain hc]; rfl
  | some l => rw [escapeWord_special hc, EscapeCode.width_special hc]; rfl

/-- **What is written**: the longest start of the value whose escape fits. -/
theorem toZhuangyiString_fit (hne : value ≠ out) (hv : m.IsStr value s) (h1 : 1 ≤ size)
    (hsz : size ≤ (m out).length) :
    toZhuangyiString m value out size =
      some (m.put out (zhuangyi.escape (fit zhuangyi.width (size - 1).toNat s) ++ [0])) := by
  have hsz' : size - 1 < (m out).length := by omega
  have h := @escapeLoop_put m value out 0 0 (size - 1) s [] zhuangyiChar (m value).length
    (size - 1).toNat hne hsz' hv.at_end hv.1 rfl (by omega) hv.length_lt
  rw [Mem.put_nil, List.nil_append, flatMap_escapeWord, funext length_escapeWord] at h
  exact h

/-- A value is written whole, if the buffer is larger than its escape. -/
theorem toZhuangyiString_eq (hne : value ≠ out) (hv : m.IsStr value s)
    (hr : ((zhuangyi.escape s).length : ℤ) < size) (hsz : size ≤ (m out).length) :
    toZhuangyiString m value out size = some (m.put out (zhuangyi.escape s ++ [0])) := by
  rw [EscapeCode.length_escape] at hr
  rw [toZhuangyiString_fit hne hv (by omega) hsz, fit_eq_self (by omega)]

/-! ## Reading a value -/

/-- The loop from a character on.  In place, what is written (`o` characters)
    never reaches what is still to be read (from `i` on). -/
theorem getZhuanyiLoop_put (hs : m.At value i (s ++ [0])) (h0 : 0 ∉ s) (ho : o = p.length)
    (hio : value = out → o ≤ i)
    (hk : o + ((zhuangyi.unescape s).take k).length < (m out).length) :
    getZhuanyiLoop value out k (m.put out p) i o =
      some (m.put out (p ++ (zhuangyi.unescape s).take k ++ [0])) := by
  induction k generalizing s i o p with
  | zero =>
    rw [getZhuanyiLoop, Mem.store_put ho (by omega), List.take_zero, List.append_nil]
  | succ k ih =>
    have hload (j : ℕ) (hj : i ≤ j) : (m.put out p).load value j = m.load value j :=
      Mem.load_put fun h => by have := hio h; omega
    cases s with
    | nil =>
      rw [getZhuanyiLoop, hload i le_rfl, hs.load, Option.bind_eq_bind, Option.bind_some,
        if_pos rfl, Mem.store_put ho (by omega)]
      simp [EscapeCode.unescape]
    | cons c s =>
      rw [List.mem_cons, not_or] at h0
      rw [getZhuanyiLoop, hload i le_rfl, hs.load, Option.bind_eq_bind, Option.bind_some,
        if_neg (Ne.symm h0.1)]
      by_cases hc : c = 92
      · subst hc
        cases s with
        | nil =>
          have hu : zhuangyi.unescape [92] = 92 :: zhuangyi.unescape [] := rfl
          rw [hu, List.take_succ_cons, List.length_cons] at hk
          rw [if_pos rfl, hload (i + 1) (by omega), hs.tail.load, Option.bind_eq_bind,
            Option.bind_some, if_pos rfl, Mem.store_put ho (by omega), Option.bind_some,
            ih hs.tail h0.2 (by simp [ho]) (by omega) (by omega), hu]
          simp
        | cons d s =>
          have hd : d ≠ 0 := fun h => h0.2 (h ▸ List.mem_cons_self)
          have hu : zhuangyi.unescape (92 :: d :: s) =
              (zhuanyiChar d).getD 92 :: zhuangyi.unescape s := EscapeCode.unescape_pair d
          rw [hu, List.take_succ_cons, List.length_cons] at hk
          rw [if_pos rfl, hload (i + 1) (by omega), hs.tail.load, Option.bind_eq_bind,
            Option.bind_some, if_neg hd, Mem.store_put ho (by omega), Option.bind_some,
            ih hs.tail.tail (fun h => h0.2 (List.mem_cons_of_mem _ h)) (by simp [ho]) (by omega)
              (by omega), hu]
          simp
      · have hu : zhuangyi.unescape (c :: s) = c :: zhuangyi.unescape s :=
          EscapeCode.unescape_plain hc
        rw [hu, List.take_succ_cons, List.length_cons] at hk
        rw [if_neg hc, Mem.store_put ho (by omega), Option.bind_eq_bind, Option.bind_some,
          ih hs.tail h0.2 (by simp [ho]) (by omega) (by omega), hu]
        simp

/-- **A string is read** as far as the buffer goes, into another buffer or in
    place. -/
theorem getZhuanyiString_put (hv : m.IsStr value s)
    (hroom : ((zhuangyi.unescape s).take (size - 1).toNat).length < (m out).length) :
    getZhuanyiString m value out size =
      some (m.put out ((zhuangyi.unescape s).take (size - 1).toNat ++ [0])) := by
  rw [← Nat.zero_add (List.length _)] at hroom
  have h := getZhuanyiLoop_put (p := []) hv.at_end hv.1 rfl (fun _ => le_rfl) hroom
  rwa [Mem.put_nil, List.nil_append] at h

theorem getZhuanyiString_eq (hv : m.IsStr value s) (h1 : 1 ≤ size)
    (hsz : size ≤ (m out).length) :
    getZhuanyiString m value out size =
      some (m.put out ((zhuangyi.unescape s).take (size - 1).toNat ++ [0])) := by
  have hlen := List.length_take_le (size - 1).toNat (zhuangyi.unescape s)
  exact getZhuanyiString_put hv (by omega)

/-- **A value is written up to a pair.**  Whatever the size of the buffer, what
    is written is the escape of a start of the value: no special character but
    `\` stands in it, and it is read back. -/
theorem zhuangyi_cut (hne : value ≠ out) (hv : m.IsStr value s) (h1 : 1 ≤ size)
    (hsz : size ≤ (m out).length) :
    ∃ u, u <+: s ∧ ((zhuangyi.escape u).length : ℤ) + 1 ≤ size ∧
      toZhuangyiString m value out size = some (m.put out (zhuangyi.escape u ++ [0])) ∧
      (∀ x ∈ zhuangyi.escape u, x ≠ 0 ∧ x ≠ 61 ∧ x ≠ 38 ∧ x ≠ 10) ∧
      (∀ (m' : Mem) (text buf : ℕ) (n : ℤ), m'.IsStr text (zhuangyi.escape u) →
        (u.length : ℤ) < n → n ≤ (m' buf).length →
        getZhuanyiString m' text buf n = some (m'.put buf (u ++ [0]))) ∧
      (((zhuangyi.escape s).length : ℤ) < size → u = s) := by
  have hstart : fit zhuangyi.width (size - 1).toNat s <+: s := fit_isPrefix _ _ _
  have hroom := room_fit_le zhuangyi.width (size - 1).toNat s
  rw [← EscapeCode.length_escape] at hroom
  refine ⟨_, hstart, by omega, toZhuangyiString_fit hne hv h1 hsz, ?_, ?_, ?_⟩
  · intro x hx
    have h0 := zero_notMem_escape fun h => hv.1 (hstart.subset h)
    refine ⟨?_, ?_, ?_, ?_⟩ <;> rintro rfl
    · exact h0 hx
    · exact notMem_zhuangyi (by decide) (by decide) hx
    · exact notMem_zhuangyi (by decide) (by decide) hx
    · exact notMem_zhuangyi (by decide) (by decide) hx
  · intro m' text buf n ht hn hbuf
    rw [getZhuanyiString_eq ht (by omega) hbuf, EscapeCode.unescape_escape,
      List.take_of_length_le (by omega)]
  · intro hr
    rw [EscapeCode.length_escape] at hr
    exact fit_eq_self (by omega)

/-- The newline of the value `a`, newline finds no room for its pair. -/
theorem zhuangyi_cut_newline : ∃ u, u <+: [97, 10] ∧
    toZhuangyiString (fun b => [[97, 10, 0], [7, 7, 7]].getD b []) 0 1 3 =
      some (Mem.put (fun b => [[97, 10, 0], [7, 7, 7]].getD b []) 1
        (zhuangyi.escape u ++ [0])) := by
  obtain ⟨u, hu, -, h, -⟩ := @zhuangyi_cut (fun b => [[97, 10, 0], [7, 7, 7]].getD b []) 0 1 3
    [97, 10] (by decide) ⟨by decide, [], by decide⟩ (by decide) (by decide)
  exact ⟨u, hu, h⟩

/-- **Reading in place.**  The string that is left in the buffer is the one that
    is left in any separate buffer, whatever the size: the loop never overwrites
    a character that is still to be read. -/
theorem zhuanyi_in_place (hv : m.IsStr value s) :
    ∃ t, 0 ∉ t ∧ getZhuanyiString m value value size = some (m.put value (t ++ [0])) ∧
      ∀ (m' : Mem) (value' out : ℕ), m'.IsStr value' s → value' ≠ out →
        t.length < (m' out).length →
        getZhuanyiString m' value' out size = some (m'.put out (t ++ [0])) := by
  have hlen := EscapeCode.length_unescape_le (E := zhuangyi) s
  have htake := List.length_take_le' (size - 1).toNat (zhuangyi.unescape s)
  have hlt := hv.length_lt
  refine ⟨(zhuangyi.unescape s).take (size - 1).toNat,
    fun h => zero_notMem_unescape hv.1 (List.mem_of_mem_take h), ?_, ?_⟩
  · exact getZhuanyiString_put hv (by omega)
  · intro m' value' out hv' _ hroom
    exact getZhuanyiString_put hv' hroom

/-- A pair at the end of the string, `=` and a lone escape character. -/
theorem zhuanyi_in_place_pair : ∃ t, 0 ∉ t ∧
    getZhuanyiString (fun _ => [92, 97, 92, 0]) 5 5 8 =
      some (Mem.put (fun _ => [92, 97, 92, 0]) 5 (t ++ [0])) := by
  obtain ⟨t, h0, h, -⟩ := @zhuanyi_in_place (fun _ => [92, 97, 92, 0]) 5 8 [92, 97, 92]
    ⟨by decide, [], by decide⟩
  exact ⟨t, h0, h⟩

end CppExperiment.STD
