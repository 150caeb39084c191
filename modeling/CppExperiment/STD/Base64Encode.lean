/-
  The encoder `STD::Base64Encode_WithAdd` (CommonTools/STD.cc).

  * `encode_spec`: with room enough, it writes the text of RFC 4648.
  * `encode_cut`: with less room, it leaves a text that is cut off (`Cut`) and
    fits, if no sum overflows; `encode_overflow` is when one does.
-/
import CppExperiment.STD.Base64

namespace CppExperiment.STD

variable {m : Mem} {out str i j k : ℕ} {len : ℤ} {a b c t : UInt8} {s p : List UInt8}

theorem base2ChrWithAdd_eq (n : UInt8) :
    base2ChrWithAdd m n out i = (m.store out i (Base64.digit (n &&& 0x3F).toNat)).map (·, 1) := by
  have hn : (n &&& 0x3F).toNat < 64 := by rw [Base64.toNat_mask]; omega
  unfold base2ChrWithAdd
  generalize n &&& 0x3F = v at hn
  have hv : Base64.digit v.toNat = if v < 26 then v + 65 else if v < 52 then v - 26 + 97 else
      if v < 62 then v - 52 + 48 else if v = 62 then 43 else 47 :=
    Base64.of_lt_64 (P := fun v => Base64.digit v.toNat = if v < 26 then v + 65 else
      if v < 52 then v - 26 + 97 else if v < 62 then v - 52 + 48 else
        if v = 62 then 43 else 47) (by decide +kernel) hn
  have hm (c : UInt8) : (do return (← m.store out i c, 1) : Option (Mem × ℕ)) =
      (m.store out i c).map (·, 1) := by
    cases m.store out i c <;> rfl
  simp only [hm]
  rw [hv]
  split_ifs <;> rfl

/-- The next character of the text is the digit `v`. -/
theorem base2ChrWithAdd_put {n : UInt8} {v : ℕ} (hn : (n &&& 0x3F).toNat = v)
    (hi : i = p.length) (h : i < (m out).length) :
    base2ChrWithAdd (m.put out p) n out i =
      some (m.put out (p ++ [Base64.digit v]), 1) := by
  rw [base2ChrWithAdd_eq, Mem.store_put hi h, hn]
  rfl

/-- What the encoder needs of its two buffers, `len` one less than the size of
    `out`. -/
structure EncodeBufs (m : Mem) (out str : ℕ) (len : ℤ) : Prop where
  ne : str ≠ out
  lt : len < (m out).length
  int : len + 1 < 2 ^ 31

/-- One byte, in the first phase. -/
theorem encodeLoop_first (hb : EncodeBufs m out str len) (hi : i % 3 = 0)
    (hs : m.At str i (a :: s)) (hj : j = p.length) (hr : (j : ℤ) + 4 < len) :
    encodeLoop len out str (k + 1) i (m.put out p) j t =
      encodeLoop len out str k (i + 1) (m.put out (p ++ [Base64.digit (a.toNat / 4)]))
        (j + 1) ((a <<< 4) &&& 0x3F) := by
  have hlt := hb.lt
  have hint := hb.int
  rw [encodeLoop, (hs.put_ne hb.ne).load, Option.bind_eq_bind, Option.bind_some, if_pos hi,
    addInt_eq (by omega), Option.bind_eq_bind, Option.bind_some, if_neg (by omega),
    base2ChrWithAdd_put (Base64.high_toNat a) hj (by omega)]
  rfl

/-- One byte, in the second phase: `t` has the bits left over of `a`. -/
theorem encodeLoop_second (hb : EncodeBufs m out str len) (hi : i % 3 = 1)
    (hs : m.At str i (b :: s)) (hj : j = p.length) (hr : (j : ℤ) + 4 < len) :
    encodeLoop len out str (k + 1) i (m.put out p) j ((a <<< 4) &&& 0x3F) =
      encodeLoop len out str k (i + 1)
        (m.put out (p ++ [Base64.digit (a.toNat % 4 * 16 + b.toNat / 16)]))
        (j + 1) ((b <<< 2) &&& 0x3F) := by
  have hlt := hb.lt
  have hint := hb.int
  rw [encodeLoop, (hs.put_ne hb.ne).load, Option.bind_eq_bind, Option.bind_some,
    if_neg (by omega), if_pos hi, addInt_eq (by omega), Option.bind_eq_bind, Option.bind_some,
    if_neg (by omega), base2ChrWithAdd_put (Base64.second_toNat a b) hj (by omega)]
  rfl

/-- One byte, in the third phase: `t` has the bits left over of `b`. -/
theorem encodeLoop_third (hb : EncodeBufs m out str len) (hi : i % 3 = 2)
    (hs : m.At str i (c :: s)) (hj : j = p.length) (hr : (j : ℤ) + 6 < len) :
    encodeLoop len out str (k + 1) i (m.put out p) j ((b <<< 2) &&& 0x3F) =
      encodeLoop len out str k (i + 1)
        (m.put out (p ++ [Base64.digit (b.toNat % 16 * 4 + c.toNat / 64)] ++
          [Base64.digit (c.toNat % 64)])) (j + 2) ((b <<< 2) &&& 0x3F) := by
  have hlt := hb.lt
  have hint := hb.int
  rw [encodeLoop, (hs.put_ne hb.ne).load, Option.bind_eq_bind, Option.bind_some,
    if_neg (by omega), if_neg (by omega), addInt_eq (by omega), Option.bind_eq_bind,
    Option.bind_some, if_neg (by omega), base2ChrWithAdd_put (Base64.third_toNat b c) hj (by omega)]
  change (base2ChrWithAdd _ _ _ _ >>= _) = _
  rw [base2ChrWithAdd_put (Base64.last_toNat c) (by simp [hj]) (by omega)]
  rfl

/-- A last digit, and one or two padding characters. -/
theorem encodeTail_pad {n v : ℕ} (hb : EncodeBufs m out str len) (hn : n % 3 ≠ 0)
    (hv : (t &&& 0x3F).toNat = v) (hj : j = p.length) (hr : (j : ℤ) + 5 < len) :
    encodeTail len out n (m.put out p) j t =
      some (m.put out (p ++ [Base64.digit v] ++
        List.replicate (3 - n % 3) Base64.pad ++ [0])) := by
  have hlt := hb.lt
  have hint := hb.int
  rw [encodeTail, if_pos hn, addInt_eq (by omega)]
  change (if decide _ = true then _ else _) = _
  rw [if_pos (decide_eq_true hr), base2ChrWithAdd_put hv hj (by omega)]
  change (Mem.store _ _ _ _ >>= _) = _
  rw [Mem.store_put (by simp [hj]) (by omega)]
  change (if _ then _ else _) = _
  split_ifs with h1
  · rw [Mem.store_put (by simp [hj]) (by omega)]
    change Mem.store _ _ _ _ = _
    rw [Mem.store_put (by simp [hj]) (by omega), h1]
    simp
  · rw [Mem.store_put (by simp [hj]) (by omega), show n % 3 = 2 by omega]
    simp

/-- The terminator alone: there is no digit left, or no room for it. -/
theorem encodeTail_end {n : ℕ} (h : n % 3 = 0 ∨ (j : ℤ) + 5 < 2 ^ 31 ∧ len ≤ (j : ℤ) + 5)
    (hj : j = p.length) (hr : j < (m out).length) :
    encodeTail len out n (m.put out p) j t = some (m.put out (p ++ [0])) := by
  rw [encodeTail]
  rcases h with hn | ⟨hint, hl⟩
  · rw [if_neg (not_not.2 hn)]
    exact Mem.store_put hj hr
  · by_cases hn : n % 3 = 0
    · rw [if_neg (not_not.2 hn)]
      exact Mem.store_put hj hr
    · rw [if_pos hn, addInt_eq hint]
      change (if decide _ = true then _ else _) = _
      rw [if_neg (by rw [decide_eq_true_eq]; omega)]
      exact Mem.store_put hj hr

/-- **The encoder from a group on.**  The induction is on the groups of three
    bytes; `p` is the text of the groups before. -/
theorem encode_from (hb : EncodeBufs m out str len) (hi : i % 3 = 0) (hs : m.At str i s)
    (hj : j = p.length) (hr : (j : ℤ) + (Base64.encode s).length + 5 ≤ len) :
    (encodeLoop len out str s.length i (m.put out p) j t >>= fun x =>
      encodeTail len out (i + s.length) x.1 x.2.1 x.2.2) =
        some (m.put out (p ++ Base64.encode s ++ [0])) := by
  have hlt := hb.lt
  induction s using Base64.group_induction generalizing i j p t with
  | nil =>
    simp only [Base64.encode_nil, List.length_nil] at hr
    have hlen : j < (m out).length := by omega
    rw [Base64.encode_nil, List.append_nil]
    exact encodeTail_end (.inl hi) hj hlen
  | one a =>
    simp only [Base64.encode_one, List.length_cons, List.length_nil] at hr
    rw [List.length_singleton, encodeLoop_first hb hi hs hj (by omega)]
    change encodeTail _ _ _ _ (j + 1) _ = _
    rw [encodeTail_pad hb (by omega) (Base64.second_toNat_pad a) (by simp [hj]) (by omega),
      show (i + 1) % 3 = 1 by omega, Base64.encode_one]
    simp
  | two a b =>
    simp only [Base64.encode_two, List.length_cons, List.length_nil] at hr
    rw [List.length_cons, List.length_singleton, encodeLoop_first hb hi hs hj (by omega),
      encodeLoop_second hb (by omega) hs.tail (by simp [hj]) (by omega)]
    change encodeTail _ _ _ _ (j + 1 + 1) _ = _
    rw [encodeTail_pad hb (by omega) (Base64.third_toNat_pad b) (by simp [hj]) (by omega),
      show (i + (1 + 1)) % 3 = 2 by omega, Base64.encode_two]
    simp
  | more a b c s ih =>
    simp only [Base64.encode_three, List.length_cons] at hr
    push_cast at hr
    simp only [List.length_cons]
    rw [encodeLoop_first hb hi hs hj (by omega),
      encodeLoop_second hb (by omega) hs.tail (by simp [hj]) (by omega),
      encodeLoop_third hb (by omega) hs.tail.tail (by simp [hj]) (by omega),
      show i + (s.length + 1 + 1 + 1) = i + 1 + 1 + 1 + s.length by omega,
      ih (by omega) hs.tail.tail.tail (by simp [hj]) (by push_cast; omega), Base64.encode_three]
    simp

/-- **The encoder writes the Base64 text**, if the buffer has room for six more
    bytes than the text needs. -/
theorem encode_spec (hne : str ≠ out) (hs : m.At str 0 s) (hb : len ≤ (m out).length)
    (hint : len < 2 ^ 31) (hr : ((Base64.encode s).length : ℤ) + 6 ≤ len) :
    base64EncodeWithAdd m out len str s.length = some (m.put out (Base64.encode s ++ [0])) := by
  have hbufs : EncodeBufs m out str (len - 1) := ⟨hne, by omega, by omega⟩
  have h := encode_from (p := []) (t := 0) (j := 0) hbufs (Nat.zero_mod 3) hs rfl
    (by push_cast; omega)
  rw [Mem.put_nil, Nat.zero_add, List.nil_append] at h
  exact h

/-! ## Cut texts -/

/-- The text `u` that the encoder leaves of the bytes `s` when its room ends, or
    the bytes do. -/
inductive Cut : List UInt8 → List UInt8 → Prop
  | stop (s : List UInt8) : Cut s []
  | one (a : UInt8) (s : List UInt8) : Cut (a :: s) [Base64.digit (a.toNat / 4)]
  | two (a b : UInt8) (s : List UInt8) : Cut (a :: b :: s)
      [Base64.digit (a.toNat / 4), Base64.digit (a.toNat % 4 * 16 + b.toNat / 16)]
  | padOne (a : UInt8) : Cut [a] (Base64.encode [a])
  | padTwo (a b : UInt8) (s : List UInt8) : Cut (a :: b :: s) (Base64.encode [a, b])
  /-- the loop has stopped after two bytes of a group, while the number of all
      bytes asks for two padding characters -/
  | padBoth (a b : UInt8) (s : List UInt8) : Cut (a :: b :: s)
      [Base64.digit (a.toNat / 4), Base64.digit (a.toNat % 4 * 16 + b.toNat / 16),
        Base64.digit (b.toNat % 16 * 4), Base64.pad, Base64.pad]
  | group (a b c : UInt8) {s u : List UInt8} : Cut s u → Cut (a :: b :: c :: s)
      (Base64.digit (a.toNat / 4) :: Base64.digit (a.toNat % 4 * 16 + b.toNat / 16) ::
        Base64.digit (b.toNat % 16 * 4 + c.toNat / 64) :: Base64.digit (c.toNat % 64) :: u)

/-- The loop stops when there is no room left. -/
theorem encodeLoop_stop (hne : str ≠ out) (hs : m.At str i (a :: s))
    (hint : (j : ℤ) + (if i % 3 = 2 then 6 else 4) < 2 ^ 31)
    (h : len ≤ (j : ℤ) + if i % 3 = 2 then 6 else 4) :
    encodeLoop len out str (k + 1) i (m.put out p) j t = some (m.put out p, j, t) := by
  rw [encodeLoop, (hs.put_ne hne).load, Option.bind_eq_bind, Option.bind_some]
  split_ifs at hint h with h2
  · rw [if_neg (by omega), if_neg (by omega), addInt_eq hint]
    exact if_pos h
  · split_ifs
    · rw [addInt_eq hint]
      exact if_pos h
    · rw [addInt_eq hint]
      exact if_pos h
    · omega

/-- The room in front of a group: the group before has left it, or there is
    none before. -/
structure GroupStart (len : ℤ) (i j : ℕ) : Prop where
  phase : i % 3 = 0
  digits : 3 * j = 4 * i
  room : j = 0 ∨ (j : ℤ) + 4 < len

/-- From the group at `j` on, the encoder leaves a text of `s` behind `p`. -/
def Leaves (m : Mem) (out str : ℕ) (len : ℤ) (p : List UInt8) (t : UInt8) (i j : ℕ)
    (s : List UInt8) : Prop :=
  ∃ u, Cut s u ∧ (j : ℤ) + u.length ≤ len ∧
    (encodeLoop len out str s.length i (m.put out p) j t >>= fun x =>
      encodeTail len out (i + s.length) x.1 x.2.1 x.2.2) = some (m.put out (p ++ u ++ [0]))

/-- Without room for a digit the text ends before the group. -/
theorem leaves_stop (hb : EncodeBufs m out str len) (h0 : 0 ≤ len) (hs : m.At str i (a :: s))
    (hj : j = p.length) (hg : GroupStart len i j) (hr : len ≤ (j : ℤ) + 4) :
    Leaves m out str len p t i j (a :: s) := by
  have hlt := hb.lt
  obtain ⟨hi, -, hroom⟩ := hg
  have hlen : j < (m out).length := by omega
  have hw : (if i % 3 = 2 then 6 else 4 : ℤ) = 4 := if_neg (by omega)
  have hint5 : (j : ℤ) + 5 < 2 ^ 31 := by omega
  refine ⟨[], .stop _, by simp only [List.length_nil]; omega, ?_⟩
  rw [List.length_cons, encodeLoop_stop hb.ne hs (by rw [hw]; omega) (by rw [hw]; omega),
    List.append_nil]
  exact encodeTail_end (.inr ⟨hint5, hr.trans (by simp)⟩) hj hlen

/-- Without room for a second digit it ends after the first. -/
theorem leaves_one (hb : EncodeBufs m out str len) (hs : m.At str i (a :: b :: s))
    (hj : j = p.length) (hg : GroupStart len i j) (hr : (j : ℤ) + 4 < len)
    (hr' : len ≤ (j : ℤ) + 5) : Leaves m out str len p t i j (a :: b :: s) := by
  have hlt := hb.lt
  have hint := hb.int
  obtain ⟨hi, -, -⟩ := hg
  have hlen : j + 1 < (m out).length := by omega
  have hw : (if (i + 1) % 3 = 2 then 6 else 4 : ℤ) = 4 := if_neg (by omega)
  refine ⟨_, .one a (b :: s), by simp only [List.length_singleton]; omega, ?_⟩
  rw [List.length_cons, encodeLoop_first hb hi hs hj hr, List.length_cons,
    encodeLoop_stop hb.ne hs.tail (by rw [hw]; push_cast; omega) (by rw [hw]; push_cast; omega)]
  exact encodeTail_end (.inr ⟨by push_cast; omega, by push_cast; omega⟩) (by simp [hj]) hlen

/-- After two bytes of a group, which are the last ones or leave no room for
    the third: the padding is that of the number of all bytes. -/
theorem encodeTail_two {n : ℕ} (hb : EncodeBufs m out str len) (hr : (j : ℤ) + 5 < len)
    (hj : j = p.length) (hint : (j : ℤ) + 7 < 2 ^ 31) : ∃ u, Cut (a :: b :: s) u ∧
      (j : ℤ) + u.length ≤ len ∧
      encodeTail len out n (m.put out (p ++ [Base64.digit (a.toNat / 4)] ++
        [Base64.digit (a.toNat % 4 * 16 + b.toNat / 16)])) (j + 2) ((b <<< 2) &&& 0x3F) =
          some (m.put out (p ++ u ++ [0])) := by
  have hlt := hb.lt
  have hj2 : j + 2 = (p ++ [Base64.digit (a.toNat / 4)] ++
    [Base64.digit (a.toNat % 4 * 16 + b.toNat / 16)]).length := by simp [hj]
  have hlen : j + 2 < (m out).length := by omega
  by_cases hpad : n % 3 ≠ 0 ∧ (j : ℤ) + 7 < len
  · obtain ⟨hn, hr7⟩ := hpad
    have htail := encodeTail_pad hb hn (Base64.third_toNat_pad b) hj2 (by push_cast; omega)
    by_cases h1 : n % 3 = 1
    · refine ⟨_, .padBoth a b s, by simp only [List.length_cons, List.length_nil]; omega, ?_⟩
      rw [htail, h1]
      simp
    · have h2 : n % 3 = 2 := by omega
      refine ⟨_, .padTwo a b s, by rw [Base64.length_encode]; simp; omega, ?_⟩
      rw [htail, h2, Base64.encode_two]
      simp
  · refine ⟨_, .two a b s, by simp only [List.length_cons, List.length_nil]; omega, ?_⟩
    rw [encodeTail_end (by push_cast; omega) hj2 hlen]
    simp

/-- The last byte of all, which is the first of its group. -/
theorem leaves_last (hb : EncodeBufs m out str len) (hs : m.At str i [a]) (hj : j = p.length)
    (hg : GroupStart len i j) (hr : (j : ℤ) + 4 < len) : Leaves m out str len p t i j [a] := by
  have hlt := hb.lt
  have hint := hb.int
  have hi := hg.phase
  have hlen : j + 1 < (m out).length := by omega
  have hj1 : j + 1 = (p ++ [Base64.digit (a.toNat / 4)]).length := by simp [hj]
  have hfirst := encodeLoop_first (k := 0) (t := t) hb hi hs hj hr
  by_cases h6 : (j : ℤ) + 6 < len
  · refine ⟨_, .padOne a, by rw [Base64.length_encode]; simp; omega, ?_⟩
    rw [List.length_singleton, hfirst]
    change encodeTail _ _ _ _ (j + 1) _ = _
    rw [encodeTail_pad hb (by omega) (Base64.second_toNat_pad a) hj1 (by push_cast; omega),
      show (i + 1) % 3 = 1 by omega, Base64.encode_one]
    simp
  · refine ⟨_, .one a [], by simp; omega, ?_⟩
    rw [List.length_singleton, hfirst]
    exact encodeTail_end (.inr ⟨by push_cast; omega, by push_cast; omega⟩) hj1 hlen

/-- Two bytes of a group, if they are the last ones or there is no room for the
    third. -/
theorem leaves_two (hb : EncodeBufs m out str len) (hs : m.At str i (a :: b :: s))
    (hj : j = p.length) (hg : GroupStart len i j) (hr : (j : ℤ) + 5 < len)
    (hstop : s = [] ∨ len ≤ (j : ℤ) + 8 ∧ (j : ℤ) + 8 < 2 ^ 31) :
    Leaves m out str len p t i j (a :: b :: s) := by
  have hint := hb.int
  have hi := hg.phase
  have hj1 : j + 1 = (p ++ [Base64.digit (a.toNat / 4)]).length := by simp [hj]
  obtain ⟨u, hcut, hle, htail⟩ := encodeTail_two (s := s) (n := i + (s.length + 1 + 1)) hb hr hj
    (by omega)
  refine ⟨u, hcut, hle, ?_⟩
  simp only [List.length_cons]
  rw [encodeLoop_first hb hi hs hj (by omega),
    encodeLoop_second hb (by omega) hs.tail hj1 (by push_cast; omega)]
  rcases hstop with rfl | ⟨hstop, hint8⟩
  · exact htail
  · cases s with
    | nil => exact htail
    | cons c s =>
      have hw : (if (i + 1 + 1) % 3 = 2 then 6 else 4 : ℤ) = 6 := if_pos (by omega)
      rw [List.length_cons, encodeLoop_stop hb.ne hs.tail.tail (by rw [hw]; push_cast; omega)
        (by rw [hw]; push_cast; omega)]
      exact htail

/-- A whole group, in front of what follows. -/
theorem leaves_group (hb : EncodeBufs m out str len) (hs : m.At str i (a :: b :: c :: s))
    (hj : j = p.length) (hg : GroupStart len i j) (hr : (j : ℤ) + 8 < len)
    (ih : ∀ p, j + 4 = p.length → Leaves m out str len p ((b <<< 2) &&& 0x3F) (i + 3) (j + 4) s) :
    Leaves m out str len p t i j (a :: b :: c :: s) := by
  have hi := hg.phase
  obtain ⟨u, hcut, hle, hrun⟩ := ih (p ++ [Base64.digit (a.toNat / 4)] ++
    [Base64.digit (a.toNat % 4 * 16 + b.toNat / 16)] ++
    [Base64.digit (b.toNat % 16 * 4 + c.toNat / 64)] ++ [Base64.digit (c.toNat % 64)])
    (by simp [hj])
  refine ⟨_, .group a b c hcut, by simp only [List.length_cons]; push_cast at hle ⊢; omega, ?_⟩
  simp only [List.length_cons]
  rw [encodeLoop_first hb hi hs hj (by omega),
    encodeLoop_second hb (by omega) hs.tail (by simp [hj]) (by push_cast; omega),
    encodeLoop_third hb (by omega) hs.tail.tail (by simp [hj]) (by push_cast; omega),
    show i + (s.length + 1 + 1 + 1) = i + 3 + s.length by omega]
  refine hrun.trans ?_
  simp

/-- **The encoder from a group on**, with any room. -/
theorem encode_cut_from (hb : EncodeBufs m out str len) (h0 : 0 ≤ len) (hs : m.At str i s)
    (hj : j = p.length) (hg : GroupStart len i j)
    (hover : ¬ (len + 1 = 2 ^ 31 - 1 ∧ 1610612733 ≤ i + s.length)) :
    Leaves m out str len p t i j s := by
  have hlt := hb.lt
  have hint := hb.int
  obtain ⟨hi, hd, hroom⟩ := id hg
  induction s using Base64.group_induction generalizing i j p t with
  | nil =>
    refine ⟨[], .stop _, by simp; omega, ?_⟩
    rw [List.append_nil]
    have hlen : j < (m out).length := by omega
    exact encodeTail_end (.inl hi) hj hlen
  | one a =>
    by_cases h1 : (j : ℤ) + 4 < len
    · exact leaves_last hb hs hj hg h1
    · exact leaves_stop hb h0 hs hj hg (by omega)
  | two a b =>
    by_cases h1 : (j : ℤ) + 4 < len
    · by_cases h2 : (j : ℤ) + 5 < len
      · exact leaves_two hb hs hj hg h2 (.inl rfl)
      · exact leaves_one hb hs hj hg h1 (by omega)
    · exact leaves_stop hb h0 hs hj hg (by omega)
  | more a b c s ih =>
    simp only [List.length_cons] at hover
    by_cases h1 : (j : ℤ) + 4 < len
    · by_cases h2 : (j : ℤ) + 5 < len
      · by_cases h3 : (j : ℤ) + 8 < len
        · have hroom' : ((j + 4 : ℕ) : ℤ) + 4 < len := by push_cast; omega
          exact leaves_group hb hs hj hg h3 fun p hp => ih hs.tail.tail.tail hp
            ⟨by omega, by omega, .inr hroom'⟩ (by omega) (by omega) (by omega) (.inr hroom')
        · exact leaves_two hb hs hj hg h2 (.inr (by omega))
      · exact leaves_one hb hs hj hg h1 (by omega)
    · exact leaves_stop hb h0 hs hj hg (by omega)

/-- **The encoder with any room** leaves a text that is cut off somewhere, and
    writes it with its terminator into the room it has. -/
theorem encode_cut (hne : str ≠ out) (hs : m.At str 0 s) (hb : len ≤ (m out).length)
    (h1 : 1 ≤ len) (hint : len < 2 ^ 31)
    (hover : ¬ (len = 2 ^ 31 - 1 ∧ 1610612733 ≤ s.length)) :
    ∃ u, Cut s u ∧ (u.length : ℤ) < len ∧
      base64EncodeWithAdd m out len str s.length = some (m.put out (u ++ [0])) := by
  have hbufs : EncodeBufs m out str (len - 1) := ⟨hne, by omega, by omega⟩
  obtain ⟨u, hcut, hle, hrun⟩ := encode_cut_from (p := []) (t := 0) (i := 0) (j := 0) hbufs
    (by omega) hs rfl ⟨Nat.zero_mod 3, rfl, .inl rfl⟩ (by omega)
  rw [Mem.put_nil, Nat.zero_add, List.nil_append] at hrun
  exact ⟨u, hcut, by push_cast at hle; omega, hrun⟩

/-- Into a buffer of the greatest size there is, of more than 1.6 GB, the test
    for the room of a third byte overflows. -/
theorem encodeLoop_overflow (hb : EncodeBufs m out str len) (hs : m.At str i s)
    (hj : j = p.length) (hi : i % 3 = 0) (hd : 3 * j = 4 * i) (hlen : len + 1 = 2 ^ 31 - 1)
    (hn : 1610612733 ≤ i + s.length) (h8 : j + 8 ≤ 2 ^ 31) :
    encodeLoop len out str s.length i (m.put out p) j t = none := by
  induction s using Base64.group_induction generalizing i j p t with
  | nil => simp only [List.length_nil] at hn; omega
  | one a => simp only [List.length_singleton] at hn; omega
  | two a b => simp only [List.length_cons, List.length_nil] at hn; omega
  | more a b c s ih =>
    simp only [List.length_cons] at hn ⊢
    rw [encodeLoop_first hb hi hs hj (by omega), encodeLoop_second (a := a) hb (by omega) hs.tail
      (by simp [hj]) (by push_cast; omega)]
    by_cases h8' : j + 8 = 2 ^ 31
    · have hover : addInt ((j + 1 + 1 : ℕ) : ℤ) 6 = none := addInt_overflow (by push_cast; omega)
      rw [encodeLoop, (hs.tail.tail.put_ne hb.ne).load, Option.bind_eq_bind, Option.bind_some,
        if_neg (by omega), if_neg (by omega), hover]
      rfl
    · rw [encodeLoop_third hb (by omega) hs.tail.tail (by simp [hj]) (by push_cast; omega)]
      exact ih hs.tail.tail.tail (by simp [hj]) (by omega) (by omega) (by omega) (by omega)

theorem encode_overflow (hne : str ≠ out) (hs : m.At str 0 s) (hb : len ≤ (m out).length)
    (hlen : len = 2 ^ 31 - 1) (hn : 1610612733 ≤ s.length) :
    base64EncodeWithAdd m out len str s.length = none := by
  have hbufs : EncodeBufs m out str (len - 1) := ⟨hne, by omega, by omega⟩
  have h := encodeLoop_overflow (p := []) (t := 0) (i := 0) (j := 0) hbufs hs rfl rfl rfl
    (by omega) (by omega) (by norm_num)
  rw [Mem.put_nil] at h
  rw [base64EncodeWithAdd, h]
  rfl

end CppExperiment.STD
